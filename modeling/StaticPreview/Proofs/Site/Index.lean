import StaticPreview.Proofs.Html.Replaced
import StaticPreview.Proofs.Page.Names
import StaticPreview.Site.Manifest

/-! # The index of a site

The index has an item for each entry of the manifest. An item links the page of a source under the
name of the source, and shows the error if there is one.
-/
namespace StaticPreview.Site
open Html

structure Listed where
  hrefs : List (List Char)
  names : List (List Char)
  notices : List (List Char)
  deriving DecidableEq, Repr

def href? : Item → Option (List Char)
  | .tag (.opening name attributes) =>
    if name = "a".toList then attributes.lookup "href".toList else none
  | _ => none

theorem filterMap_href?_element (name : List Char) (attributes : List (List Char × List Char))
    (run : List Char) (more : List Item) :
    (element name attributes run more).filterMap href? =
      (href? (.tag (.opening name attributes))).toList ++ more.filterMap href? := by
  have hrun : (run.map Item.char).filterMap href? = [] := by
    simp [href?]
  have hclosing : href? (.tag (.closing name)) = none := rfl
  rw [element, List.filterMap_cons, List.filterMap_append, hrun, List.filterMap_cons, hclosing]
  cases href? (.tag (.opening name attributes)) <;> rfl

def opensNotice : Tag → Bool
  | .opening name attributes =>
    name == "span".toList && attributes.lookup "class".toList == some "sf-notice".toList
  | _ => false

def Listed.of (items : List Item) : Listed :=
  ⟨items.filterMap href?, textsBehind (Tag.opens "a") items, textsBehind opensNotice items⟩

def Listed.map (f : List Char → List Char) (l : Listed) : Listed :=
  ⟨l.hrefs.map f, l.names.map f, l.notices.map f⟩

def listed (s : List Char) : List Listed :=
  (contents (Tag.opens "li") (Tag.closes "li") (read s)).map Listed.of

namespace PageEntry

def listed (f : List Char → List Char) (e : PageEntry) : Listed :=
  ⟨[f e.output.toList], [f e.source.toList], (e.error.map (f ·.toList)).toList⟩

theorem map_listed (f g : List Char → List Char) (e : PageEntry) :
    (e.listed g).map f = e.listed (f ∘ g) := by
  unfold listed Listed.map
  cases e.error <;> rfl

def noticeItems (e : PageEntry) (more : List Item) : List Item :=
  match e.error with
  | some error =>
    .char ' ' :: element "span".toList [("class".toList, "sf-notice".toList)]
      (escape error.toList) more
  | none => more

def content (e : PageEntry) (more : List Item) : List Item :=
  element "a".toList [("href".toList, escape e.output.toList)] (escape e.source.toList)
    (e.noticeItems more)

theorem noticeItems_of_some {e : PageEntry} {error : String} (h : e.error = some error)
    (more : List Item) :
    e.noticeItems more = .char ' ' :: element "span".toList [("class".toList, "sf-notice".toList)]
      (escape error.toList) more := by
  rw [noticeItems, h]

theorem read_notice_append (e : PageEntry) (b : List Char) :
    read (e.notice ++ b) = e.noticeItems (read b) := by
  cases h : e.error with
  | none => rw [notice, noticeItems, h, List.nil_append]
  | some error =>
    have hopening : " <span class=\"sf-notice\">".toList =
        ' ' :: openingText "span".toList [⟨"class".toList, some "sf-notice".toList⟩] :=
      Text.toList_literal rfl
    have hclosing : "</span>".toList = closingText "span".toList := Text.toList_literal rfl
    have hspan : IsName "span".toList := by decide
    have hclass : ∀ a ∈ [(⟨"class".toList, some "sf-notice".toList⟩ : SpelledAttribute)],
        a.WellFormed := by decide
    have helement := read_element_append hspan hclass (ne_of_mem_escape rfl (s := error.toList)) b
    rw [noticeItems_of_some h, notice, h]
    simp only [hopening, hclosing, List.cons_append, read_char (c := ' ') (by decide)]
    rw [helement]
    rfl

theorem item_append (e : PageEntry) (b : List Char) :
    e.item ++ b = openingText "li".toList [] ++
      (openingText "a".toList [⟨"href".toList, some (escape e.output.toList)⟩] ++
        escape e.source.toList ++ closingText "a".toList ++
          (e.notice ++ (closingText "li".toList ++ '\n' :: b))) := by
  -- The address stands between two literals, which are parts of one tag.
  have hopening : "<li><a href=\"".toList =
      openingText "li".toList [] ++ ('<' :: 'a' :: ' ' :: "href".toList ++ ['=', '"']) :=
    Text.toList_literal rfl
  have hbetween : "\">".toList = ['"', '>'] := Text.toList_literal rfl
  have hlink : "</a>".toList = closingText "a".toList := Text.toList_literal rfl
  have hclosing : "</li>\n".toList = closingText "li".toList ++ ['\n'] := Text.toList_literal rfl
  unfold item
  rw [hopening, hbetween, hlink, hclosing]
  simp [openingText, SpelledAttribute.written]

theorem noticeItems_append (e : PageEntry) (inner more : List Item) :
    e.noticeItems inner ++ more = e.noticeItems (inner ++ more) := by
  unfold noticeItems
  cases e.error with
  | none => rfl
  | some error => exact congrArg _ (element_append _ _ _ inner more)

theorem content_append (e : PageEntry) (inner more : List Item) :
    e.content inner ++ more = e.content (inner ++ more) := by
  rw [content, element_append, noticeItems_append]
  rfl

theorem read_item_append (e : PageEntry) (b : List Char) :
    read (e.item ++ b) = .tag (.opening "li".toList []) ::
      (e.content [] ++ .tag (.closing "li".toList) :: .char '\n' :: read b) := by
  have hli : IsName "li".toList := by decide
  have ha : IsName "a".toList := by decide
  have hhref : ∀ a ∈ [(⟨"href".toList, some (escape e.output.toList)⟩ : SpelledAttribute)],
      a.WellFormed :=
    List.forall_mem_singleton.mpr (Markup.wellFormed_escape (by decide) e.output.toList)
  have hlink := read_element_append ha hhref (ne_of_mem_escape rfl (s := e.source.toList))
    (e.notice ++ (closingText "li".toList ++ '\n' :: b))
  rw [item_append, whole_opening hli (by simp), read_opening hli (by simp), hlink,
    read_notice_append, whole_closing hli, read_closing hli, read_char (by decide), content_append]
  rfl

theorem not_any_content (e : PageEntry) :
    ((e.content []).filterMap Item.tag?).any (Tag.opens "li") = false ∧
      ((e.content []).filterMap Item.tag?).any (Tag.closes "li") = false := by
  rw [content, filterMap_tag?_element]
  cases h : e.error with
  | none =>
    rw [noticeItems, h]
    exact ⟨rfl, rfl⟩
  | some error =>
    rw [noticeItems_of_some h, List.filterMap_cons_none rfl, filterMap_tag?_element]
    exact ⟨rfl, rfl⟩

theorem of_content (e : PageEntry) : Listed.of (e.content []) = e.listed escape := by
  rw [Listed.of, content, filterMap_href?_element, textsBehind_element _ _ rfl,
    textsBehind_element _ _ rfl, listed]
  cases h : e.error with
  | none =>
    rw [noticeItems, h]
    rfl
  | some error =>
    rw [noticeItems_of_some h, List.filterMap_cons_none rfl, filterMap_href?_element,
      textsBehind_char, textsBehind_char, textsBehind_element _ _ rfl, textsBehind_element _ _ rfl]
    rfl

end PageEntry

theorem contents_items (entries : List PageEntry) (b : List Char) :
    contents (Tag.opens "li") (Tag.closes "li") (read (entries.flatMap PageEntry.item ++ b)) =
      entries.map (PageEntry.content · []) ++
        contents (Tag.opens "li") (Tag.closes "li") (read b) := by
  induction entries with
  | nil => rfl
  | cons e more ih =>
    obtain ⟨hopens, hcloses⟩ := e.not_any_content
    rw [List.flatMap_cons, List.append_assoc, e.read_item_append,
      contents_element ⟨rfl, rfl, rfl⟩ hopens hcloses, contents, ih]
    rfl

def indexBody (entries : List PageEntry) : List Char :=
  "<h1>Previews</h1>\n<ul>\n".toList ++ entries.flatMap PageEntry.item ++ "</ul>".toList

/-- The index has the stylesheet in one element, and the lists behind it. -/
theorem sheetBetween_indexPage (entries : List PageEntry) (sheet : List Char) :
    Page.SheetBetween (indexPage entries (.ofList sheet)).toList sheet
      (Page.beforeSheet "Preview".toList) (Page.afterSheet (indexBody entries)) := by
  have heq : (indexPage entries (.ofList sheet)).toList =
      Page.document "Preview".toList (indexBody entries) sheet :=
    String.toList_ofList.trans (congrArg _ String.toList_ofList)
  rw [heq]
  exact Page.sheetBetween_document _ _ sheet

theorem listed_beforeSheet (title : List Char) : listed (Page.beforeSheet title) = [] := by
  rw [listed, (Page.skips_beforeSheet (by decide) title).contents_eq]
  rfl

/-- The items of the index are one for each entry, in order. -/
theorem contents_indexBody (entries : List PageEntry) (b : List Char) :
    contents (Tag.opens "li") (Tag.closes "li") (read (indexBody entries ++ b)) =
      entries.map (PageEntry.content · []) ++
        contents (Tag.opens "li") (Tag.closes "li") (read b) := by
  have hheading : Skips (Tag.opens "li") "<h1>Previews</h1>\n<ul>\n".toList :=
    skips_literal (by decide +kernel)
  have hend : Skips (Tag.opens "li") "</ul>".toList := skips_literal (by decide +kernel)
  unfold indexBody
  rw [List.append_assoc, List.append_assoc, hheading.contents_append, contents_items,
    hend.contents_append]

theorem listed_indexBody (entries : List PageEntry) :
    listed (Page.afterSheet (indexBody entries)) = entries.map (PageEntry.listed escape) := by
  have hli : "li" ∈ Page.bodyElements := by decide
  obtain ⟨before, after, heq, hbefore, hafter⟩ :=
    Page.exists_skips_afterSheet hli (indexBody entries)
  rw [listed, heq, List.append_assoc, hbefore.contents_append, contents_indexBody,
    hafter.contents_eq, List.append_nil, List.map_map]
  exact List.map_congr_left fun e _ => e.of_content

variable {meaning : List Char → List Char}

/-- What a reader sees of a name or a message is what it says when its references are decoded, on
the pages of notices and in the index. That is the name or the message as it is if and only if each
reference in it means the text that it is written with. -/
theorem names_decoded (hmarks : DecodesMarks meaning) (hgrows : NeverGrows meaning)
    (label message sheet : List Char) (entries : List PageEntry) :
    (∃ head tail, Page.SheetBetween (Page.unavailable label sheet) sheet head tail ∧
      texts (Tag.opens "code") head = [] ∧
      (texts (Tag.opens "code") tail).map (decodeBy meaning) =
        [decodeBy meaning label, Page.advice]) ∧
    (∃ head tail, Page.SheetBetween (Page.failure label message sheet) sheet head tail ∧
      texts (Tag.opens "code") head = [] ∧ texts (Tag.opens "pre") head = [] ∧
      (texts (Tag.opens "code") tail).map (decodeBy meaning) = [decodeBy meaning label] ∧
      (texts (Tag.opens "pre") tail).map (decodeBy meaning) = [decodeBy meaning message]) ∧
    (∃ head tail, Page.SheetBetween (indexPage entries (.ofList sheet)).toList sheet head tail ∧
      listed head = [] ∧
      (listed tail).map (Listed.map (decodeBy meaning)) =
        entries.map (PageEntry.listed (decodeBy meaning))) ∧
    ∀ s, decodeBy meaning s = s ↔
      ∀ body ∈ referenceBodies s, meaning body = '&' :: body ++ [';'] := by
  have hescape := decodeBy_escape hmarks
  have hadvice : decodeBy meaning Page.advice = Page.advice :=
    decodeBy_of_plain (by decide)
  have hhead (name : String) (hname : name ∈ Page.bodyElements) (title : List Char) :
      texts (Tag.opens name) (Page.beforeSheet title) = [] :=
    (Page.skips_beforeSheet hname title).texts_eq
  have hfailure := Page.texts_failure label message
  refine ⟨⟨_, _, Page.sheetBetween_document _ _ sheet, hhead "code" (by decide) _, ?_⟩,
    ⟨_, _, Page.sheetBetween_document _ _ sheet, hhead "code" (by decide) _,
      hhead "pre" (by decide) _, ?_, ?_⟩,
    ⟨_, _, sheetBetween_indexPage entries sheet, listed_beforeSheet "Preview".toList, ?_⟩,
    decodeBy_eq_self_iff hgrows⟩
  · rw [Page.texts_unavailable, List.map_cons, List.map_singleton, hescape, hescape, hadvice]
  · rw [hfailure.1, List.map_singleton, hescape]
  · rw [hfailure.2, List.map_singleton, hescape]
  · rw [listed_indexBody, List.map_map]
    refine List.map_congr_left fun e _ => ?_
    exact (e.map_listed _ _).trans (congrArg (e.listed ·) (funext hescape))

theorem names_decoded_ampersand :
    DecodesMarks tableMeaning ∧ NeverGrows tableMeaning ∧
      (∃ head tail, Page.SheetBetween
          (Page.failure "R&D;.jsx".toList "<b>".toList []) [] head tail ∧
        (texts (Tag.opens "code") tail).map (decodeBy tableMeaning) = ["R&D;.jsx".toList] ∧
        (texts (Tag.opens "pre") tail).map (decodeBy tableMeaning) = ["<b>".toList]) ∧
      ∃ head tail, Page.SheetBetween (indexPage
          [⟨"R&D;.jsx", "R&D;.html", false, some "<b>"⟩] (.ofList [])).toList [] head tail ∧
        (listed tail).map (Listed.map (decodeBy tableMeaning)) =
          [⟨["R&D;.html".toList], ["R&D;.jsx".toList], ["<b>".toList]⟩] := by
  obtain ⟨-, ⟨head, tail, hsheet, -, -, hcode, hpre⟩, ⟨head', tail', hsheet', -, hitems⟩, hself⟩ :=
    names_decoded decodesMarks_tableMeaning neverGrows_tableMeaning "R&D;.jsx".toList
      "<b>".toList [] [⟨"R&D;.jsx", "R&D;.html", false, some "<b>"⟩]
  have hname := (hself "R&D;.jsx".toList).mpr (by decide +kernel)
  have houtput := (hself "R&D;.html".toList).mpr (by decide +kernel)
  have herror := (hself "<b>".toList).mpr (by decide +kernel)
  rw [hname] at hcode
  rw [herror] at hpre
  refine ⟨decodesMarks_tableMeaning, neverGrows_tableMeaning, ⟨head, tail, hsheet, hcode, hpre⟩,
    head', tail', hsheet', hitems.trans ?_⟩
  simp only [List.map_singleton, PageEntry.listed, hname, houtput, herror, Option.map_some,
    Option.toList_some]

/-- A file whose name holds a reference is shown under another name, and so is its page. -/
theorem names_reference :
    (∃ head tail, Page.SheetBetween (Page.unavailable "a&amp;b.jsx".toList []) [] head tail ∧
      texts (Tag.opens "code") tail = ["a&amp;b.jsx".toList, escape Page.advice]) ∧
    (∃ head tail, Page.SheetBetween
        (indexPage [⟨"a&amp;b.jsx", "a&amp;b.html", true, none⟩] (.ofList [])).toList [] head tail ∧
      listed tail = [⟨["a&amp;b.html".toList], ["a&amp;b.jsx".toList], []⟩]) ∧
    ∀ meaning, DecodesMarks meaning →
      decodeBy meaning "a&amp;b.jsx".toList = "a&b.jsx".toList ∧
        "a&b.jsx".toList ≠ "a&amp;b.jsx".toList ∧
        decodeBy meaning "a&amp;b.html".toList = "a&b.html".toList ∧
        "a&b.html".toList ≠ "a&amp;b.html".toList := by
  have hname : escape "a&amp;b.jsx".toList = "a&amp;b.jsx".toList := by decide +kernel
  have houtput : escape "a&amp;b.html".toList = "a&amp;b.html".toList := by decide +kernel
  refine ⟨⟨_, _, Page.sheetBetween_document _ _ [], ?_⟩,
    ⟨_, _, sheetBetween_indexPage _ [], (listed_indexBody _).trans ?_⟩, ?_⟩
  · rw [Page.texts_unavailable, hname]
  · rw [List.map_singleton, PageEntry.listed, hname, houtput]
    rfl
  · intro meaning hmarks
    have hshown := decodeBy_amp (a := ['a']) (b := "b.jsx".toList) hmarks (by decide) (by decide)
    have hlinked := decodeBy_amp (a := ['a']) (b := "b.html".toList) hmarks (by decide) (by decide)
    exact ⟨hshown, by decide, hlinked, by decide⟩

end StaticPreview.Site
