import StaticPreview.Proofs.Html.Reader

/-! # The tags of a page and the texts behind them

The text of an element without other elements in it stands between its tag and the next one.
-/
namespace StaticPreview.Html

def Item.tag? : Item → Option Tag
  | tag t => some t
  | char _ => none

def tags (s : List Char) : List Tag :=
  (read s).filterMap Item.tag?

def Tag.hasId (id : String) : Tag → Bool
  | opening _ attributes => attributes.lookup "id".toList == some id.toList
  | _ => false

theorem tags_append {a : List Char} (ha : Whole a) (b : List Char) :
    tags (a ++ b) = tags a ++ tags b := by
  rw [tags, ha, List.filterMap_append]
  rfl

def leading : List Item → List Char
  | .char c :: more => c :: leading more
  | _ => []

def textsBehind (p : Tag → Bool) : List Item → List (List Char)
  | [] => []
  | .char _ :: more => textsBehind p more
  | .tag t :: more => (if p t then [leading more] else []) ++ textsBehind p more

/-- The texts from the tags that `p` accepts, each up to the next tag. -/
def texts (p : Tag → Bool) (s : List Char) : List (List Char) :=
  textsBehind p (read s)

structure Tagged (s : List Char) (ts : List Tag) : Prop where
  whole : Whole s
  tags : tags s = ts

theorem Tagged.append {a b : List Char} {ts us : List Tag} (ha : Tagged a ts) (hb : Tagged b us) :
    Tagged (a ++ b) (ts ++ us) := by
  refine ⟨ha.whole.append hb.whole, ?_⟩
  rw [tags_append ha.whole, ha.tags, hb.tags]

theorem tagged_plain {run : List Char} (h : ∀ c ∈ run, c ≠ '<') : Tagged run [] := by
  refine ⟨whole_of_plain h, ?_⟩
  rw [tags, read_of_plain h, List.filterMap_map]
  simp [Item.tag?]

theorem tagged_opening {name : List Char} (hname : IsName name) {as : List SpelledAttribute}
    (has : ∀ a ∈ as, a.WellFormed) :
    Tagged (openingText name as) [.opening (small name) (as.map SpelledAttribute.asRead)] := by
  refine ⟨whole_opening hname has, ?_⟩
  rw [tags, read_opening hname has]
  rfl

theorem tagged_closing {name : List Char} (hname : IsName name) :
    Tagged (closingText name) [.closing (small name)] := by
  refine ⟨whole_closing hname, ?_⟩
  rw [tags, read_closing hname]
  rfl

/-- An element with a text in it leaves its two tags. -/
theorem tagged_element {name run : List Char} (hname : IsName name) {as : List SpelledAttribute}
    (has : ∀ a ∈ as, a.WellFormed) (hrun : ∀ c ∈ run, c ≠ '<') :
    Tagged (openingText name as ++ run ++ closingText name)
      [.opening (small name) (as.map SpelledAttribute.asRead), .closing (small name)] :=
  ((tagged_opening hname has).append (tagged_plain hrun)).append (tagged_closing hname)

/-- The characters of a literal are taken as a list, which is much faster to read. -/
theorem tagged_literal {s : List Char} {ts : List Tag}
    (h : Item.char '<' ∉ read s ∧ tags s = ts) : Tagged (String.ofList s).toList ts := by
  rw [String.toList_ofList]
  exact ⟨whole_of_read h.1, h.2⟩

section
variable {p : Tag → Bool}

theorem textsBehind_append_of_not_any {items : List Item}
    (h : (items.filterMap Item.tag?).any p = false) (more : List Item) :
    textsBehind p (items ++ more) = textsBehind p more := by
  induction items with
  | nil => rfl
  | cons item items ih =>
    cases item with
    | char c => exact ih h
    | tag t =>
      obtain ⟨ht, hitems⟩ := Bool.or_eq_false_iff.mp h
      rw [List.cons_append, textsBehind, ht, ih hitems]
      rfl

theorem texts_append {a : List Char} {ts : List Tag} (ha : Tagged a ts) (h : ts.any p = false)
    (b : List Char) : texts p (a ++ b) = texts p b := by
  rw [texts, ha.whole]
  refine textsBehind_append_of_not_any ?_ _
  rwa [← ha.tags] at h

theorem texts_of_not_any {a : List Char} {ts : List Tag} (ha : Tagged a ts)
    (h : ts.any p = false) : texts p a = [] := by
  have happend := texts_append ha h []
  rwa [List.append_nil, texts, texts, read_nil] at happend

theorem leading_append_tag (run : List Char) (t : Tag) (more : List Item) :
    leading (run.map Item.char ++ .tag t :: more) = run := by
  induction run with
  | nil => rfl
  | cons c r ih => rw [List.map_cons, List.cons_append, leading, ih]

/-- The text of an element is what stands between its two tags. -/
theorem texts_element {name run : List Char} (hname : IsName name) {as : List SpelledAttribute}
    (has : ∀ a ∈ as, a.WellFormed) (hrun : ∀ c ∈ run, c ≠ '<')
    (hopening : p (.opening (small name) (as.map SpelledAttribute.asRead)))
    (hclosing : p (.closing (small name)) = false) (b : List Char) :
    texts p (openingText name as ++ run ++ closingText name ++ b) = run :: texts p b := by
  have hbehind : (((run.map Item.char).filterMap Item.tag?).any p) = false := by
    rw [List.filterMap_map]
    simp [Item.tag?]
  rw [List.append_assoc, List.append_assoc, texts, whole_opening hname has, whole_of_plain hrun,
    whole_closing hname, read_opening hname has, read_of_plain hrun, read_closing hname,
    List.singleton_append, List.singleton_append, textsBehind, if_pos hopening, leading_append_tag,
    textsBehind_append_of_not_any hbehind, textsBehind, hclosing]
  rfl

end

end StaticPreview.Html
