import StaticPreview.Proofs.Html.Decoder
import StaticPreview.Proofs.Html.Texts
import StaticPreview.Server.Shell

/-! # The shell page of any preview

Whatever the preview is, the page has the same tags, and each part of the preview that stands in it
is decoded to what it was.
-/
namespace StaticPreview.Server.Shell
open Html

theorem decode_escape (D : Decoder) (s : List Char) : D.decode (escape s) = s := by
  have hchar (c : Char) (t : List Char) : D.decode (escapeChar c ++ t) = c :: D.decode t := by
    unfold escapeChar
    split
    · exact D.reference (p := ("lt".toList, '<')) (by decide) t
    · exact D.reference (p := ("gt".toList, '>')) (by decide) t
    · exact D.reference (p := ("amp".toList, '&')) (by decide) t
    · exact D.reference (p := ("quot".toList, '"')) (by decide) t
    · exact D.reference (p := ("#x27".toList, '\'')) (by decide) t
    · exact D.reference (p := ("#x2f".toList, '/')) (by decide) t
    next hamp _ _ _ => exact D.char hamp t
  induction s with
  | nil => exact D.nil
  | cons c r ih =>
    rw [escape, List.flatMap_cons, hchar]
    exact congrArg (c :: ·) ih

/-- No character of an escaped text ends the text or a value in quotation marks. -/
theorem ne_of_mem_escape {s : List Char} : ∀ c ∈ escape s, c ≠ '<' ∧ c ≠ '"' := by
  intro c hc
  obtain ⟨d, -, hd⟩ := List.mem_flatMap.mp hc
  have hreference : ∀ text ∈ ["&lt;", "&gt;", "&amp;", "&quot;", "&#x27;", "&#x2f;"],
      ∀ c ∈ text.toList, c ≠ '<' ∧ c ≠ '"' := by
    decide
  unfold escapeChar at hd
  split at hd
  next => exact hreference _ (by simp) c hd
  next => exact hreference _ (by simp) c hd
  next => exact hreference _ (by simp) c hd
  next => exact hreference _ (by simp) c hd
  next => exact hreference _ (by simp) c hd
  next => exact hreference _ (by simp) c hd
  next hlt _ _ hquot _ _ =>
    obtain rfl := List.mem_singleton.mp hd
    exact ⟨hlt, hquot⟩

def start (name : String) (attributes : List (String × List Char)) : Tag :=
  .opening name.toList (attributes.map fun a => (a.1.toList, a.2))

def stop (name : String) : Tag :=
  .closing name.toList

/-- The tags up to the title. -/
def topTags : List Tag :=
  [.declaration "DOCTYPE html".toList, start "html" [("lang", "en".toList)], start "head" [],
    start "meta" [("charset", "utf-8".toList)],
    start "meta" [("name", "viewport".toList),
      ("content", "width=device-width, initial-scale=1".toList)],
    start "title" []]

def headTags : List Tag :=
  topTags ++ [stop "title", start "style" [], stop "style", stop "head", start "body" [],
    start "header" [("class", "bar".toList)]]

def fileTag : Tag := start "span" [("id", "file".toList)]

def statusTag (badge : List Char) : Tag := start "span" [("id", "status".toList), ("class", badge)]

def frameTag (srcdoc : List Char) : Tag :=
  start "iframe" [("id", "preview".toList), ("title", "Preview".toList),
    ("sandbox", "allow-same-origin".toList), ("srcdoc", srcdoc)]

def tailTags (srcdoc : List Char) : List Tag :=
  [stop "header", frameTag srcdoc, stop "iframe", start "script" [("src", "/__hmr.js".toList)],
    stop "script", stop "body", stop "html"]

def tags (badge srcdoc : List Char) : List Tag :=
  headTags ++ [fileTag, stop "span", statusTag badge, stop "span"] ++ tailTags srcdoc

def head (title : List Char) : List Char :=
  "<!DOCTYPE html>
<html lang=\"en\">
<head>
  <meta charset=\"utf-8\">
  <meta name=\"viewport\" content=\"width=device-width, initial-scale=1\">
  <title>".toList ++ escape title ++ " - stillframe</title>
  <style>
".toList ++ styles ++ "  </style>
</head>
<body>
  <header class=\"bar\">
    ".toList

def fileAttributes : List SpelledAttribute := [⟨"id".toList, some "file".toList⟩]

def statusAttributes (badge : List Char) : List SpelledAttribute :=
  [⟨"id".toList, some "status".toList⟩, ⟨"class".toList, some badge⟩]

def frameAttributes (srcdoc : List Char) : List SpelledAttribute :=
  [⟨"id".toList, some "preview".toList⟩, ⟨"title".toList, some "Preview".toList⟩,
    ⟨"sandbox".toList, some "allow-same-origin".toList⟩, ⟨"srcdoc".toList, some srcdoc⟩]

def tail (srcdoc : List Char) : List Char :=
  "\n  </header>\n  ".toList ++ (openingText "iframe".toList (frameAttributes srcdoc) ++ "</iframe>
  <script src=\"/__hmr.js\"></script>
</body>
</html>".toList)

theorem openingText_status (badge : List Char) :
    openingText "span".toList (statusAttributes badge) =
    "<span id=\"status\" class=\"".toList ++ badge ++ "\">".toList := by
  simp [statusAttributes, openingText, SpelledAttribute.written]

theorem openingText_frame (srcdoc : List Char) :
    openingText "iframe".toList (frameAttributes srcdoc) =
    "<iframe id=\"preview\" title=\"Preview\" sandbox=\"allow-same-origin\" srcdoc=\"".toList ++
      srcdoc ++ "\">".toList := by
  simp [frameAttributes, openingText, SpelledAttribute.written]

/-- The page is its head, the two labels and the rest. -/
theorem page_eq (p : Preview) : page p =
    head (orElse p.file "No entry") ++ (openingText "span".toList fileAttributes ++
      escape (orElse p.file "No entry file") ++ closingText "span".toList ++ ("\n    ".toList ++
        (openingText "span".toList
            (statusAttributes ("badge ".toList ++ badgeClass p.conversion.success)) ++
          badge p.conversion ++ closingText "span".toList ++
            tail (escape p.conversion.html.toList)))) := by
  have hfile : "  </style>
</head>
<body>
  <header class=\"bar\">
    <span id=\"file\">".toList = "  </style>
</head>
<body>
  <header class=\"bar\">
    ".toList ++ openingText "span".toList fileAttributes := Text.toList_literal rfl
  have hstatus : "</span>\n    <span id=\"status\" class=\"badge ".toList =
      closingText "span".toList ++ ("\n    ".toList ++ ("<span id=\"status\" class=\"".toList ++
        "badge ".toList)) := Text.toList_literal rfl
  -- The frame's tag is cut in two by the value of its last attribute.
  have hframe : "</span>
  </header>
  <iframe id=\"preview\" title=\"Preview\" sandbox=\"allow-same-origin\" srcdoc=\"".toList =
      closingText "span".toList ++
        ("\n  </header>\n  ".toList ++
          "<iframe id=\"preview\" title=\"Preview\" sandbox=\"allow-same-origin\" srcdoc=\"".toList) :=
    Text.toList_literal rfl
  have hfoot : "\"></iframe>
  <script src=\"/__hmr.js\"></script>
</body>
</html>".toList = "\">".toList ++ "</iframe>
  <script src=\"/__hmr.js\"></script>
</body>
</html>".toList := Text.toList_literal rfl
  unfold page head tail
  rw [hfile, hstatus, hframe, hfoot, openingText_status, openingText_frame]
  simp only [List.append_assoc]

theorem tagged_escape (s : List Char) : Tagged (escape s) [] :=
  tagged_plain fun c hc => (ne_of_mem_escape c hc).1

set_option maxRecDepth 16384 in
theorem tagged_styles : Tagged styles [] := by
  unfold styles
  exact tagged_literal (by decide +kernel)

set_option maxRecDepth 4096 in
theorem tagged_head (title : List Char) : Tagged (head title) headTags := by
  change Tagged _ (topTags ++ [] ++ [stop "title", start "style" []] ++ [] ++
    [stop "style", stop "head", start "body" [], start "header" [("class", "bar".toList)]])
  unfold head
  refine (Tagged.append ?_ (tagged_escape title)).append ?_ |>.append tagged_styles |>.append ?_
  all_goals exact tagged_literal (by decide +kernel)

theorem isName_span : IsName "span".toList := by decide

theorem wellFormed_fileAttributes : ∀ a ∈ fileAttributes, a.WellFormed := by decide

theorem wellFormed_statusAttributes (success : Bool) :
    ∀ a ∈ statusAttributes ("badge ".toList ++ badgeClass success), a.WellFormed := by
  cases success <;> decide

theorem wellFormed_frameAttributes (html : List Char) :
    ∀ a ∈ frameAttributes (escape html), a.WellFormed := by
  have hsrcdoc : SpelledAttribute.WellFormed ⟨"srcdoc".toList, some (escape html)⟩ := by
    have hname : "srcdoc".toList ≠ [] ∧ ∀ c ∈ "srcdoc".toList, endsAttributeName c = false := by
      decide
    refine ⟨hname.1, hname.2, ?_⟩
    rintro value ⟨rfl⟩ c hc
    exact (ne_of_mem_escape c hc).2
  simp only [frameAttributes, List.forall_mem_cons]
  exact ⟨by decide, by decide, by decide, hsrcdoc, by simp⟩

/-- The names in the template are written small. -/
theorem small_name : ∀ name ∈ ["span", "iframe", "id", "class", "title", "sandbox", "srcdoc"],
    small name.toList = name.toList := by
  decide

theorem opening_status (badge : List Char) :
    Tag.opening (small "span".toList) ((statusAttributes badge).map SpelledAttribute.asRead) =
      statusTag badge := by
  simp [statusTag, start, statusAttributes, SpelledAttribute.asRead, small_name,
    -String.reduceToList]

theorem opening_frame (srcdoc : List Char) :
    Tag.opening (small "iframe".toList) ((frameAttributes srcdoc).map SpelledAttribute.asRead) =
      frameTag srcdoc := by
  simp [frameTag, start, frameAttributes, SpelledAttribute.asRead, small_name,
    -String.reduceToList]

theorem tagged_tail (html : List Char) : Tagged (tail (escape html)) (tailTags (escape html)) := by
  change Tagged _ ([stop "header"] ++ ([frameTag (escape html)] ++ [stop "iframe",
    start "script" [("src", "/__hmr.js".toList)], stop "script", stop "body", stop "html"]))
  have hname : IsName "iframe".toList := by decide
  unfold tail
  refine Tagged.append (tagged_literal (by decide +kernel)) (Tagged.append ?_
    (tagged_literal (by decide +kernel)))
  rw [← opening_frame]
  exact tagged_opening hname (wellFormed_frameAttributes html)

theorem tagged_file (label : List Char) :
    Tagged (openingText "span".toList fileAttributes ++ escape label ++ closingText "span".toList)
      [fileTag, stop "span"] :=
  tagged_element isName_span wellFormed_fileAttributes fun c hc => (ne_of_mem_escape c hc).1

theorem ne_of_mem_badge (c : Conversion) : ∀ d ∈ badge c, d ≠ '<' := by
  rw [badge]
  split
  · decide
  · exact fun d hd => (ne_of_mem_escape d hd).1

/-- The badge of a conversion is one element with its class. -/
theorem tagged_status (c : Conversion) :
    Tagged (openingText "span".toList
        (statusAttributes ("badge ".toList ++ badgeClass c.success)) ++ badge c ++
      closingText "span".toList)
      [statusTag ("badge ".toList ++ badgeClass c.success), stop "span"] := by
  rw [← opening_status]
  exact tagged_element isName_span (wellFormed_statusAttributes c.success) (ne_of_mem_badge c)

theorem tagged_space : Tagged "\n    ".toList [] :=
  tagged_plain (by decide)

/-- The page has the tags of the template. -/
theorem tags_page (p : Preview) : Html.tags (page p) =
    tags ("badge ".toList ++ badgeClass p.conversion.success)
      (escape p.conversion.html.toList) := by
  have h := (tagged_head (orElse p.file "No entry")).append
    ((tagged_file (orElse p.file "No entry file")).append (tagged_space.append
      ((tagged_status p.conversion).append (tagged_tail p.conversion.html.toList))))
  rw [← page_eq] at h
  exact h.tags

theorem texts_file (p : Preview) :
    texts (Tag.hasId "file") (page p) = [escape (orElse p.file "No entry file")] := by
  have hrest := tagged_space.append
    ((tagged_status p.conversion).append (tagged_tail p.conversion.html.toList))
  have hnone : Tag.hasId "file" (.closing (small "span".toList)) = false := rfl
  rw [page_eq, texts_append (tagged_head _) (by decide), texts_element isName_span
    wellFormed_fileAttributes (fun c hc => (ne_of_mem_escape c hc).1) (by decide) hnone,
    texts_of_not_any hrest rfl]

theorem texts_status (p : Preview) :
    texts (Tag.hasId "status") (page p) = [badge p.conversion] := by
  have hnone : Tag.hasId "status" (.closing (small "span".toList)) = false := rfl
  rw [page_eq, texts_append (tagged_head _) (by decide), texts_append (tagged_file _) (by decide),
    texts_append tagged_space rfl, texts_element isName_span
      (wellFormed_statusAttributes p.conversion.success) (ne_of_mem_badge _) rfl hnone,
    texts_of_not_any (tagged_tail _) rfl]

end StaticPreview.Server.Shell
