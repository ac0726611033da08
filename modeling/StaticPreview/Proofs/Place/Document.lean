import StaticPreview.Page.Document
import StaticPreview.Proofs.Place.Escape
import StaticPreview.Proofs.Text.Characters

/-! # Documents by places

The end tags of style elements are sought in a copy of the stylesheet that has no capitals, and the
stylesheet itself is cut at the places found there. A capital is as wide as its small letter, so
the places of the copy are places of the stylesheet.
-/
namespace StaticPreview.Place
open Text Page

/-- The places of `part` in a text that begins at a place, none inside of another. -/
def matchPlaces (part : List Char) (place : Nat) (s : List Char) : List Nat :=
  match s with
  | [] => []
  | c :: r =>
    if part.isPrefixOf (c :: r) then
      place :: matchPlaces part (place + width part) (r.drop (part.length - 1))
    else matchPlaces part (place + c.utf8Size) r
termination_by s.length
decreasing_by all_goals simp only [List.length_cons, List.length_drop]; omega

def cutAt (sheet : List Char) (state : Nat × List Char) (place : Nat) :
    Checked (Nat × List Char) := do
  let (last, out) := state
  return (place + width styleEnd, out ++ (← slice sheet last place) ++ "<\\/style".toList)

def cutEnd (sheet : List Char) (state : Nat × List Char) : Checked (List Char) := do
  let (last, out) := state
  return out ++ (← sliceFrom sheet last)

def neutralizeSheet (sheet : List Char) : Checked (List Char) := do
  let lower := sheet.map Char.toLower
  if holds styleEnd lower then
    cutEnd sheet (← (matchPlaces styleEnd 0 lower).foldlM (cutAt sheet) (0, []))
  else return sheet

/-- A capital and its small letter are ASCII characters both. -/
theorem utf8Size_toLower (c : Char) : c.toLower.utf8Size = c.utf8Size := by
  rcases toLower_cases c with hsame | ⟨hhigh, -, hlower⟩
  · rw [hsame]
  · rw [utf8Size_of_ascii (c := c) (by omega), utf8Size_of_ascii (by omega)]

theorem width_map_toLower (s : List Char) : width (s.map Char.toLower) = width s := by
  induction s with
  | nil => rfl
  | cons c r ih => rw [List.map_cons, width, width, ih, utf8Size_toLower]

theorem startsWith_eq (lead s : List Char) :
    startsWith lead s = lead.isPrefixOf (s.map Char.toLower) := by
  induction lead generalizing s with
  | nil => rfl
  | cons m lead ih =>
    cases s with
    | nil => rfl
    | cons c r => rw [startsWith, ih, List.map_cons, List.isPrefixOf_cons_cons]

theorem neutralize_of_holds_eq_false {s : List Char}
    (h : holds styleEnd (s.map Char.toLower) = false) : neutralize s = s := by
  induction s with
  | nil => simp [neutralize]
  | cons c r ih =>
    rw [List.map_cons, holds, Bool.or_eq_false_iff, ← List.map_cons, ← startsWith_eq] at h
    rw [neutralize, h.1, ih h.2]
    rfl

section
variable {sheet a p r : List Char}

theorem cutAt_append (hs : a ++ (p ++ r) = sheet) (out : List Char) :
    cutAt sheet (width a, out) (width a + width p) =
      .ok (width a + width p + width styleEnd, out ++ p ++ "<\\/style".toList) := by
  rw [cutAt, ← hs, slice_append]
  rfl

theorem cutEnd_append (hs : a ++ p = sheet) (out : List Char) :
    cutEnd sheet (width a, out) = .ok (out ++ p) := by
  rw [cutEnd, ← hs, sliceFrom_append]
  rfl

/-- The width of an end tag is the width of what stands in its place in the stylesheet. -/
theorem width_take_of_startsWith {s : List Char} (h : startsWith styleEnd s) :
    width (s.take 7) = width styleEnd := by
  rw [startsWith_eq, List.isPrefixOf_iff_prefix, List.prefix_iff_eq_take] at h
  rw [h, ← List.map_take, width_map_toLower]
  rfl

/-- Of the stylesheet `a` is copied, `p` is searched and `r` is still ahead. -/
theorem cutAll_eq (hs : a ++ (p ++ r) = sheet) (out : List Char) :
    ((matchPlaces styleEnd (width a + width p) (r.map Char.toLower)).foldlM (cutAt sheet)
      (width a, out) >>= cutEnd sheet) = .ok (out ++ p ++ neutralize r) := by
  fun_induction neutralize r generalizing a p out with
  | case1 =>
    rw [List.append_nil] at hs
    rw [List.map_nil, matchPlaces, List.foldlM_nil, pure_eq_ok, ok_bind, cutEnd_append hs,
      List.append_nil]
  | case2 c r h ih =>
    have hprefix : styleEnd.isPrefixOf (c.toLower :: r.map Char.toLower) := by
      rwa [← List.map_cons, ← startsWith_eq]
    have hlength : styleEnd.length - 1 = 6 := by decide
    have hrest := ih (a := a ++ p ++ (c :: r).take 7) (p := [])
      (by simp [← hs]) (out ++ p ++ "<\\/style".toList)
    rw [width_append, width_append, width_take_of_startsWith h, width, Nat.add_zero,
      List.append_nil] at hrest
    rw [List.map_cons, matchPlaces, if_pos hprefix, List.foldlM_cons, cutAt_append hs, ok_bind,
      hlength, ← List.map_drop, hrest, List.append_assoc]
  | case3 c r h ih =>
    have hprefix : ¬ styleEnd.isPrefixOf (c.toLower :: r.map Char.toLower) := by
      rwa [← List.map_cons, ← startsWith_eq]
    have hrest := ih (a := a) (p := p ++ [c]) (by simp [← hs]) out
    rw [width_append, width_singleton, ← Nat.add_assoc] at hrest
    rw [List.map_cons, matchPlaces, if_neg hprefix, utf8Size_toLower, hrest]
    simp only [List.append_assoc, List.singleton_append]

end

theorem neutralizeSheet_eq (sheet : List Char) :
    neutralizeSheet sheet = .ok (neutralize sheet) := by
  rw [neutralizeSheet]
  cases hholds : holds styleEnd (sheet.map Char.toLower) with
  | true => exact cutAll_eq (a := []) (p := []) rfl []
  | false =>
    rw [neutralize_of_holds_eq_false hholds]
    rfl

def document (title body stylesheet : List Char) : Checked (List Char) := do
  return "<!DOCTYPE html>
<html lang=\"en\">
<head>
  <meta charset=\"utf-8\">
  <meta name=\"viewport\" content=\"width=device-width, initial-scale=1\">
  <title>".toList ++ (← escapeText title) ++ "</title>
  <style>".toList ++ (← neutralizeSheet stylesheet) ++ "</style>
</head>
<body>
  <div id=\"root\">".toList ++ body ++ "</div>
</body>
</html>".toList

def preview (body stylesheet : List Char) : Checked (List Char) :=
  document "Preview".toList body stylesheet

def unavailable (label stylesheet : List Char) : Checked (List Char) := do
  let notice := "<div class=\"sf-notice\">
  <h1>Preview unavailable</h1>
  <p><code>".toList ++ (← escapeText label) ++ "</code> has no previewable markup.</p>
  <p>Write the component with a single JSX return at the end of its function, such as <code>return (&lt;div&gt;...&lt;/div&gt;);</code></p>
</div>".toList
  document "Preview unavailable".toList notice stylesheet

def failure (label message stylesheet : List Char) : Checked (List Char) := do
  let notice := "<div class=\"sf-notice sf-error\">
  <h1>Preview failed</h1>
  <p>Could not convert <code>".toList ++ (← escapeText label) ++ "</code>.</p>
  <pre>".toList ++ (← escapeText message) ++ "</pre>
</div>".toList
  document "Preview failed".toList notice stylesheet

theorem document_eq (title body stylesheet : List Char) :
    document title body stylesheet = .ok (Page.document title body stylesheet) := by
  simp only [document, escapeText_eq, neutralizeSheet_eq, ok_bind]
  rfl

theorem preview_eq (body stylesheet : List Char) :
    preview body stylesheet = .ok (Page.preview body stylesheet) :=
  document_eq "Preview".toList body stylesheet

theorem unavailable_eq (label stylesheet : List Char) :
    unavailable label stylesheet = .ok (Page.unavailable label stylesheet) := by
  simp only [unavailable, escapeText_eq, ok_bind, document_eq]
  rfl

theorem failure_eq (label message stylesheet : List Char) :
    failure label message stylesheet = .ok (Page.failure label message stylesheet) := by
  simp only [failure, escapeText_eq, ok_bind, document_eq]
  rfl

end StaticPreview.Place
