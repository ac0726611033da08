import Mathlib.Data.List.TakeWhile
import StaticPreview.Proofs.Markup.Opener
import StaticPreview.Proofs.Place.Group

/-! # Blanks behind a text

Blanks that are put behind a text are left behind the first token of it, and change no token but one
that reaches to the end of the text.
-/
namespace StaticPreview.Text

/-- What a reading gives when `more` stands behind the text and is not looked at. -/
def leave {α : Type} (more : List Char) (reading : Option (α × List Char)) :
    Option (α × List Char) :=
  reading.map fun p => (p.1, p.2 ++ more)

@[simp] theorem leave_none {α : Type} (more : List Char) :
    leave more (none : Option (α × List Char)) = none := rfl

@[simp] theorem leave_some {α : Type} (more rest : List Char) (a : α) :
    leave more (some (a, rest)) = some (a, rest ++ more) := rfl

theorem map_leave {α β : Type} (f : α → β) (more : List Char) (reading : Option (α × List Char)) :
    (leave more reading).map (fun p => (f p.1, p.2)) =
      leave more (reading.map fun p => (f p.1, p.2)) := by
  cases reading <;> rfl

theorem prepend_leave (lead more : List Char) (reading : Option (List Char × List Char)) :
    prepend lead (leave more reading) = leave more (prepend lead reading) :=
  map_leave (lead ++ ·) more reading

theorem cut?_eq_none_of_not_mem {mark : Char} {s : List Char} (h : mark ∉ s) :
    cut? mark s = none := by
  cases hcut : cut? mark s with
  | none => rfl
  | some p =>
    rw [← append_of_cut? hcut] at h
    simp at h

theorem cut?_append_of_not_mem {mark : Char} {more : List Char} (h : mark ∉ more)
    (s : List Char) : cut? mark (s ++ more) = leave more (cut? mark s) := by
  induction s with
  | nil => exact cut?_eq_none_of_not_mem h
  | cons c s ih =>
    rw [List.cons_append, cut?, cut?, ih]
    split
    · rfl
    · exact prepend_leave [c] more (cut? mark s)

theorem after?_append_blanks {gap lead : List Char} (hgap : AllBlank gap)
    (hlead : ∀ c ∈ lead, isBlank c = false) (s : List Char) :
    after? lead (s ++ gap) = (after? lead s).map (· ++ gap) := by
  cases gap with
  | nil => simp
  | cons c gap =>
    apply after?_append_cons
    intro hmem
    have hc := hlead c hmem
    rw [hgap c List.mem_cons_self] at hc
    cases hc

end StaticPreview.Text

namespace StaticPreview.Markup
open Text

theorem closeGroup?_eq_none_of_not_mem {s : List Char} (h : '\x7d' ∉ s) (quote : Option Char)
    (depth : Nat) : closeGroup? quote depth s = none := by
  cases hgroup : closeGroup? quote depth s with
  | none => rfl
  | some p =>
    obtain ⟨happend, -⟩ := append_of_closeGroup? hgroup
    obtain ⟨x, hx⟩ := Place.exists_eq_concat_of_closeGroup? hgroup
    rw [hx] at happend
    rw [← happend] at h
    simp at h

theorem tagBody?_eq_none_of_not_mem {s : List Char} (h : '>' ∉ s) : tagBody? s = none := by
  cases hbody : tagBody? s with
  | none => rfl
  | some p =>
    rw [← append_of_tagBody? hbody] at h
    simp at h

theorem readContent?_eq_none_of_not_mem {s : List Char} (h : '/' ∉ s) (tag : List Char)
    (depth : Nat) : readContent? tag depth s = none := by
  cases hcontent : readContent? tag depth s with
  | none => rfl
  | some p =>
    rw [← append_of_readContent? hcontent] at h
    simp [closingTag] at h

theorem tagBody?_unclosed_quote {mark : Char} (hmark : mark = '"' ∨ mark = '\'') {s : List Char}
    (h : cut? mark s = none) : tagBody? (mark :: s) = none := by
  rw [tagBody?, if_pos hmark]
  split
  next => rfl
  next h' => simp [h] at h'

theorem tagBody?_unclosed_group {s : List Char} (h : group? ('\x7b' :: s) = none) :
    tagBody? ('\x7b' :: s) = none := by
  rw [tagBody?, if_neg (by decide), if_pos rfl]
  split
  next => rfl
  next h' => simp [h] at h'

theorem ne_of_opensTag {tag s : List Char} (h : opensTag tag ('<' :: s)) : s ≠ tag := by
  rintro rfl
  cases s with
  | nil => cases h
  | cons c r =>
    have hafter : after? (c :: r) (c :: r) = some [] := by simp [after?_eq_some_iff]
    rw [opensTag_of_ne_nil (List.cons_ne_nil c r), hafter] at h
    cases h

theorem IsSoughtName.slash_not_mem {tag : List Char} (htag : IsSoughtName tag) : '/' ∉ tag := by
  intro hmem
  exact absurd (htag.isNameChar _ hmem) (by decide)

namespace Token

theorem next?_bracket {r : List Char} (hr : r.head? ≠ some '>') :
    next? ('<' :: r) = some ((element? r).getD (textFrom '<' r)) := by
  cases r with
  | nil => rfl
  | cons c r =>
    have hc : c ≠ '>' := by simpa using hr
    simp [next?, hc]

/-- Whether the first token is the whole text, and takes what stands behind the text as well. -/
def TakesAll (s rest : List Char) (t : Token) (gap : List Char) : Prop :=
  rest = [] ∧
    ((t = text s ∧ next? (s ++ gap) = some (text (s ++ gap), [])) ∨
      ∃ expression, t = container expression ∧
        next? (s ++ gap) = some (container (expression ++ gap), []))

end Token

variable {gap : List Char} (hgap : AllBlank gap)
include hgap

theorem closeGroup?_append_blanks (quote : Option Char) (depth : Nat) (s : List Char) :
    closeGroup? quote depth (s ++ gap) = leave gap (closeGroup? quote depth s) := by
  have hbrace : '\x7d' ∉ gap := not_mem_of_blank hgap (by decide)
  fun_induction closeGroup? quote depth s with
  | case1 quote depth => exact closeGroup?_eq_none_of_not_mem hbrace quote depth
  | case2 depth q =>
    apply closeGroup?_eq_none_of_not_mem
    simpa using hbrace
  | case3 depth q d r ih =>
    have hescape := closeGroup?_literal_escape q d depth (r ++ gap)
    rw [ih, prepend_leave] at hescape
    exact hescape
  | case4 depth c r q hc ih =>
    have hplain : closeGroup? (some q) depth (c :: (r ++ gap)) = _ :=
      closeGroup?_literal_cons hc depth (r ++ gap)
    rw [ih, prepend_leave] at hplain
    exact hplain
  | case5 depth c r hc ih =>
    have hmark := closeGroup?_mark hc depth (r ++ gap)
    rw [ih, prepend_leave] at hmark
    exact hmark
  | case6 depth r _ ih =>
    have hopen := closeGroup?_open depth (r ++ gap)
    rw [ih, prepend_leave] at hopen
    exact hopen
  | case7 depth r hdepth =>
    have hclose := closeGroup?_close depth (r ++ gap)
    rw [if_pos hdepth] at hclose
    exact hclose
  | case8 depth r hdepth _ _ ih =>
    have hclose := closeGroup?_close depth (r ++ gap)
    rw [if_neg hdepth, ih, prepend_leave] at hclose
    exact hclose
  | case9 depth c r hmark hopen hclose ih =>
    have hplain := closeGroup?_plain (Bool.eq_false_iff.mpr hmark) hopen hclose depth (r ++ gap)
    rw [ih, prepend_leave] at hplain
    exact hplain

theorem tagBody?_append_blanks (s : List Char) :
    tagBody? (s ++ gap) = leave gap (tagBody? s) := by
  have hcut {mark : Char} (hmark : mark = '"' ∨ mark = '\'') (r : List Char) :
      cut? mark (r ++ gap) = leave gap (cut? mark r) := by
    apply cut?_append_of_not_mem
    apply not_mem_of_blank hgap
    rcases hmark with rfl | rfl <;> decide
  have hgroup (r : List Char) :
      group? ('\x7b' :: (r ++ gap)) = leave gap (group? ('\x7b' :: r)) :=
    closeGroup?_append_blanks hgap none 0 ('\x7b' :: r)
  fun_induction tagBody? s with
  | case1 => exact tagBody?_eq_none_of_not_mem (not_mem_of_blank hgap (by decide))
  | case2 c r hmark hnone =>
    have hmore := hcut hmark r
    rw [hnone] at hmore
    exact tagBody?_unclosed_quote hmark hmore
  | case3 c r hmark value after hvalue _ ih =>
    have hmore := hcut hmark r
    rw [hvalue, leave_some] at hmore
    rw [List.cons_append, tagBody?_quoted hmark hmore, ih]
    exact map_leave (c :: value ++ c :: ·) gap (tagBody? after)
  | case4 r _ hnone =>
    have hmore := hgroup r
    rw [hnone] at hmore
    exact tagBody?_unclosed_group hmore
  | case5 r group after _ hread _ ih =>
    have hmore := hgroup r
    rw [hread, leave_some] at hmore
    rw [List.cons_append, tagBody?_group hmore, ih]
    exact prepend_leave group gap (tagBody? after)
  | case6 r => exact tagBody?_close (r ++ gap)
  | case7 c r hmark hopen hclose ih =>
    have hplain : isPlain c := by simp_all [isPlain]
    rw [List.cons_append, tagBody?_plain hplain, ih]
    exact prepend_leave [c] gap (tagBody? r)

theorem opensTag_append_blanks {tag s : List Char} (htag : IsSoughtName tag) (hs : s ≠ tag) :
    opensTag tag ('<' :: (s ++ gap)) = opensTag tag ('<' :: s) := by
  rcases htag with rfl | htag
  · obtain ⟨c, r, rfl⟩ := List.exists_cons_of_ne_nil hs
    rfl
  · have hname : ∀ c ∈ tag, isBlank c = false := fun c hc =>
      not_isBlank_of_isNameChar (isNameChar_attribute (htag.isNameChar c hc))
    rw [opensTag_of_ne_nil htag.ne_nil, opensTag_of_ne_nil htag.ne_nil,
      after?_append_blanks hgap hname]
    cases hafter : after? tag s with
    | none => rfl
    | some r =>
      cases r with
      | nil =>
        have hname := after?_eq_some_iff.mp hafter
        rw [List.append_nil] at hname
        exact absurd hname.symm hs
      | cons c r => rfl

theorem after?_closingTag_append_blanks {tag : List Char} (htag : IsSoughtName tag)
    (s : List Char) :
    after? (closingTag tag) (s ++ gap) = (after? (closingTag tag) s).map (· ++ gap) := by
  apply after?_append_blanks hgap
  intro c hc
  simp only [closingTag, List.cons_append, List.mem_cons, List.mem_append, List.not_mem_nil,
    or_false] at hc
  rcases hc with rfl | rfl | hc | rfl
  · decide
  · decide
  · exact not_isBlank_of_isNameChar (isNameChar_attribute (htag.isNameChar c hc))
  · decide

theorem readContent?_append_blanks {tag : List Char} (htag : IsSoughtName tag) (depth : Nat)
    (s : List Char) : readContent? tag depth (s ++ gap) = leave gap (readContent? tag depth s) := by
  have hslash : '/' ∉ gap := not_mem_of_blank hgap (by decide)
  have hclosed {s after : List Char} (h : after? (closingTag tag) s = some after) :
      s ++ gap = closingTag tag ++ (after ++ gap) := by
    rw [← after?_eq_some_iff.mp h, List.append_assoc]
  have hopened {r : List Char} (h : after? (closingTag tag) ('<' :: r) = none) :
      after? (closingTag tag) ('<' :: (r ++ gap)) = none := by
    rw [← List.cons_append, after?_closingTag_append_blanks hgap htag, h]
    rfl
  fun_induction readContent? tag depth s with
  | case1 => exact readContent?_eq_none_of_not_mem hslash tag _
  | case2 r after hclose =>
    rw [hclosed hclose, readContent?_closing, if_pos rfl]
    rfl
  | case3 depth r after hdepth hclose _ ih =>
    rw [hclosed hclose, readContent?_closing, if_neg hdepth, ih]
    exact map_leave (closingTag tag ++ ·) gap (readContent? tag (depth - 1) after)
  | case4 depth r body after hbody _ inner hclose hopen ih =>
    have hmore := tagBody?_append_blanks hgap r
    rw [hbody, leave_some] at hmore
    rw [← opensTag_append_blanks hgap htag (ne_of_opensTag hopen)] at hopen
    rw [List.cons_append, readContent?_opening (hopened hclose) hopen hmore]
    refine Eq.trans (congrArg _ ih) ?_
    exact map_leave ('<' :: body ++ '>' :: ·) gap (readContent? tag inner after)
  | case5 depth r hbody hclose hopen ih =>
    have hmore := tagBody?_append_blanks hgap r
    rw [hbody, leave_none] at hmore
    rw [← opensTag_append_blanks hgap htag (ne_of_opensTag hopen)] at hopen
    rw [List.cons_append, readContent?_bracket,
      Bracket.sighted_unended (hopened hclose) hopen hmore, Bracket.goOn, ih]
    exact map_leave ('<' :: ·) gap (readContent? tag (depth + 1) r)
  | case6 depth r hclose hopen ih =>
    by_cases hr : r = tag
    · -- The blanks make a tag of the text, but no closing tag follows.
      subst hr
      rw [readContent?_eq_none_of_not_mem htag.slash_not_mem]
      apply readContent?_eq_none_of_not_mem
      simp [htag.slash_not_mem, hslash]
    · rw [← opensTag_append_blanks hgap htag hr] at hopen
      have hother := readContent?_other (hopened hclose) (Bool.eq_false_iff.mpr hopen) depth
      rw [List.cons_append, hother, ih]
      exact map_leave ('<' :: ·) gap (readContent? tag depth r)
  | case7 depth c r hc ih =>
    rw [List.cons_append, readContent?_of_ne hc, ih]
    exact map_leave (c :: ·) gap (readContent? tag depth r)

theorem tagName?_append_blanks (s : List Char) : tagName? (s ++ gap) = tagName? s := by
  have hname : ∀ c ∈ gap.head?, isNameChar c = false := by
    intro c hc
    rw [Bool.eq_false_iff]
    intro hnameChar
    have hblank := hgap c (List.mem_of_mem_head? hc)
    rw [not_isBlank_of_isNameChar (isNameChar_attribute hnameChar)] at hblank
    cases hblank
  cases s with
  | nil =>
    cases gap with
    | nil => rfl
    | cons c gap =>
      have hc := hname c rfl
      have halpha : ¬c.isAlpha := fun h => absurd (isNameChar_of_isAlpha h) (by simp [hc])
      exact if_neg halpha
  | cons c r =>
    have htake : (r ++ gap).takeWhile isNameChar = r.takeWhile isNameChar := by
      by_cases hr : r.dropWhile isNameChar = []
      · have hall := List.dropWhile_eq_nil_iff.mp hr
        rw [takeWhile_append_of_head? hall hname, List.takeWhile_eq_self_iff.mpr hall]
      · exact takeWhile_append_of_ne_nil hr gap
    rw [List.cons_append, tagName?, tagName?, htake]

theorem Token.element?_append_blanks (s : List Char) :
    element? (s ++ gap) = leave gap (element? s) := by
  unfold element?
  rw [tagName?_append_blanks hgap, tagBody?_append_blanks hgap]
  cases hname : tagName? s with
  | none => rfl
  | some name =>
    cases hbody : tagBody? s with
    | none => rfl
    | some p =>
      obtain ⟨body, after⟩ := p
      have htag : IsSoughtName name := .inr (isTagName_of_tagName? hname)
      have hcontent := readContent?_append_blanks hgap htag 0 after
      dsimp only [leave_some]
      split
      · rfl
      · rw [content?, hcontent, content?]
        cases readContent? name 0 after <;> rfl

namespace Token

theorem textFrom_append_blanks (c : Char) (s : List Char) :
    textFrom c (s ++ gap) = ((textFrom c s).1, (textFrom c s).2 ++ gap) ∨
      (textFrom c s = (text (c :: s), []) ∧
        textFrom c (s ++ gap) = (text (c :: s ++ gap), [])) := by
  unfold textFrom
  by_cases hs : s.dropWhile (fun d => d != '<' && d != '\x7b') = []
  · right
    have hall := List.dropWhile_eq_nil_iff.mp hs
    have hwhole : ∀ d ∈ s ++ gap, (d != '<' && d != '\x7b') = true := by
      refine List.forall_mem_append.mpr ⟨hall, ?_⟩
      intro d hd
      have hne {e : Char} (he : isBlank e = false) : d ≠ e := ne_of_isBlank (hgap d hd) he
      simp [hne (e := '<') (by decide), hne (e := '\x7b') (by decide)]
    dsimp only
    rw [List.dropWhile_eq_nil_iff.mpr hwhole, List.takeWhile_eq_self_iff.mpr hwhole, hs,
      List.takeWhile_eq_self_iff.mpr hall]
    exact ⟨rfl, rfl⟩
  · left
    dsimp only
    rw [takeWhile_append_of_ne_nil hs, dropWhile_append_of_ne_nil hs]

theorem next?_append_blanks_of_textFrom {c : Char} {r rest : List Char} {t : Token}
    (hmore : next? (c :: (r ++ gap)) = some (textFrom c (r ++ gap)))
    (h : textFrom c r = (t, rest)) :
    next? (c :: r ++ gap) = some (t, rest ++ gap) ∨ TakesAll (c :: r) rest t gap := by
  rcases textFrom_append_blanks hgap c r with hleft | ⟨hwhole, hall⟩
  · left
    rw [List.cons_append, hmore, hleft, h]
  · right
    rw [hwhole] at h
    obtain ⟨rfl, rfl⟩ := Prod.mk.inj h
    exact ⟨rfl, .inl ⟨rfl, by rw [List.cons_append, hmore, hall]; rfl⟩⟩

/-- Blanks behind a text are left behind its first token, or that token takes them. -/
theorem next?_append_blanks {s rest : List Char} {t : Token} (h : next? s = some (t, rest)) :
    next? (s ++ gap) = some (t, rest ++ gap) ∨ TakesAll s rest t gap := by
  unfold next? at h
  split at h
  next => cases h
  next r =>
    left
    have hfragment : IsSoughtName [] := .inl rfl
    have hcontent := readContent?_append_blanks hgap hfragment 0 r
    rw [← content?, ← content?] at hcontent
    rw [List.cons_append, List.cons_append, next?, hcontent]
    cases hread : content? [] r with
    | none =>
      rw [hread] at h
      obtain ⟨rfl, rfl⟩ := Prod.mk.inj (Option.some.inj h)
      rfl
    | some p =>
      rw [hread] at h
      obtain ⟨rfl, rfl⟩ := Prod.mk.inj (Option.some.inj h)
      rfl
  next r hr =>
    have hhead : (r ++ gap).head? ≠ some '>' := by
      cases r with
      | nil =>
        intro hfirst
        exact not_mem_of_blank hgap (by decide) (List.mem_of_mem_head? hfirst)
      | cons c r =>
        intro hfirst
        obtain rfl := Option.some.inj hfirst
        exact hr r rfl
    have hmore := next?_bracket hhead
    rw [element?_append_blanks hgap] at hmore
    cases helement : element? r with
    | none =>
      rw [helement] at h hmore
      exact next?_append_blanks_of_textFrom hgap hmore (Option.some.inj h)
    | some p =>
      rw [helement] at h hmore
      obtain ⟨rfl, rfl⟩ := Prod.mk.inj (Option.some.inj h)
      exact .inl hmore
  next r =>
    have hcut := cut?_append_of_not_mem (not_mem_of_blank hgap (d := '\x7d') (by decide)) r
    cases hread : cut? '\x7d' r with
    | none =>
      rw [hread] at h hcut
      obtain ⟨rfl, rfl⟩ := Prod.mk.inj (Option.some.inj h)
      right
      exact ⟨rfl, .inr ⟨r, rfl, by rw [List.cons_append, next?, hcut]; rfl⟩⟩
    | some p =>
      rw [hread] at h hcut
      obtain ⟨rfl, rfl⟩ := Prod.mk.inj (Option.some.inj h)
      left
      rw [List.cons_append, next?, hcut]
      rfl
  next c r hfragment hopen hbrace =>
    have hmore : next? (c :: (r ++ gap)) = some (textFrom c (r ++ gap)) := by
      unfold next?
      split <;> simp_all
    exact next?_append_blanks_of_textFrom hgap hmore (Option.some.inj h)

end Token

end StaticPreview.Markup
