import StaticPreview.Markup.Style
import StaticPreview.Proofs.Text.Characters
import StaticPreview.Proofs.Text.Runs
import StaticPreview.Proofs.Text.Trim

/-! # Where declarations are found

A declaration begins with a label, which is a key and its colon, and goes on with a literal. The
search takes the first place where one begins and goes on behind the literal, so what it finds in a
text depends on which places in the text begin a declaration.
-/
namespace StaticPreview.Markup
open Text

def IsKey : List Char → Prop
  | [] => False
  | c :: r => Declaration.isKeyStart c ∧ ∀ d ∈ r, Declaration.isKeyChar d

instance : DecidablePred IsKey
  | [] => .isFalse id
  | _ :: _ => inferInstanceAs (Decidable (_ ∧ _))

def IsMark (c : Char) : Prop :=
  c = '\'' ∨ c = '"'

instance : DecidablePred IsMark := fun _ => inferInstanceAs (Decidable (_ ∨ _))

structure Label where
  key : List Char
  before : List Char
  behind : List Char

namespace Label

def written (l : Label) : List Char :=
  l.key ++ l.before ++ ':' :: l.behind

structure WellFormed (l : Label) : Prop where
  key : IsKey l.key
  before : AllBlank l.before
  behind : AllBlank l.behind

instance : DecidablePred WellFormed := fun l =>
  decidable_of_iff (IsKey l.key ∧ AllBlank l.before ∧ AllBlank l.behind)
    ⟨fun ⟨hkey, hbefore, hbehind⟩ => ⟨hkey, hbefore, hbehind⟩,
      fun h => ⟨h.key, h.before, h.behind⟩⟩

end Label

namespace Declaration

theorem isKeyChar_of_isKeyStart {c : Char} (h : isKeyStart c) : isKeyChar c := by
  simp only [isKeyStart, Bool.or_eq_true, beq_iff_eq] at h
  rcases h with (h | rfl) | rfl
  · simp [isKeyChar, isWord_of_isAlpha h]
  · decide
  · decide

theorem not_isKeyChar_of_isBlank {c : Char} (h : isBlank c) : isKeyChar c = false := by
  have hdollar : c ≠ '$' := by
    rintro rfl
    exact absurd h (by decide)
  simp [isKeyChar, not_isWord_of_isBlank h, hdollar]

theorem not_isKeyStart_of_isBlank {c : Char} (h : isBlank c) : isKeyStart c = false := by
  rw [Bool.eq_false_iff]
  intro hstart
  have hchar := isKeyChar_of_isKeyStart hstart
  rw [not_isKeyChar_of_isBlank h] at hchar
  cases hchar

theorem isKeyChar_of_mem {key : List Char} (h : IsKey key) : ∀ c ∈ key, isKeyChar c := by
  cases key with
  | nil => exact h.elim
  | cons c r => exact List.forall_mem_cons.mpr ⟨isKeyChar_of_isKeyStart h.1, h.2⟩

/-- A character of a label belongs to the key, is blank or is the colon. -/
theorem mem_label {l : Label} (h : l.WellFormed) {c : Char} (hc : c ∈ l.written) :
    isKeyChar c ∨ isBlank c ∨ c = ':' := by
  rw [Label.written, List.append_assoc] at hc
  rcases List.mem_append.mp hc with hc | hc
  · exact .inl (isKeyChar_of_mem h.key c hc)
  · rcases List.mem_append.mp hc with hc | hc
    · exact .inr (.inl (h.before c hc))
    · rcases List.mem_cons.mp hc with hc | hc
      · exact .inr (.inr hc)
      · exact .inr (.inl (h.behind c hc))

theorem not_isMark_of_mem_label {l : Label} (h : l.WellFormed) {c : Char} (hc : c ∈ l.written) :
    ¬IsMark c := by
  have hcases := mem_label h hc
  rintro (rfl | rfl) <;> exact absurd hcases (by decide)

/-- A literal is found where a colon and a text between two marks of one kind stand, with any blanks
around the colon. -/
theorem literal?_eq_some_iff {s value after : List Char} :
    literal? s = some (value, after) ↔ ∃ before behind mark, AllBlank before ∧ AllBlank behind ∧
      IsMark mark ∧ mark ∉ value ∧
        s = before ++ ':' :: behind ++ mark :: (value ++ mark :: after) := by
  constructor
  · intro h
    unfold literal? at h
    split at h
    next r hr =>
      split at h
      next c r' hr' =>
        split at h
        next hmark =>
          obtain ⟨hvalue, rfl⟩ := cut?_eq_some_iff.mp h
          obtain ⟨before, hbefore, hs⟩ := exists_gap s
          obtain ⟨behind, hbehind, hrest⟩ := exists_gap r
          refine ⟨before, behind, c, hbefore, hbehind, hmark, hvalue, ?_⟩
          rw [hs, hr, hrest, hr']
          simp
        next => cases h
      next => cases h
    next => cases h
  · rintro ⟨before, behind, mark, hbefore, hbehind, hmark, hvalue, rfl⟩
    have hcolon : skipBlank (before ++ ':' :: behind ++ mark :: (value ++ mark :: after)) =
        ':' :: (behind ++ mark :: (value ++ mark :: after)) := by
      rw [List.append_assoc, List.cons_append, skipBlank_append_cons hbefore (by decide)]
    have hblank : isBlank mark = false := by rcases hmark with rfl | rfl <;> decide
    have hliteral := skipBlank_append_cons hbehind hblank (value ++ mark :: after)
    have hcut : cut? mark (value ++ mark :: after) = some (value, after) :=
      cut?_eq_some_iff.mpr ⟨hvalue, rfl⟩
    simp only [literal?, hcolon, hliteral]
    exact (if_pos hmark).trans hcut

/-- The declaration that a text begins with, and what follows its literal. -/
def declaration? : List Char → Option (Declaration × List Char)
  | [] => none
  | c :: r =>
    if isKeyStart c then
      (literal? (r.dropWhile isKeyChar)).map fun p =>
        (⟨propertyOf (c :: r.takeWhile isKeyChar), p.1⟩, p.2)
    else none

/-- A declaration is found where a label and a literal stand. -/
theorem declaration?_eq_some_iff {s after : List Char} {d : Declaration} :
    declaration? s = some (d, after) ↔ ∃ l mark, Label.WellFormed l ∧ IsMark mark ∧
      mark ∉ d.value ∧ d.property = propertyOf l.key ∧
      s = l.written ++ mark :: (d.value ++ mark :: after) := by
  constructor
  · intro h
    cases s with
    | nil => cases h
    | cons c r =>
      rw [declaration?] at h
      split at h
      next hc =>
        obtain ⟨⟨value, after'⟩, hliteral, hp⟩ := Option.map_eq_some_iff.mp h
        obtain ⟨rfl, rfl⟩ := Prod.mk.inj hp
        obtain ⟨before, behind, mark, hbefore, hbehind, hmark, hvalue, hr⟩ :=
          literal?_eq_some_iff.mp hliteral
        have hkey : IsKey (c :: r.takeWhile isKeyChar) :=
          ⟨hc, List.all_eq_true.mp List.all_takeWhile⟩
        refine ⟨⟨c :: r.takeWhile isKeyChar, before, behind⟩, mark, ⟨hkey, hbefore, hbehind⟩, hmark,
          hvalue, rfl, ?_⟩
        calc c :: r = c :: (r.takeWhile isKeyChar ++ r.dropWhile isKeyChar) := by
              rw [List.takeWhile_append_dropWhile]
          _ = _ := by rw [hr]; simp [Label.written]
      next => cases h
  · rintro ⟨⟨key, before, behind⟩, mark, ⟨hkey, hbefore, hbehind⟩, hmark, hvalue, hproperty, rfl⟩
    cases key with
    | nil => exact hkey.elim
    | cons c r =>
      obtain ⟨property, value⟩ := d
      obtain ⟨hc, hr⟩ := hkey
      have hend : ∀ e ∈ (before ++ ':' :: behind ++ mark :: (value ++ mark :: after)).head?,
          isKeyChar e = false := by
        cases before with
        | nil => simpa using (by decide : isKeyChar ':' = false)
        | cons e before =>
          rintro _ ⟨rfl⟩
          exact not_isKeyChar_of_isBlank (hbefore e List.mem_cons_self)
      have hliteral :
          literal? (before ++ ':' :: behind ++ mark :: (value ++ mark :: after)) =
            some (value, after) :=
        literal?_eq_some_iff.mpr ⟨before, behind, mark, hbefore, hbehind, hmark, hvalue, rfl⟩
      have hwritten : Label.written ⟨c :: r, before, behind⟩ ++ mark :: (value ++ mark :: after) =
          c :: (r ++ (before ++ ':' :: behind ++ mark :: (value ++ mark :: after))) := by
        simp [Label.written]
      rw [hwritten, declaration?, if_pos hc, takeWhile_append_of_head? hr hend,
        dropWhile_append_of_head? hr hend, hliteral, Option.map_some, ← hproperty]

theorem declaration?_cons_of_not_isKeyStart {c : Char} (h : isKeyStart c = false) (r : List Char) :
    declaration? (c :: r) = none := by
  rw [declaration?, if_neg (by simp [h])]

theorem length_of_declaration? {s after : List Char} {d : Declaration}
    (h : declaration? s = some (d, after)) : after.length < s.length := by
  obtain ⟨l, mark, -, -, -, -, rfl⟩ := declaration?_eq_some_iff.mp h
  simp only [List.length_append, List.length_cons]
  omega

/-- The declarations in a text, each with the text from its key on. -/
def sites (s : List Char) : List (List Char × Declaration) :=
  match s with
  | [] => []
  | c :: r =>
    match h : declaration? (c :: r) with
    | some (d, after) =>
      have := length_of_declaration? h
      (c :: r, d) :: sites after
    | none => sites r
termination_by s.length
decreasing_by all_goals simp only [List.length_cons] at *; omega

theorem sites_nil : sites [] = [] := by
  rw [sites]

theorem sites_of_declaration? {s after : List Char} {d : Declaration}
    (h : declaration? s = some (d, after)) : sites s = (s, d) :: sites after := by
  cases s with
  | nil => cases h
  | cons c r =>
    rw [sites]
    split
    next d' after' h' =>
      obtain ⟨rfl, rfl⟩ := Prod.mk.inj (Option.some.inj (h'.symm.trans h))
      rfl
    next h' => simp [h] at h'

theorem sites_cons_of_none {c : Char} {r : List Char} (h : declaration? (c :: r) = none) :
    sites (c :: r) = sites r := by
  rw [sites]
  split
  next h' => simp [h] at h'
  next => rfl

/-- What is parsed is what is found. -/
theorem parse_eq (s : List Char) : parse s = (sites s).map Prod.snd := by
  fun_induction parse s with
  | case1 => rw [sites_nil, List.map_nil]
  | case2 c r hc value after hliteral _ ih =>
    have hbegins : declaration? (c :: r) =
        some (⟨propertyOf (c :: r.takeWhile isKeyChar), value⟩, after) := by
      rw [declaration?, if_pos hc, hliteral, Option.map_some]
    rw [sites_of_declaration? hbegins, List.map_cons, ih]
  | case3 c r hc hliteral ih =>
    have hbegins : declaration? (c :: r) = none := by
      rw [declaration?, if_pos hc, hliteral, Option.map_none]
    rw [sites_cons_of_none hbegins, ih]
  | case4 c r hc ih =>
    rw [sites_cons_of_none (declaration?_cons_of_not_isKeyStart (by simpa using hc) r), ih]

theorem isSuffix_of_mem_sites {s : List Char} {p : List Char × Declaration} (hp : p ∈ sites s) :
    p.1 <:+ s := by
  fun_induction sites s with
  | case1 => cases hp
  | case2 c r d after hbegins _ ih =>
    rcases List.mem_cons.mp hp with rfl | hp
    · exact List.suffix_refl _
    · obtain ⟨l, mark, -, -, -, -, hwritten⟩ := declaration?_eq_some_iff.mp hbegins
      refine (ih hp).trans ⟨l.written ++ mark :: (d.value ++ [mark]), ?_⟩
      rw [hwritten]
      simp
  | case3 c r _ ih => exact (ih hp).trans (List.suffix_cons c r)

theorem sites_append_of_not_isKeyStart {run : List Char} (h : ∀ c ∈ run, isKeyStart c = false)
    (s : List Char) : sites (run ++ s) = sites s := by
  induction run with
  | nil => rfl
  | cons c r ih =>
    obtain ⟨hc, hr⟩ := List.forall_mem_cons.mp h
    rw [List.cons_append, sites_cons_of_none (declaration?_cons_of_not_isKeyStart hc _), ih hr]

theorem sites_blanks_append {gap : List Char} (h : AllBlank gap) (s : List Char) :
    sites (gap ++ s) = sites s :=
  sites_append_of_not_isKeyStart (fun c hc => not_isKeyStart_of_isBlank (h c hc)) s

/-- A declaration ends in its mark, so blanks behind a text begin and end none. -/
theorem declaration?_append_of_blank {gap : List Char} (hgap : AllBlank gap) (s : List Char) :
    declaration? (s ++ gap) = (declaration? s).map fun p => (p.1, p.2 ++ gap) := by
  have hmark {mark : Char} (hmark : IsMark mark) : mark ∉ gap :=
    not_mem_of_blank hgap (by rcases hmark with rfl | rfl <;> decide)
  cases hbegins : declaration? s with
  | some p =>
    obtain ⟨d, after⟩ := p
    obtain ⟨l, mark, hl, hmark, hvalue, hproperty, rfl⟩ := declaration?_eq_some_iff.mp hbegins
    exact declaration?_eq_some_iff.mpr ⟨l, mark, hl, hmark, hvalue, hproperty, by simp⟩
  | none =>
    rw [Option.map_none, Option.eq_none_iff_forall_ne_some]
    -- The mark that ends the literal is not among the blanks, so the text has it already.
    rintro ⟨d, after⟩ hlonger
    obtain ⟨l, mark, hl, hm, hvalue, hproperty, hwritten⟩ := declaration?_eq_some_iff.mp hlonger
    rw [← List.cons_append, ← List.append_assoc] at hwritten
    obtain ⟨u, rfl, -⟩ := exists_of_append_eq_append_cons (hmark hm) hwritten
    have hshort : declaration? (l.written ++ mark :: d.value ++ mark :: u) = some (d, u) :=
      declaration?_eq_some_iff.mpr ⟨l, mark, hl, hm, hvalue, hproperty, by simp⟩
    rw [hbegins] at hshort
    cases hshort

theorem parse_append_of_blank {gap : List Char} (hgap : AllBlank gap) (s : List Char) :
    parse (s ++ gap) = parse s := by
  rw [parse_eq, parse_eq]
  fun_induction sites s with
  | case1 =>
    have hnone := sites_blanks_append hgap []
    rw [List.append_nil, sites_nil] at hnone
    rw [List.nil_append, hnone]
  | case2 c r d after hbegins _ ih =>
    have hlonger := declaration?_append_of_blank hgap (c :: r)
    rw [hbegins, Option.map_some] at hlonger
    rw [sites_of_declaration? hlonger, List.map_cons, List.map_cons, ih]
  | case3 c r hnone ih =>
    have hlonger := declaration?_append_of_blank hgap (c :: r)
    rw [hnone, Option.map_none, List.cons_append] at hlonger
    rw [List.cons_append, sites_cons_of_none hlonger, ih]

theorem parse_trim (s : List Char) : parse (trim s) = parse s := by
  obtain ⟨gap, behind, hgap, hbehind, hs⟩ := exists_gaps_trim s
  calc parse (trim s) = parse (trim s ++ behind) := (parse_append_of_blank hbehind _).symm
    _ = parse (gap ++ (trim s ++ behind)) := by rw [parse_eq, parse_eq, sites_blanks_append hgap]
    _ = parse s := congrArg parse hs.symm

/-- The search goes on behind the literal of a declaration. -/
theorem sites_literal_append {l : Label} (hl : l.WellFormed) {mark : Char} (hmark : IsMark mark)
    {value : List Char} (hvalue : mark ∉ value) (s : List Char) :
    sites (l.written ++ mark :: (value ++ mark :: s)) =
      (l.written ++ mark :: (value ++ mark :: s), ⟨propertyOf l.key, value⟩) :: sites s :=
  sites_of_declaration? (declaration?_eq_some_iff.mpr ⟨l, mark, hl, hmark, hvalue, rfl, rfl⟩)

/-- Whether a text with `rest` behind it begins with a declaration. The literal may end in `rest`,
but not begin there. -/
def Opens (rest s : List Char) : Prop :=
  ∃ l mark inner, Label.WellFormed l ∧ IsMark mark ∧ s = l.written ++ mark :: inner ∧
    mark ∈ inner ++ rest

/-- Whether a declaration begins anywhere in a text with `rest` behind it. -/
def Announces (rest s : List Char) : Prop :=
  ∃ lead more, s = lead ++ more ∧ Opens rest more

def EndsValue (rest : List Char) : Prop :=
  ∃ gap c more, AllBlank gap ∧ (c = ',' ∨ c = '\x7d') ∧ rest = gap ++ c :: more

/-- What ends a value ends a label as well. -/
theorem not_endsValue {run more : List Char} {mark : Char} (hmark : IsMark mark)
    (hrun : ∀ c ∈ run, isKeyChar c ∨ isBlank c ∨ c = ':') : ¬EndsValue (run ++ mark :: more) := by
  rintro ⟨gap, c, rest, hgap, hc, heq⟩
  have hne : c ≠ mark := by
    rcases hc with rfl | rfl <;> rcases hmark with rfl | rfl <;> decide
  have hblank : isBlank mark = false := by rcases hmark with rfl | rfl <;> decide
  have hmem : c ∉ run := by
    intro hmem
    have hcases := hrun c hmem
    rcases hc with rfl | rfl <;> exact absurd hcases (by decide)
  rcases List.append_eq_append_iff.mp heq with ⟨u, rfl, hu⟩ | ⟨u, rfl, hu⟩
  · cases u with
    | nil => exact hne (List.cons.inj hu).1.symm
    | cons d u =>
      obtain ⟨rfl, -⟩ := List.cons.inj hu
      have hd := hgap mark (by simp)
      rw [hblank] at hd
      cases hd
  · cases u with
    | nil => exact hne (List.cons.inj hu).1
    | cons d u =>
      obtain ⟨rfl, -⟩ := List.cons.inj hu
      exact hmem (by simp)

/-- No declaration goes on over the end of a value, unless in its literal. -/
theorem isSome_declaration?_append_iff {rest : List Char} (hrest : EndsValue rest)
    (s : List Char) : (declaration? (s ++ rest)).isSome ↔ Opens rest s := by
  constructor
  · intro h
    obtain ⟨⟨d, after⟩, hbegins⟩ := Option.isSome_iff_exists.mp h
    obtain ⟨l, mark, hl, hmark, -, -, hwritten⟩ := declaration?_eq_some_iff.mp hbegins
    -- The mark that begins the literal stands in `rest` with a part of the label before it, or in
    -- the text.
    rcases List.append_eq_append_iff.mp hwritten with ⟨u, hu, hv⟩ | ⟨u, rfl, hv⟩
    · have hrun : ∀ c ∈ u, isKeyChar c ∨ isBlank c ∨ c = ':' :=
        fun c hc => mem_label hl (by simp [hu, hc])
      rw [hv] at hrest
      exact absurd hrest (not_endsValue hmark hrun)
    · cases u with
      | nil =>
        have hmarked : rest = mark :: (d.value ++ mark :: after) := hv.symm
        rw [hmarked] at hrest
        exact absurd hrest (@not_endsValue [] _ _ hmark (by simp))
      | cons e u =>
        obtain ⟨rfl, hinner⟩ := List.cons.inj hv
        have hclosed : mark ∈ d.value ++ mark :: after := by simp
        refine ⟨l, mark, u, hl, hmark, rfl, ?_⟩
        rwa [hinner] at hclosed
  · rintro ⟨l, mark, inner, hl, hmark, rfl, hclosed⟩
    obtain ⟨value, after, hinner, hvalue⟩ := List.eq_append_cons_of_mem hclosed
    refine Option.isSome_iff_exists.mpr ⟨(⟨propertyOf l.key, value⟩, after), ?_⟩
    refine declaration?_eq_some_iff.mpr ⟨l, mark, hl, hmark, hvalue, rfl, ?_⟩
    rw [List.append_assoc, List.cons_append, hinner]

theorem not_announces_nil (rest : List Char) : ¬Announces rest [] := by
  rintro ⟨lead, more, hnil, l, mark, inner, -, -, rfl, -⟩
  simp at hnil

/-- A declaration that begins anywhere in a text begins right there or behind the first
character. -/
theorem announces_cons_iff {rest s : List Char} {c : Char} :
    Announces rest (c :: s) ↔ Opens rest (c :: s) ∨ Announces rest s := by
  constructor
  · rintro ⟨lead, more, heq, hopens⟩
    cases lead with
    | nil =>
      rw [List.nil_append] at heq
      rw [heq]
      exact .inl hopens
    | cons d lead => exact .inr ⟨lead, more, (List.cons.inj heq).2, hopens⟩
  · rintro (hopens | ⟨lead, more, rfl, hopens⟩)
    · exact ⟨[], c :: s, rfl, hopens⟩
    · exact ⟨c :: lead, more, rfl, hopens⟩

theorem not_announces_of_not_isMark {rest s : List Char} (h : ∀ c ∈ s, ¬IsMark c) :
    ¬Announces rest s := by
  rintro ⟨lead, more, rfl, l, mark, inner, -, hmark, rfl, -⟩
  exact h mark (by simp) hmark

section
variable {rest s : List Char} (hrest : EndsValue rest)
include hrest

theorem sites_append_of_not_announces (h : ¬Announces rest s) : sites (s ++ rest) = sites rest := by
  induction s with
  | nil => rfl
  | cons c s ih =>
    obtain ⟨hopens, hmore⟩ := not_or.mp (mt announces_cons_iff.mpr h)
    have hnone : declaration? (c :: (s ++ rest)) = none := by
      rw [← Option.not_isSome_iff_eq_none, ← List.cons_append,
        isSome_declaration?_append_iff hrest]
      exact hopens
    rw [List.cons_append, sites_cons_of_none hnone, ih hmore]

/-- Where a declaration begins in a text, one is found that begins in it. -/
theorem exists_mem_sites_of_announces (h : Announces rest s) :
    ∃ p ∈ sites (s ++ rest), rest.length < p.1.length := by
  induction s with
  | nil => exact absurd h (not_announces_nil rest)
  | cons c s ih =>
    rw [List.cons_append]
    cases hbegins : declaration? (c :: (s ++ rest)) with
    | some q =>
      obtain ⟨d, after⟩ := q
      rw [sites_of_declaration? hbegins]
      refine ⟨_, List.mem_cons_self, ?_⟩
      simp only [List.length_append, List.length_cons]
      omega
    | none =>
      have hopens : ¬Opens rest (c :: s) := by
        rw [← isSome_declaration?_append_iff hrest, List.cons_append, hbegins]
        exact Bool.false_ne_true
      rw [sites_cons_of_none hbegins]
      exact ih ((announces_cons_iff.mp h).resolve_left hopens)

end

end Declaration
end StaticPreview.Markup
