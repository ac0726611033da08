import StaticPreview.Proofs.Component.Returns

/-! # Early returns

A block with a return of its own closes before the last return. The operand of the early return
does not end with its own parenthesis: it ends with the last one of the file, wherever that stands.
-/
namespace StaticPreview.Component
open Text

def EndsIn (c : Char) (s : List Char) : Prop :=
  ∃ a gap, s = a ++ c :: gap ∧ AllBlank gap

def IsAngled (s : List Char) : Prop :=
  ∃ gap inner gap', s = gap ++ '<' :: (inner ++ '>' :: gap') ∧ AllBlank gap ∧ AllBlank gap'

/-- The last return of a file, the expression that it returns, and the brace behind it. -/
def finalReturn (E : List Char) : List Char :=
  "return".toList ++ ' ' :: (E ++ "; \x7d".toList)

theorem finalReturn_eq (E : List Char) :
    finalReturn E = "return".toList ++ ' ' :: (E ++ "; \x7d".toList) := rfl

/-- A file in which an early return in parentheses comes before the last return. -/
def earlyReturn (P F Q E : List Char) : List Char :=
  P ++ returnOf .parens F ("; \x7d".toList ++ (Q ++ finalReturn E))

theorem HasNoReturn.append {s t : List Char} {c : Char} (hc : isWord c = false)
    (hs : HasNoReturn s) (ht : HasNoReturn t) : HasNoReturn (s ++ c :: t) := by
  rw [hasNoReturn_iff] at hs ht ⊢
  rw [afterReturns_append hc, hs, ht]
  rfl

theorem hasReturn_finalReturn_iff {Q E rest : List Char} (hQ : HasNoReturn Q) (hE : HasNoReturn E) :
    HasReturn (Q ++ finalReturn E) rest ↔
      EndsOffWord Q ∧ rest = ' ' :: (E ++ "; \x7d".toList) := by
  have hend : HasNoReturn (E ++ "; \x7d".toList) := hE.append (by decide) (by decide)
  by_cases hQ' : EndsOffWord Q
  · rw [← mem_afterReturns_none_iff, finalReturn_eq, afterReturns_return hQ' (by decide),
      hasNoReturn_iff.mp hQ, hasNoReturn_iff.mp hend]
    simp [hQ']
  · have hword : HasNoReturn (Q ++ "return".toList) := by
      intro rest' hrest'
      rcases hasReturn_append_return hrest' with ⟨h, -⟩ | ⟨rest', h⟩
      · exact hQ' h
      · exact hQ rest' h
    have hnone : HasNoReturn (Q ++ "return".toList ++ ' ' :: (E ++ "; \x7d".toList)) :=
      hword.append (by decide) hend
    rw [finalReturn_eq, ← List.append_assoc]
    exact ⟨fun h => absurd h (hnone rest), fun h => absurd h.1 hQ'⟩

/-- Such a file has two returns and no other word `return`. -/
theorem hasReturn_earlyReturn_iff {P F Q E rest : List Char} (hP : EndsOffWord P)
    (hP' : HasNoReturn P) (hF : HasNoReturn F) (hQ : HasNoReturn Q) (hE : HasNoReturn E) :
    HasReturn (earlyReturn P F Q E) rest ↔
      rest = ' ' :: '(' :: (F ++ ')' :: ("; \x7d".toList ++ (Q ++ finalReturn E))) ∨
        (EndsOffWord Q ∧ rest = ' ' :: (E ++ "; \x7d".toList)) := by
  have hblock : afterReturns none ("; \x7d".toList ++ (Q ++ finalReturn E)) =
      afterReturns none (Q ++ finalReturn E) := by
    change afterReturns none (';' :: ' ' :: '\x7d' :: (Q ++ finalReturn E)) = _
    rw [afterReturns_cons (by decide), afterReturns_cons (by decide), afterReturns_cons (by decide)]
  rw [← hasReturn_finalReturn_iff hQ hE, ← mem_afterReturns_none_iff, ← mem_afterReturns_none_iff,
    earlyReturn, afterReturns_returnOf hP, hasNoReturn_iff.mp hP', hasNoReturn_iff.mp hF, hblock]
  simp [Marks.opening, Marks.closing]

theorem append_eq_append_closing {m : Marks} {s x t : List Char} (ht : Closing t)
    (h : s ++ "; \x7d".toList = x ++ m.closing :: t) :
    ∃ gap, s = x ++ m.closing :: gap ∧ AllBlank gap := by
  have hmark : m.closing ∉ "; \x7d".toList := by cases m <;> decide
  obtain ⟨gap, rfl, rfl⟩ := exists_of_append_eq_append_cons hmark h
  exact ⟨gap, rfl, closing_append_iff.mp ht⟩

/-- The final expression stands behind a word that does not end in a parenthesis. -/
theorem early_eq (F Q E : List Char) : ∃ V,
    F ++ ')' :: ("; \x7d".toList ++ (Q ++ finalReturn E)) =
      V ++ 'n' :: ' ' :: E ++ "; \x7d".toList :=
  ⟨F ++ ')' :: ("; \x7d".toList ++ (Q ++ "retur".toList)), by simp [finalReturn_eq]⟩

/-- A parenthesis with nothing but blanks behind it stands behind the last word `return`. -/
theorem endsIn_of_append_eq {V E inner gap : List Char} (hgap : AllBlank gap)
    (h : V ++ 'n' :: ' ' :: E = inner ++ ')' :: gap) : EndsIn ')' E := by
  have h : (V ++ 'n' :: [' ']) ++ E = inner ++ ')' :: gap := by simpa using h
  rcases List.append_eq_append_iff.mp h with ⟨u, -, hu⟩ | ⟨u, hu, hgap'⟩
  · exact ⟨u, gap, hu, hgap⟩
  · cases u with
    | nil => exact ⟨[], gap, hgap'.symm, hgap⟩
    | cons c u =>
      obtain ⟨rfl, rfl⟩ := List.cons.inj hgap'
      rcases append_cons_eq_append_cons hu with hmem | hmem | ⟨-, hmark, -⟩
      · exact absurd (hgap 'n' (List.mem_append_left E hmem)) (by decide)
      · exact absurd hmem (by decide)
      · exact absurd hmark (by decide)

theorem isSome_operand?_early_iff {F Q E : List Char} :
    (operand? (' ' :: '(' :: (F ++ ')' :: ("; \x7d".toList ++ (Q ++ finalReturn E))))).isSome ↔
      EndsIn ')' E := by
  obtain ⟨V, hV⟩ := early_eq F Q E
  rw [hV, isSome_operand?_iff]
  constructor
  · rintro ⟨m, inner, hoperand⟩
    obtain ⟨t, hskip, ht⟩ := operand_iff_skipBlank.mp hoperand
    obtain ⟨hopen, hplace⟩ := List.cons.inj hskip
    obtain rfl : Marks.parens = m := Marks.opening_injective hopen
    obtain ⟨gap, hE, hgap⟩ := append_eq_append_closing ht hplace
    exact endsIn_of_append_eq hgap hE
  · rintro ⟨a, gap, rfl, hgap⟩
    exact ⟨.parens, V ++ 'n' :: ' ' :: a, [' '], gap ++ "; \x7d".toList,
      by simp [Marks.opening, Marks.closing], by simp [AllBlank, isBlank],
      closing_append_iff.mpr hgap⟩

theorem endsIn_or_isAngled_of_operand? {E : List Char}
    (h : (operand? (' ' :: (E ++ "; \x7d".toList))).isSome) : EndsIn ')' E ∨ IsAngled E := by
  obtain ⟨m, inner, gap, t, heq, hgap, ht⟩ := isSome_operand?_iff.mp h
  have hplace : ' ' :: E ++ "; \x7d".toList = (gap ++ m.opening :: inner) ++ m.closing :: t := by
    simpa using heq
  obtain ⟨gap', hE, hgap'⟩ := append_eq_append_closing ht hplace
  cases gap with
  | nil => cases m <;> exact absurd (List.cons.inj hE).1 (by decide)
  | cons c gap =>
    have hE' : E = gap ++ m.opening :: inner ++ m.closing :: gap' := (List.cons.inj hE).2
    cases m with
    | parens => exact .inl ⟨gap ++ '(' :: inner, gap', hE', hgap'⟩
    | angles =>
      have hblank : AllBlank gap := fun d hd => hgap d (List.mem_cons_of_mem c hd)
      have hangles : E = gap ++ '<' :: (inner ++ '>' :: gap') := by
        simpa [Marks.opening, Marks.closing] using hE'
      exact .inr ⟨gap, inner, gap', hangles, hblank, hgap'⟩

theorem isSome_operand?_of_isAngled {E : List Char} (h : IsAngled E) :
    (operand? (' ' :: (E ++ "; \x7d".toList))).isSome := by
  obtain ⟨gap, inner, gap', rfl, hgap, hgap'⟩ := h
  have hblank : AllBlank (' ' :: gap) := List.forall_mem_cons.mpr ⟨rfl, hgap⟩
  exact isSome_operand?_iff.mpr ⟨.angles, inner, ' ' :: gap, gap' ++ "; \x7d".toList,
    by simp [Marks.opening, Marks.closing], hblank, closing_append_iff.mpr hgap'⟩

/-- Something is found where the last return ends with a parenthesis, which then belongs to the
operand of the early one, or where it returns a tag without parentheses. -/
theorem isSome_markup?_earlyReturn_iff {P F Q E : List Char} (hP : EndsOffWord P)
    (hP' : HasNoReturn P) (hF : HasNoReturn F) (hQ : HasNoReturn Q) (hE : HasNoReturn E) :
    (markup? (earlyReturn P F Q E)).isSome ↔ EndsIn ')' E ∨ (EndsOffWord Q ∧ IsAngled E) := by
  rw [isSome_markup?_iff]
  simp only [hasReturn_earlyReturn_iff hP hP' hF hQ hE]
  constructor
  · rintro ⟨rest, rfl | ⟨hQ', rfl⟩, hrest⟩
    · exact .inl (isSome_operand?_early_iff.mp hrest)
    · rcases endsIn_or_isAngled_of_operand? hrest with h | h
      · exact .inl h
      · exact .inr ⟨hQ', h⟩
  · rintro (h | ⟨hQ', h⟩)
    · exact ⟨_, .inl rfl, isSome_operand?_early_iff.mpr h⟩
    · exact ⟨_, .inr ⟨hQ', rfl⟩, isSome_operand?_of_isAngled h⟩

def guarded : List Char :=
  "function App() \x7b if (!ready) \x7b ".toList

theorem markup?_guarded_name :
    EndsOffWord guarded ∧ HasNoReturn guarded ∧ HasNoReturn "<p>Loading</p>".toList ∧
      HasNoReturn " ".toList ∧ HasNoReturn "ready".toList ∧
      markup? (earlyReturn guarded "<p>Loading</p>".toList " ".toList "ready".toList) = none := by
  have hP : EndsOffWord guarded := by decide
  have hP' : HasNoReturn guarded := by decide
  have hF : HasNoReturn "<p>Loading</p>".toList := by decide
  have hQ : HasNoReturn " ".toList := by decide
  have hE : HasNoReturn "ready".toList := by decide
  refine ⟨hP, hP', hF, hQ, hE, Option.not_isSome_iff_eq_none.mp fun hsome => ?_⟩
  rcases (isSome_markup?_earlyReturn_iff hP hP' hF hQ hE).mp hsome with
    ⟨a, gap, h, -⟩ | ⟨-, gap, inner, gap', h, -⟩
  · have hmem : ')' ∈ "ready".toList := h ▸ List.mem_append_right a List.mem_cons_self
    exact absurd hmem (by decide)
  · have hmem : '<' ∈ "ready".toList := h ▸ List.mem_append_right gap List.mem_cons_self
    exact absurd hmem (by decide)

/-- A call in the last return lends its parenthesis to the early one, and the markup runs on up to
there. -/
theorem markup?_guarded_call :
    EndsOffWord guarded ∧ HasNoReturn guarded ∧ HasNoReturn "<p>Loading</p>".toList ∧
      bracketsMatch [] "<p>Loading</p>".toList ∧ HasNoReturn " ".toList ∧
      HasNoReturn "render(data)".toList ∧ "render(data)".toList.head? ∉ [some '(', some '<'] ∧
      markup? (earlyReturn guarded "<p>Loading</p>".toList " ".toList "render(data)".toList) =
        some "<p>Loading</p>); \x7d return render(data".toList := by
  refine ⟨by decide, by decide, by decide, by decide, by decide, by decide, by decide, ?_⟩
  decide +kernel

end StaticPreview.Component
