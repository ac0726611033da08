import StaticPreview.Proofs.Component.Operand

/-! # Whole words `return`

A text may be split at any character that belongs to no word: the returns of both parts are the
returns of the whole. All that the choice of a return needs follows from this one equation.
-/
namespace StaticPreview.Component
open Text

def EndsOffWord (s : List Char) : Prop :=
  ∀ c ∈ s.getLast?, isWord c = false

instance (s : List Char) : Decidable (EndsOffWord s) :=
  decidable_of_iff (s.getLast?.all fun c => !isWord c)
    (by rw [EndsOffWord]; cases s.getLast? <;> simp)

def StartsOffWord (s : List Char) : Prop :=
  ∀ c ∈ s.head?, isWord c = false

def HasReturn (s rest : List Char) : Prop :=
  ∃ lead, s = lead ++ ("return".toList ++ rest) ∧ EndsOffWord lead ∧ StartsOffWord rest

theorem isWord_of_mem_return : ∀ c ∈ "return".toList, isWord c := by
  decide

theorem afterReturns_some {c : Char} (hc : isWord c = false) (s : List Char) :
    afterReturns (some c) s = afterReturns none s := by
  cases s with
  | nil => rfl
  | cons d r => simp [afterReturns, hc]

theorem afterReturns_cons {c : Char} (hc : isWord c = false) (before : Option Char)
    (s : List Char) : afterReturns before (c :: s) = afterReturns none s := by
  have hne : 'r' ≠ c := by
    rintro rfl
    exact absurd hc (by decide)
  have hnone : after? "return".toList (c :: s) = none := by simp [after?, hne]
  simp only [afterReturns, hnone]
  exact afterReturns_some hc s

theorem afterReturns_append {c : Char} (hc : isWord c = false) (before : Option Char)
    (p s : List Char) :
    afterReturns before (p ++ c :: s) =
      (afterReturns before p).map (· ++ c :: s) ++ afterReturns none s := by
  induction p generalizing before with
  | nil => exact afterReturns_cons hc before s
  | cons d p ih =>
    have hword : c ∉ "return".toList := fun hmem => by simp [isWord_of_mem_return c hmem] at hc
    have hsplit : after? "return".toList (d :: (p ++ c :: s)) = _ :=
      after?_append_cons hword (d :: p) s
    have hboundary (rest : List Char) :
        ((rest ++ c :: s).head?.map isWord).getD false = (rest.head?.map isWord).getD false := by
      cases rest <;> simp [hc]
    simp only [List.cons_append, afterReturns, hsplit]
    cases after? "return".toList (d :: p) with
    | none => exact ih (some d)
    | some rest =>
      simp only [Option.map_some, hboundary]
      split
      · exact ih (some d)
      · rw [ih (some d), List.map_cons, List.cons_append]

/-- A whole word `return` splits the search: its own place comes between those before and behind it.
-/
theorem afterReturns_return {P : List Char} (hP : EndsOffWord P) {c : Char} (hc : isWord c = false)
    (s : List Char) :
    afterReturns none (P ++ ("return".toList ++ c :: s)) =
      (afterReturns none P).map (· ++ ("return".toList ++ c :: s)) ++
        (c :: s) :: afterReturns none s := by
  have hself : afterReturns none ("return".toList ++ c :: s) = (c :: s) :: afterReturns none s := by
    rw [afterReturns_append hc]
    rfl
  rcases P.eq_nil_or_concat with rfl | ⟨P, d, rfl⟩
  · exact hself
  · have hd : isWord d = false := hP d (by simp)
    rw [List.concat_eq_append, List.append_assoc, List.singleton_append, afterReturns_append hd,
      afterReturns_append hd, hself]
    simp [afterReturns]

theorem mem_afterReturns_cons {before : Option Char} {c : Char} {r rest : List Char} :
    rest ∈ afterReturns before (c :: r) ↔
      (c :: r = "return".toList ++ rest ∧ (∀ d ∈ before, isWord d = false) ∧ StartsOffWord rest) ∨
        rest ∈ afterReturns (some c) r := by
  have hoff (o : Option Char) : (o.map isWord).getD false = false ↔ ∀ d ∈ o, isWord d = false := by
    cases o <;> simp
  rw [afterReturns, ← after?_eq_some_iff.trans eq_comm]
  cases after? "return".toList (c :: r) with
  | none => simp
  | some t =>
    rw [Option.some.injEq, StartsOffWord, ← hoff, ← hoff]
    dsimp only
    constructor
    · intro h
      split at h
      next => exact .inr h
      next hcond =>
        rcases List.mem_cons.mp h with rfl | h
        · exact .inl ⟨rfl, Bool.or_eq_false_iff.mp (Bool.eq_false_iff.mpr hcond)⟩
        · exact .inr h
    · rintro (⟨rfl, hbefore, hrest⟩ | h)
      · simp [hbefore, hrest]
      · split
        · exact h
        · exact List.mem_cons_of_mem t h

/-- The places that are found are those behind the whole words `return`. -/
theorem mem_afterReturns_iff {before : Option Char} {s rest : List Char} :
    rest ∈ afterReturns before s ↔
      ∃ lead, s = lead ++ ("return".toList ++ rest) ∧
        (∀ c ∈ lead.getLast?.or before, isWord c = false) ∧ StartsOffWord rest := by
  induction s generalizing before with
  | nil => simp [afterReturns]
  | cons c r ih =>
    have hlast (lead : List Char) :
        (c :: lead).getLast?.or before = lead.getLast?.or (some c) := by
      rw [List.getLast?_cons]
      cases lead.getLast? <;> rfl
    rw [mem_afterReturns_cons, ih]
    constructor
    · rintro (⟨heq, hbefore, hrest⟩ | ⟨lead, rfl, hlead, hrest⟩)
      · exact ⟨[], heq, hbefore, hrest⟩
      · exact ⟨c :: lead, rfl, by rwa [hlast], hrest⟩
    · rintro ⟨lead, heq, hlead, hrest⟩
      cases lead with
      | nil => exact .inl ⟨heq, hlead, hrest⟩
      | cons d lead =>
        obtain ⟨rfl, rfl⟩ := List.cons.inj heq
        exact .inr ⟨lead, rfl, by rwa [← hlast], hrest⟩

theorem mem_afterReturns_none_iff {s rest : List Char} :
    rest ∈ afterReturns none s ↔ HasReturn s rest := by
  rw [mem_afterReturns_iff, HasReturn]
  simp only [Option.or_none, EndsOffWord]

theorem StartsOffWord.of_append {s t : List Char} (hne : s ≠ []) (h : StartsOffWord (s ++ t)) :
    StartsOffWord s := by
  obtain ⟨c, r, rfl⟩ := List.exists_cons_of_ne_nil hne
  exact h

/-- No end of the word `return` is a beginning of it. -/
theorem hasReturn_append_return {Q rest : List Char} (h : HasReturn (Q ++ "return".toList) rest) :
    (EndsOffWord Q ∧ rest = []) ∨ ∃ rest', HasReturn Q rest' := by
  obtain ⟨lead, heq, hlead, hrest⟩ := h
  rcases List.append_eq_append_iff.mp heq with ⟨u, rfl, hu⟩ | ⟨u, rfl, hu⟩
  · have hlength := congrArg List.length hu
    simp only [List.length_append] at hlength
    have hnil : u = [] ∧ rest = [] :=
      ⟨List.length_eq_zero_iff.mp (by omega), List.length_eq_zero_iff.mp (by omega)⟩
    obtain ⟨rfl, rfl⟩ := hnil
    exact .inl ⟨by simpa using hlead, rfl⟩
  · rcases u with _ | ⟨_, _ | ⟨_, _ | ⟨_, _ | ⟨_, _ | ⟨_, _ | ⟨_, v⟩⟩⟩⟩⟩⟩
    all_goals simp at hu
    · exact .inl ⟨by simpa using hlead, hu⟩
    · obtain ⟨rfl, rfl, rfl, rfl, rfl, rfl, rfl⟩ := hu
      have hne : v ≠ [] := by
        rintro rfl
        exact absurd (hrest 'r' rfl) (by decide)
      exact .inr ⟨v, lead, rfl, hlead, StartsOffWord.of_append hne hrest⟩

/-- Whether a text holds no whole word `return`. -/
def HasNoReturn (s : List Char) : Prop :=
  ∀ rest, ¬ HasReturn s rest

theorem hasNoReturn_iff {s : List Char} : HasNoReturn s ↔ afterReturns none s = [] := by
  rw [HasNoReturn, List.eq_nil_iff_forall_not_mem]
  exact forall_congr' fun rest => not_congr mem_afterReturns_none_iff.symm

instance (s : List Char) : Decidable (HasNoReturn s) :=
  decidable_of_iff _ hasNoReturn_iff.symm

theorem isSome_markup?_iff {source : List Char} :
    (markup? source).isSome ↔ ∃ rest, HasReturn source rest ∧ (operand? rest).isSome := by
  simp [markup?, mem_afterReturns_none_iff]

def returnOf (m : Marks) (inner t : List Char) : List Char :=
  "return".toList ++ ' ' :: m.opening :: (inner ++ m.closing :: t)

theorem returnOf_eq (m : Marks) (inner t : List Char) :
    returnOf m inner t = "return".toList ++ ' ' :: m.opening :: (inner ++ m.closing :: t) := rfl

theorem afterReturns_returnOf {P : List Char} (hP : EndsOffWord P) (m : Marks)
    (inner t : List Char) :
    afterReturns none (P ++ returnOf m inner t) =
      (afterReturns none P).map (· ++ returnOf m inner t) ++
        (' ' :: m.opening :: (inner ++ m.closing :: t)) ::
          ((afterReturns none inner).map (· ++ m.closing :: t) ++ afterReturns none t) := by
  have hspace : isWord ' ' = false := by decide
  rw [returnOf_eq, afterReturns_return hP hspace, afterReturns_cons m.not_isWord_opening,
    afterReturns_append m.not_isWord_closing none inner t]

end StaticPreview.Component
