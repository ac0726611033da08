import StaticPreview.Proofs.Html.Canonical

/-! # Texts that decode to themselves

A text is read as it is written unless a reference in it means something else. No other part of the
text makes up for that, since no reference means more characters than it has.
-/
namespace StaticPreview.Html

/-- The bodies of the references in a text, as decoding comes to them. -/
def referenceBodies (s : List Char) : List (List Char) :=
  match s with
  | [] => []
  | c :: r =>
    if c = '&' then
      match h : reference? r with
      | some (body, rest) =>
        have := length_of_reference? h
        body :: referenceBodies rest
      | none => referenceBodies r
    else referenceBodies r
termination_by s.length
decreasing_by all_goals simp only [List.length_cons] at *; omega

def NeverGrows (meaning : List Char → List Char) : Prop :=
  ∀ body, ReferenceBody body → (meaning body).length ≤ body.length + 2

theorem referenceBodies_char {c : Char} (h : c ≠ '&') (s : List Char) :
    referenceBodies (c :: s) = referenceBodies s := by
  rw [referenceBodies, if_neg h]

theorem referenceBodies_reference {r body rest : List Char}
    (h : reference? r = some (body, rest)) :
    referenceBodies ('&' :: r) = body :: referenceBodies rest := by
  rw [referenceBodies, if_pos rfl]
  split
  next body' rest' h' =>
    obtain ⟨rfl, rfl⟩ := Prod.mk.inj (Option.some.inj (h'.symm.trans h))
    rfl
  next h' => simp [h] at h'

theorem referenceBodies_bare {r : List Char} (h : reference? r = none) :
    referenceBodies ('&' :: r) = referenceBodies r := by
  rw [referenceBodies, if_pos rfl]
  split
  next h' => simp [h] at h'
  next => rfl

variable {meaning : List Char → List Char}

theorem decodeBy_append_of_plain {run : List Char} (h : ∀ c ∈ run, c ≠ '&') (s : List Char) :
    decodeBy meaning (run ++ s) = run ++ decodeBy meaning s := by
  induction run with
  | nil => rfl
  | cons c r ih =>
    obtain ⟨hc, hr⟩ := List.forall_mem_cons.mp h
    rw [List.cons_append, decodeBy_char hc, ih hr]
    rfl

theorem decodeBy_of_plain {run : List Char} (h : ∀ c ∈ run, c ≠ '&') :
    decodeBy meaning run = run := by
  have happend : decodeBy meaning (run ++ []) = run ++ decodeBy meaning [] :=
    decodeBy_append_of_plain h []
  rwa [decodeBy, List.append_nil] at happend

/-- An ampersand between texts that have none. -/
theorem decodeBy_amp (hmarks : DecodesMarks meaning) {a b : List Char} (ha : ∀ c ∈ a, c ≠ '&')
    (hb : ∀ c ∈ b, c ≠ '&') :
    decodeBy meaning (a ++ ('&' :: "amp".toList ++ ';' :: b)) = a ++ '&' :: b := by
  rw [decodeBy_append_of_plain ha,
    decodeBy_known (p := ("amp".toList, '&')) (by simp [references]) hmarks.amp,
    decodeBy_of_plain hb]

theorem length_decodeBy_le (h : NeverGrows meaning) (s : List Char) :
    (decodeBy meaning s).length ≤ s.length := by
  fun_induction decodeBy meaning s with
  | case1 => exact Nat.le_refl 0
  | case2 r body rest hreference _ ih =>
    have hbody := h body (referenceBody_of_reference? hreference)
    rw [← append_of_reference? hreference]
    simp only [List.length_append, List.length_cons]
    omega
  | case3 r _ ih => exact Nat.succ_le_succ ih
  | case4 c r _ ih => exact Nat.succ_le_succ ih

theorem decodeBy_eq_self_iff (h : NeverGrows meaning) (s : List Char) :
    decodeBy meaning s = s ↔
      ∀ body ∈ referenceBodies s, meaning body = '&' :: body ++ [';'] := by
  fun_induction decodeBy meaning s with
  | case1 => simp [referenceBodies]
  | case2 r body rest hreference _ ih =>
    have hr := append_of_reference? hreference
    have hassoc : '&' :: r = ('&' :: body ++ [';']) ++ rest := by simp [← hr]
    rw [referenceBodies_reference hreference, List.forall_mem_cons, ← ih, hassoc]
    constructor
    · intro heq
      have hlength := congrArg List.length heq
      have hbody := h body (referenceBody_of_reference? hreference)
      have hrest := length_decodeBy_le h rest
      simp only [List.length_append, List.length_cons, List.length_nil] at hlength
      apply List.append_inj heq
      simp only [List.length_append, List.length_cons, List.length_nil]
      omega
    · rintro ⟨hbody, hrest⟩
      rw [hbody, hrest]
  | case3 r hreference ih =>
    rw [referenceBodies_bare hreference, ← ih]
    exact ⟨fun heq => (List.cons.inj heq).2, fun heq => congrArg _ heq⟩
  | case4 c r hc ih =>
    rw [referenceBodies_char hc, ← ih]
    exact ⟨fun heq => (List.cons.inj heq).2, fun heq => congrArg _ heq⟩

theorem neverGrows_tableMeaning : NeverGrows tableMeaning := by
  intro body hbody
  unfold tableMeaning
  cases hlookup : references.lookup body with
  | some c =>
    simp
  | none => simp

end StaticPreview.Html
