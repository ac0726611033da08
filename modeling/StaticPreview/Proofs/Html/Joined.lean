import StaticPreview.Proofs.Html.Canonical

/-! # Texts joined by semicolons

A semicolon behind a text may complete a reference that the text ends in. Where it does not,
escaping and decoding take the texts before and behind it one by one.
-/
namespace StaticPreview.Html

/-- Whether a text ends in a reference that has no semicolon. -/
def EndsInReference (s : List Char) : Prop :=
  ∃ lead body, s = lead ++ '&' :: body ∧ ReferenceBody body

theorem not_endsInReference_nil : ¬EndsInReference [] := by
  rintro ⟨lead, body, hnil, -⟩
  simp at hnil

theorem endsInReference_cons_iff {c : Char} {s : List Char} :
    EndsInReference (c :: s) ↔ (c = '&' ∧ ReferenceBody s) ∨ EndsInReference s := by
  constructor
  · rintro ⟨lead, body, heq, hbody⟩
    cases lead with
    | nil =>
      obtain ⟨rfl, rfl⟩ := List.cons.inj heq
      exact .inl ⟨rfl, hbody⟩
    | cons d lead => exact .inr ⟨lead, body, (List.cons.inj heq).2, hbody⟩
  · rintro (⟨rfl, hbody⟩ | ⟨lead, body, rfl, hbody⟩)
    · exact ⟨[], s, rfl, hbody⟩
    · exact ⟨c :: lead, body, rfl, hbody⟩

theorem reference?_append_semicolon_iff {s : List Char} :
    reference? (s ++ [';']) = some (s, []) ↔ ReferenceBody s :=
  ⟨referenceBody_of_reference?, fun h => reference?_of_referenceBody h []⟩

instance : DecidablePred ReferenceBody := fun _ =>
  decidable_of_iff _ reference?_append_semicolon_iff

instance decidableEndsInReference : DecidablePred EndsInReference
  | [] => .isFalse not_endsInReference_nil
  | c :: s =>
    have := decidableEndsInReference s
    decidable_of_iff ((c = '&' ∧ ReferenceBody s) ∨ EndsInReference s) endsInReference_cons_iff.symm

theorem endsInReference_append_iff {run : List Char} (h : '&' ∉ run) (s : List Char) :
    EndsInReference (run ++ s) ↔ EndsInReference s := by
  induction run with
  | nil => rfl
  | cons c run ih =>
    obtain ⟨hc, hrun⟩ := not_or.mp (mt List.mem_cons.mpr h)
    rw [List.cons_append, endsInReference_cons_iff, ih hrun]
    exact or_iff_right fun hamp => hc hamp.1.symm

theorem ReferenceBody.semicolon_not_mem {body : List Char} (h : ReferenceBody body) : ';' ∉ body :=
  fun hmem => absurd (h.isAlphanum_or ';' hmem) (by decide)

theorem ReferenceBody.not_endsInReference {body : List Char} (h : ReferenceBody body) :
    ¬EndsInReference body := by
  rintro ⟨lead, rest, rfl, -⟩
  exact (h.plain '&' (by simp)).2 rfl

theorem ReferenceBody.not_completesReference {body : List Char} (h : ReferenceBody body) :
    ¬CompletesReference body := by
  rintro ⟨inner, rest, -, rfl⟩
  exact h.semicolon_not_mem (by simp)

/-- A semicolon behind a text completes nothing but a reference that is the whole text. -/
theorem completesReference_append_semicolon_iff {s : List Char} (t : List Char) :
    CompletesReference (s ++ ';' :: t) ↔ CompletesReference s ∨ ReferenceBody s := by
  constructor
  · rintro ⟨body, rest, hbody, heq⟩
    rcases List.append_eq_append_iff.mp heq with ⟨u, rfl, hu⟩ | ⟨u, rfl, hu⟩
    · cases u with
      | nil => exact .inr (by simpa using hbody)
      | cons c u =>
        obtain ⟨rfl, -⟩ := List.cons.inj hu
        exact absurd (by simp) hbody.semicolon_not_mem
    · cases u with
      | nil => exact .inr (by simpa using hbody)
      | cons c u =>
        obtain ⟨rfl, -⟩ := List.cons.inj hu
        exact .inl ⟨body, u, hbody, rfl⟩
  · rintro (⟨body, rest, hbody, rfl⟩ | hbody)
    · exact ⟨body, rest ++ ';' :: t, hbody, by simp⟩
    · exact ⟨s, t, hbody, rfl⟩

theorem escapeChar_append_semicolon {c : Char} {s : List Char} (h : ¬(c = '&' ∧ ReferenceBody s))
    (t : List Char) : escapeChar c (s ++ ';' :: t) = escapeChar c s := by
  by_cases hc : c = '&'
  · subst hc
    have hbody : ¬ReferenceBody s := fun hbody => h ⟨rfl, hbody⟩
    have hiff : (reference? (s ++ ';' :: t)).isSome ↔ (reference? s).isSome := by
      rw [isSome_reference?_iff, isSome_reference?_iff, completesReference_append_semicolon_iff]
      exact or_iff_left hbody
    exact ite_congr (propext hiff) (fun _ => rfl) fun _ => rfl
  · unfold escapeChar
    split
    next => exact absurd rfl hc
    all_goals rfl

theorem escape_append_semicolon {s : List Char} (h : ¬EndsInReference s) (t : List Char) :
    escape (s ++ ';' :: t) = escape s ++ ';' :: escape t := by
  induction s with
  | nil => rfl
  | cons c s ih =>
    obtain ⟨hc, hs⟩ := not_or.mp (mt endsInReference_cons_iff.mpr h)
    rw [List.cons_append, escape, escapeChar_append_semicolon hc, ih hs, escape, List.append_assoc]

/-- An ampersand that the semicolon completes a reference for is written as it is. -/
theorem length_escape_append_semicolon_lt {s : List Char} (h : EndsInReference s)
    (t : List Char) : (escape (s ++ ';' :: t)).length < (escape s ++ ';' :: escape t).length := by
  induction s with
  | nil => exact absurd h not_endsInReference_nil
  | cons c s ih =>
    by_cases hc : c = '&' ∧ ReferenceBody s
    · obtain ⟨rfl, hbody⟩ := hc
      have hkept : escapeChar '&' (s ++ ';' :: t) = ['&'] :=
        if_pos (isSome_reference?_iff.mpr ⟨s, t, hbody, rfl⟩)
      have hbare : escapeChar '&' s = "&amp;".toList :=
        if_neg (mt isSome_reference?_iff.mp hbody.not_completesReference)
      rw [List.cons_append, escape, hkept, escape_append_semicolon hbody.not_endsInReference,
        escape, hbare]
      simp
    · have hs := (endsInReference_cons_iff.mp h).resolve_left hc
      have hlength := ih hs
      rw [List.cons_append, escape, escapeChar_append_semicolon hc, escape]
      simp only [List.length_append, List.length_cons] at hlength ⊢
      omega

theorem length_escape_append_semicolon_le (s t : List Char) :
    (escape (s ++ ';' :: t)).length ≤ (escape s ++ ';' :: escape t).length := by
  by_cases h : EndsInReference s
  · exact Nat.le_of_lt (length_escape_append_semicolon_lt h t)
  · exact Nat.le_of_eq (congrArg List.length (escape_append_semicolon h t))

theorem escape_blank_cons (s : List Char) : escape (' ' :: s) = ' ' :: escape s := rfl

/-- The texts with a semicolon and a blank between them. -/
def joined (ts : List (List Char)) : List Char :=
  [';', ' '].intercalate ts

theorem joined_cons_cons (t u : List Char) (more : List (List Char)) :
    joined (t :: u :: more) = t ++ ';' :: ' ' :: joined (u :: more) := by
  simp [joined, List.intercalate_cons_cons]

theorem length_escape_joined_le (ts : List (List Char)) :
    (escape (joined ts)).length ≤ (joined (ts.map escape)).length := by
  induction ts with
  | nil => exact Nat.le_refl _
  | cons t more ih =>
    cases more with
    | nil => simp [joined]
    | cons u more =>
      have hle := length_escape_append_semicolon_le t (' ' :: joined (u :: more))
      rw [List.map_cons] at ih
      rw [joined_cons_cons, List.map_cons, List.map_cons, joined_cons_cons]
      rw [escape_blank_cons] at hle
      simp only [List.length_append, List.length_cons] at hle ih ⊢
      omega

/-- Escaping keeps texts apart exactly if no semicolon between them completes a reference. -/
theorem escape_joined_eq_iff (ts : List (List Char)) :
    escape (joined ts) = joined (ts.map escape) ↔ ∀ t ∈ ts.dropLast, ¬EndsInReference t := by
  induction ts with
  | nil => simp [joined, escape]
  | cons t more ih =>
    cases more with
    | nil => simp [joined]
    | cons u more =>
      rw [List.dropLast_cons_cons, List.forall_mem_cons, ← ih, joined_cons_cons, List.map_cons,
        List.map_cons, joined_cons_cons]
      constructor
      · intro heq
        have hlength := congrArg List.length heq
        have hle := length_escape_joined_le (u :: more)
        -- A reference that the semicolon completes makes the text shorter, and nothing behind it
        -- makes up for that.
        have ht : ¬EndsInReference t := by
          intro ht
          have hlt := length_escape_append_semicolon_lt ht (' ' :: joined (u :: more))
          rw [escape_blank_cons] at hlt
          rw [List.map_cons] at hle
          simp only [List.length_append, List.length_cons] at hlength hle hlt
          omega
        rw [escape_append_semicolon ht, escape_blank_cons] at heq
        have htail := List.append_cancel_left heq
        exact ⟨ht, (List.cons.inj (List.cons.inj htail).2).2⟩
      · rintro ⟨ht, hmore⟩
        rw [escape_append_semicolon ht, escape_blank_cons, hmore]

variable {meaning : List Char → List Char}

theorem decodeBy_append_semicolon {s : List Char} (h : ¬EndsInReference s) (t : List Char) :
    decodeBy meaning (s ++ ';' :: t) = decodeBy meaning s ++ ';' :: decodeBy meaning t := by
  fun_induction decodeBy meaning s with
  | case1 => exact decodeBy_char (by decide) t
  | case2 r body rest hreference _ ih =>
    have hbody := referenceBody_of_reference? hreference
    have hr := append_of_reference? hreference
    have hrest : ¬EndsInReference rest := by
      rintro ⟨lead, last, rfl, hlast⟩
      exact h ⟨'&' :: body ++ ';' :: lead, last, by simp [← hr], hlast⟩
    have hassoc : '&' :: r ++ ';' :: t = '&' :: body ++ ';' :: (rest ++ ';' :: t) := by simp [← hr]
    rw [hassoc, decodeBy_reference hbody, ih hrest, List.append_assoc]
  | case3 r hreference ih =>
    obtain ⟨hamp, hr⟩ := not_or.mp (mt endsInReference_cons_iff.mpr h)
    have hbare : reference? (r ++ ';' :: t) = none := by
      rw [← Option.not_isSome_iff_eq_none, isSome_reference?_iff,
        completesReference_append_semicolon_iff, ← isSome_reference?_iff, hreference]
      rintro (hsome | hbody)
      · cases hsome
      · exact hamp ⟨rfl, hbody⟩
    rw [List.cons_append, decodeBy_bare hbare, ih hr, List.cons_append]
  | case4 c r hc ih =>
    obtain ⟨-, hr⟩ := not_or.mp (mt endsInReference_cons_iff.mpr h)
    rw [List.cons_append, decodeBy_char hc, ih hr, List.cons_append]

theorem decodeBy_joined {ts : List (List Char)} (h : ∀ t ∈ ts.dropLast, ¬EndsInReference t) :
    decodeBy meaning (joined ts) = joined (ts.map (decodeBy meaning)) := by
  induction ts with
  | nil => simp [joined, decodeBy]
  | cons t more ih =>
    cases more with
    | nil => simp [joined]
    | cons u more =>
      rw [List.dropLast_cons_cons, List.forall_mem_cons] at h
      obtain ⟨ht, hmore⟩ := h
      rw [joined_cons_cons, decodeBy_append_semicolon ht, decodeBy_char (by decide), ih hmore]
      simp only [List.map_cons, joined_cons_cons]

end StaticPreview.Html
