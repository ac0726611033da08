import StaticPreview.Markup.Tag

/-! # Matching closing tags

Only tags of the sought name count. An opening tag that closes itself opens nothing; one that
never ends opens all the same.
-/
namespace StaticPreview.Markup

/-- Reads on inside `depth` nested elements named `tag`, and the element around them, up to the
closing tag of the latter: the text before that closing tag and the text after it. -/
def readContent? (tag : List Char) (depth : Nat) (s : List Char) :
    Option (List Char × List Char) :=
  match s with
  | [] => none
  | c :: r =>
    if c = '<' then
      match hclose : Text.after? (closingTag tag) (c :: r) with
      | some after =>
        if depth = 0 then some ([], after)
        else
          have : after.length < (c :: r).length := by
            rw [← Text.after?_eq_some_iff.mp hclose]
            simp only [closingTag, List.length_append, List.length_cons]
            omega
          (readContent? tag (depth - 1) after).map fun p => (closingTag tag ++ p.1, p.2)
      | none =>
        if opensTag tag (c :: r) then
          match hbody : tagBody? r with
          | some (body, after) =>
            have := (length_of_tagBody? hbody).2
            let inner := if selfCloses body then depth else depth + 1
            (readContent? tag inner after).map fun p => (c :: body ++ '>' :: p.1, p.2)
          | none => (readContent? tag (depth + 1) r).map fun p => (c :: p.1, p.2)
        else (readContent? tag depth r).map fun p => (c :: p.1, p.2)
    else (readContent? tag depth r).map fun p => (c :: p.1, p.2)
termination_by s.length
decreasing_by all_goals simp only [List.length_cons] at *; omega

theorem readContent?_of_ne {tag : List Char} {depth : Nat} {c : Char} (hc : c ≠ '<')
    (s : List Char) :
    readContent? tag depth (c :: s) = (readContent? tag depth s).map fun p => (c :: p.1, p.2) := by
  rw [readContent?, if_neg hc]

theorem readContent?_closing (tag : List Char) (depth : Nat) (s : List Char) :
    readContent? tag depth (closingTag tag ++ s) =
      if depth = 0 then some ([], s)
      else (readContent? tag (depth - 1) s).map fun p => (closingTag tag ++ p.1, p.2) := by
  have h : Text.after? (closingTag tag) ('<' :: ('/' :: tag ++ ['>'] ++ s)) = some s :=
    Text.after?_eq_some_iff.mpr rfl
  change readContent? tag depth ('<' :: ('/' :: tag ++ ['>'] ++ s)) = _
  rw [readContent?, if_pos rfl]
  split
  next after h' =>
    obtain rfl := Option.some.inj (h'.symm.trans h)
    rfl
  next h' => exact absurd (h.symm.trans h') (by simp)

section
variable {tag s : List Char} (hclose : Text.after? (closingTag tag) ('<' :: s) = none)
include hclose

theorem readContent?_opening (hopen : opensTag tag ('<' :: s)) {body after : List Char}
    (hbody : tagBody? s = some (body, after)) (depth : Nat) :
    readContent? tag depth ('<' :: s) =
      (readContent? tag (if selfCloses body then depth else depth + 1) after).map
        fun p => ('<' :: body ++ '>' :: p.1, p.2) := by
  rw [readContent?, if_pos rfl]
  split
  next h' => simp [hclose] at h'
  next =>
    rw [if_pos hopen]
    split
    next body' after' h' =>
      obtain ⟨rfl, rfl⟩ := Prod.mk.inj (Option.some.inj (h'.symm.trans hbody))
      rfl
    next h' => simp [hbody] at h'

theorem readContent?_other (hopen : opensTag tag ('<' :: s) = false) (depth : Nat) :
    readContent? tag depth ('<' :: s) =
      (readContent? tag depth s).map fun p => ('<' :: p.1, p.2) := by
  rw [readContent?, if_pos rfl]
  split
  next h' => simp [hclose] at h'
  next => rw [if_neg (by simp [hopen])]

end

def content? (tag s : List Char) : Option (List Char × List Char) :=
  readContent? tag 0 s

/-- What is read, its closing tag and what follows are the whole text, so nothing is skipped. -/
theorem append_of_readContent? {tag s a b : List Char} {depth : Nat}
    (h : readContent? tag depth s = some (a, b)) : a ++ closingTag tag ++ b = s := by
  fun_induction readContent? tag depth s generalizing a b with
  | case1 => simp at h
  | case2 r after hclose =>
    obtain ⟨rfl, rfl⟩ := Prod.mk.inj (Option.some.inj h)
    simpa using Text.after?_eq_some_iff.mp hclose
  | case3 depth r after _ hclose _ ih =>
    obtain ⟨⟨x, y⟩, hp, hxy⟩ := Option.map_eq_some_iff.mp h
    obtain ⟨rfl, rfl⟩ := Prod.mk.inj hxy
    rw [← Text.after?_eq_some_iff.mp hclose, ← ih hp]
    simp
  | case4 =>
    rename_i hbody _ _ _ _ ih
    obtain ⟨⟨x, y⟩, hp, hxy⟩ := Option.map_eq_some_iff.mp h
    obtain ⟨rfl, rfl⟩ := Prod.mk.inj hxy
    rw [← append_of_tagBody? hbody, ← ih hp]
    simp
  | _ =>
    obtain ⟨⟨x, y⟩, hp, hxy⟩ := Option.map_eq_some_iff.mp h
    obtain ⟨rfl, rfl⟩ := Prod.mk.inj hxy
    rename_i ih
    simp [← ih hp]

theorem length_of_content? {tag s a b : List Char} (h : content? tag s = some (a, b)) :
    a.length < s.length ∧ b.length < s.length := by
  rw [← append_of_readContent? h]
  simp [closingTag]
  omega

end StaticPreview.Markup
