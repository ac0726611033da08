import StaticPreview.Text.Reader

/-! # What readers take

Readers are applied to a text that goes on behind what they take.
-/
namespace StaticPreview.Text.Reader
variable {α β : Type}

theorem pure_apply (a : α) (s : List Char) : (pure a : Reader α) s = some (a, s) := rfl

theorem bind_apply (r : Reader α) (f : α → Reader β) (s : List Char) :
    (r >>= f) s = (r s).bind fun p => f p.1 p.2 := rfl

theorem map_apply (f : α → β) (r : Reader α) (s : List Char) :
    (f <$> r) s = (r s).map fun p => (f p.1, p.2) := by
  cases h : r s <;> simp [Functor.map, StateT.map, h]

theorem orElse_apply (r r' : Reader α) (s : List Char) : (r <|> r') s = (r s).or (r' s) := by
  cases h : r s <;> simp [HOrElse.hOrElse, OrElse.orElse, Alternative.orElse, StateT.orElse, h]

theorem seqRight_apply (r : Reader α) (r' : Reader β) (s : List Char) :
    (r *> r') s = (r s).bind fun p => r' p.2 := rfl

theorem satisfy_cons (p : Char → Bool) (c : Char) (s : List Char) :
    satisfy p (c :: s) = if p c then some (c, s) else none := rfl

theorem char_cons (mark c : Char) (s : List Char) :
    char mark (c :: s) = if c = mark then some ((), s) else none := by
  rw [char, bind_apply, satisfy_cons]
  by_cases h : c = mark <;> simp [h, pure_apply]

theorem takeWhile1_apply (p : Char → Bool) (s : List Char) :
    takeWhile1 p s = if s.takeWhile p = [] then none else some (s.takeWhile p, s.dropWhile p) := by
  have hguard (b : Bool) (t : List Char) :
      (guard (b = true) : Reader Unit) t = if b then some ((), t) else none := by
    cases b <;> rfl
  have hpeek : takeWhile p s = some (s.takeWhile p, s.dropWhile p) := rfl
  rw [takeWhile1, bind_apply, hpeek, Option.bind_some, bind_apply, hguard]
  cases s.takeWhile p <;> rfl

theorem manyUpTo_of_none {r : Reader α} {s : List Char} (h : r s = none) (n : Nat) :
    manyUpTo r n s = some ([], s) := by
  cases n with
  | zero => rfl
  | succ n =>
    rw [manyUpTo, orElse_apply, bind_apply, h, Option.bind_none, Option.none_or, pure_apply]

theorem manyUpTo_of_some {r : Reader α} {s rest after : List Char} {a : α} {more : List α} {n : Nat}
    (h : r s = some (a, rest)) (hmore : manyUpTo r n rest = some (more, after)) :
    manyUpTo r (n + 1) s = some (a :: more, after) := by
  rw [manyUpTo, orElse_apply, bind_apply, h, Option.bind_some, bind_apply, hmore, Option.bind_some,
    pure_apply, Option.some_or]

theorem length_le_length_flatMap {f : α → List Char} (h : ∀ x, f x ≠ []) (xs : List α) :
    xs.length ≤ (xs.flatMap f).length := by
  induction xs with
  | nil => exact Nat.le_refl _
  | cons x more ih =>
    have hx := List.length_pos_iff.mpr (h x)
    rw [List.flatMap_cons, List.length_append, List.length_cons]
    omega

/-- A reader that takes each text of a list, where what `p` holds of goes on behind it, takes them
one by one. -/
theorem manyUpTo_flatMap {r : Reader β} {f : α → List Char} {g : α → β} {p : List Char → Prop}
    {xs : List α} {rest : List Char} (h : ∀ x ∈ xs, ∀ s, p s → r (f x ++ s) = some (g x, s))
    (hp : ∀ x ∈ xs, ∀ s, p (f x ++ s)) (hrest : p rest) (hstop : r rest = none) {n : Nat}
    (hn : xs.length ≤ n) : manyUpTo r n (xs.flatMap f ++ rest) = some (xs.map g, rest) := by
  induction xs generalizing n with
  | nil => exact manyUpTo_of_none hstop n
  | cons x more ih =>
    obtain ⟨hx, hmore⟩ := List.forall_mem_cons.mp h
    obtain ⟨hpx, hpmore⟩ := List.forall_mem_cons.mp hp
    have hbehind : p (more.flatMap f ++ rest) := by
      cases more with
      | nil => exact hrest
      | cons y _ =>
        rw [List.flatMap_cons, List.append_assoc]
        exact hpmore y List.mem_cons_self _
    cases n with
    | zero => simp at hn
    | succ n =>
      rw [List.flatMap_cons, List.append_assoc]
      exact manyUpTo_of_some (hx _ hbehind) (ih hmore hpmore (Nat.le_of_succ_le_succ hn))

/-- Texts with a mark between each two. -/
def separated (mark : Char) (f : α → List Char) : List α → List Char
  | [] => []
  | x :: more => f x ++ more.flatMap fun y => mark :: f y

theorem length_le_length_separated (mark : Char) (f : α → List Char) {y : α} {xs : List α}
    (hy : y ∈ xs) : (f y).length ≤ (separated mark f xs).length := by
  cases xs with
  | nil => cases hy
  | cons x more =>
    rw [separated, List.length_append]
    rcases List.mem_cons.mp hy with rfl | hy
    · exact Nat.le_add_right _ _
    · obtain ⟨before, after, rfl⟩ := List.append_of_mem hy
      simp only [List.flatMap_append, List.flatMap_cons, List.length_append, List.length_cons]
      omega

/-- A reader that takes each of the texts takes them all, up to a character that is no mark. -/
theorem sepBy_separated {r : Reader β} {f : α → List Char} {g : α → β} {p : List Char → Prop}
    {mark c : Char} {xs : List α} {rest : List Char}
    (h : ∀ y ∈ xs, ∀ s, p s → r (f y ++ s) = some (g y, s)) (hmark : ∀ s, p (mark :: s))
    (hrest : p (c :: rest)) (hc : c ≠ mark) (hnone : r (c :: rest) = none) :
    sepBy r (char mark) (separated mark f xs ++ c :: rest) = some (xs.map g, c :: rest) := by
  rw [sepBy, orElse_apply, sepBy1, bind_apply]
  cases xs with
  | nil =>
    rw [separated, List.nil_append, hnone, Option.bind_none, Option.none_or, pure_apply,
      List.map_nil]
  | cons x more =>
    obtain ⟨hx, hmore⟩ := List.forall_mem_cons.mp h
    have hmarked : ∀ y ∈ more, ∀ s, p s → (char mark *> r) (mark :: f y ++ s) = some (g y, s) := by
      intro y hy s hs
      rw [seqRight_apply, List.cons_append, char_cons, if_pos rfl, Option.bind_some,
        hmore y hy s hs]
    have hstop : (char mark *> r) (c :: rest) = none := by
      rw [seqRight_apply, char_cons, if_neg hc, Option.bind_none]
    have hlength : more.length ≤ ((more.flatMap fun y => mark :: f y) ++ c :: rest).length := by
      have hflat := length_le_length_flatMap (f := fun y => mark :: f y) (by simp) more
      rw [List.length_append]
      omega
    have hmany : many (char mark *> r) ((more.flatMap fun y => mark :: f y) ++ c :: rest) =
        some (more.map g, c :: rest) :=
      manyUpTo_flatMap hmarked (fun _ _ s => hmark _) hrest hstop hlength
    have hbehind : p ((more.flatMap fun y => mark :: f y) ++ c :: rest) := by
      cases more with
      | nil => exact hrest
      | cons y _ => exact hmark _
    rw [separated, List.append_assoc, hx _ hbehind, Option.bind_some, bind_apply, hmany,
      Option.bind_some, pure_apply, Option.some_or, List.map_cons]

end StaticPreview.Text.Reader
