import StaticPreview.Proofs.Markup.Group

/-! # The groups that a reading finds

What a reading has passed over closes the literal it was in and each of the open groups. So the
group that a brace opens is the one that the grammar derives there.
-/
namespace StaticPreview.Markup
open Text

/-- What closes `depth` open groups, the innermost first, each of them behind what is left of
its text. -/
inductive ClosingText : Nat → List Char → Prop
  | nil : ClosingText 0 []
  | close {depth : Nat} {text r : List Char} (htext : GroupText text)
      (hr : ClosingText depth r) : ClosingText (depth + 1) (text ++ '\x7d' :: r)

theorem ClosingText.plain {depth : Nat} {c : Char} {s : List Char} (hquote : isQuote c = false)
    (hopen : c ≠ '\x7b') (hclose : c ≠ '\x7d') (h : ClosingText (depth + 1) s) :
    ClosingText (depth + 1) (c :: s) := by
  cases h with
  | close htext hr => exact .close (htext.plain hquote hopen hclose) hr

theorem ClosingText.literal {depth : Nat} {mark : Char} {text s : List Char} (hmark : isQuote mark)
    (htext : LiteralText mark text) (h : ClosingText (depth + 1) s) :
    ClosingText (depth + 1) (mark :: text ++ mark :: s) := by
  cases h with
  | @close _ inner r hinner hr =>
    have hassoc : mark :: text ++ mark :: (inner ++ '\x7d' :: r) =
        mark :: text ++ mark :: inner ++ '\x7d' :: r := by simp
    rw [hassoc]
    exact .close (.literal hmark htext hinner) hr

theorem ClosingText.group {depth : Nat} {s : List Char} (h : ClosingText (depth + 2) s) :
    ClosingText (depth + 1) ('\x7b' :: s) := by
  cases h with
  | @close _ inner r hinner hr =>
    cases hr with
    | @close _ text r htext hr =>
      have hassoc : '\x7b' :: (inner ++ '\x7d' :: (text ++ '\x7d' :: r)) =
          '\x7b' :: inner ++ '\x7d' :: text ++ '\x7d' :: r := by simp
      rw [hassoc]
      exact .close (.group hinner htext) hr

def ClosesFrom (depth : Nat) (s : List Char) : Option Char → Prop
  | none => ClosingText depth s
  | some mark => ∃ text r, s = text ++ mark :: r ∧ LiteralText mark text ∧ ClosingText depth r

theorem closesFrom_of_closeGroup? {quote : Option Char} {depth : Nat} (hdepth : 1 ≤ depth)
    {s a b : List Char} (h : closeGroup? quote depth s = some (a, b)) :
    ClosesFrom depth a quote := by
  fun_induction closeGroup? quote depth s generalizing a b with
  | case1 => simp at h
  | case2 => simp at h
  | case3 depth q d r ih =>
    obtain ⟨x, hp, rfl⟩ := exists_of_prepend_eq_some ['\\', d] h
    obtain ⟨text, rest, rfl, htext, hrest⟩ := ih hdepth hp
    exact ⟨'\\' :: d :: text, rest, rfl, htext.escaped, hrest⟩
  | case4 depth c r q hc ih =>
    obtain ⟨x, hp, rfl⟩ := exists_of_prepend_eq_some [c] h
    have hclosing := ih hdepth hp
    by_cases hmark : c = q
    · rw [if_pos hmark] at hclosing
      exact ⟨[], x, by rw [hmark]; rfl, .nil, hclosing⟩
    · rw [if_neg hmark] at hclosing
      obtain ⟨text, rest, rfl, htext, hrest⟩ := hclosing
      exact ⟨c :: text, rest, rfl, htext.plain hmark hc, hrest⟩
  | case5 depth c r hc ih =>
    obtain ⟨x, hp, rfl⟩ := exists_of_prepend_eq_some [c] h
    obtain ⟨text, rest, rfl, htext, hrest⟩ := ih hdepth hp
    obtain ⟨n, rfl⟩ := Nat.exists_eq_add_of_le' hdepth
    exact hrest.literal hc htext
  | case6 depth r _ ih =>
    obtain ⟨x, hp, rfl⟩ := exists_of_prepend_eq_some ['\x7b'] h
    obtain ⟨n, rfl⟩ := Nat.exists_eq_add_of_le' hdepth
    exact (ih (Nat.le_add_left 1 (n + 1)) hp).group
  | case7 depth r hle =>
    obtain ⟨rfl, -⟩ := Prod.mk.inj (Option.some.inj h)
    obtain rfl : depth = 1 := Nat.le_antisymm hle hdepth
    exact ClosingText.nil.close .nil
  | case8 depth r hle _ _ ih =>
    obtain ⟨x, hp, rfl⟩ := exists_of_prepend_eq_some ['\x7d'] h
    obtain ⟨n, rfl⟩ := Nat.exists_eq_add_of_lt (Nat.lt_of_not_le hle)
    have hrest := ih (by omega) hp
    rw [Nat.add_sub_cancel, Nat.add_comm 1 n] at hrest
    rw [Nat.add_comm 1 n]
    exact hrest.close .nil
  | case9 depth c r hmark hopen hclose ih =>
    obtain ⟨x, hp, rfl⟩ := exists_of_prepend_eq_some [c] h
    obtain ⟨n, rfl⟩ := Nat.exists_eq_add_of_le' hdepth
    exact (ih hdepth hp).plain (Bool.eq_false_iff.mpr hmark) hopen hclose

def IsGroup (g : List Char) : Prop :=
  ∃ text, GroupText text ∧ g = '\x7b' :: text ++ ['\x7d']

/-- The group that a brace opens is what the grammar derives there, and there is none to find
where the grammar derives none. -/
theorem group?_eq_some_iff {r g after : List Char} :
    group? ('\x7b' :: r) = some (g, after) ↔ IsGroup g ∧ g ++ after = '\x7b' :: r := by
  constructor
  · intro h
    obtain ⟨happend, -⟩ := append_of_closeGroup? h
    rw [group?, closeGroup?_open] at h
    obtain ⟨x, hclose, rfl⟩ := exists_of_prepend_eq_some ['\x7b'] h
    have hclosing : ClosingText 1 x := closesFrom_of_closeGroup? (Nat.le_refl 1) hclose
    cases hclosing with
    | close htext hnil =>
      cases hnil
      exact ⟨⟨_, htext, rfl⟩, happend⟩
  · rintro ⟨⟨text, htext, rfl⟩, happend⟩
    have hgroup := htext.group?_append after
    rw [← happend, ← hgroup]
    simp

end StaticPreview.Markup
