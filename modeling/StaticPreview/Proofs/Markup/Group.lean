import StaticPreview.Markup.Braces
import StaticPreview.Proofs.Text.Characters
import StaticPreview.Proofs.Text.Prepend

/-! # The grammar of brace groups

A group holds further groups, closed literals, and any characters but braces and the marks of
literals. Reading passes over it as a whole, whatever follows.
-/
namespace StaticPreview.Markup
open Text

inductive LiteralText (mark : Char) : List Char → Prop
  | nil : LiteralText mark []
  | plain {c : Char} {r : List Char} (hmark : c ≠ mark) (hescape : c ≠ '\\')
      (hr : LiteralText mark r) : LiteralText mark (c :: r)
  | escaped {c : Char} {r : List Char} (hr : LiteralText mark r) : LiteralText mark ('\\' :: c :: r)

inductive GroupText : List Char → Prop
  | nil : GroupText []
  | plain {c : Char} {r : List Char} (hquote : isQuote c = false) (hopen : c ≠ '\x7b')
      (hclose : c ≠ '\x7d') (hr : GroupText r) : GroupText (c :: r)
  | literal {mark : Char} {text r : List Char} (hmark : isQuote mark)
      (htext : LiteralText mark text) (hr : GroupText r) : GroupText (mark :: text ++ mark :: r)
  | group {inner r : List Char} (hinner : GroupText inner) (hr : GroupText r) :
      GroupText ('\x7b' :: inner ++ '\x7d' :: r)

theorem LiteralText.of_plain {mark : Char} {text : List Char}
    (h : ∀ c ∈ text, c ≠ mark ∧ c ≠ '\\') : LiteralText mark text := by
  induction text with
  | nil => exact .nil
  | cons c r ih =>
    obtain ⟨⟨hmark, hescape⟩, hr⟩ := List.forall_mem_cons.mp h
    exact .plain hmark hescape (ih hr)

theorem GroupText.plain_append {p r : List Char}
    (hp : ∀ c ∈ p, isQuote c = false ∧ c ≠ '\x7b' ∧ c ≠ '\x7d') (hr : GroupText r) :
    GroupText (p ++ r) := by
  induction p with
  | nil => exact hr
  | cons c p ih =>
    obtain ⟨⟨hquote, hopen, hclose⟩, hp⟩ := List.forall_mem_cons.mp hp
    exact .plain hquote hopen hclose (ih hp)

/-- The text of a spread. -/
theorem GroupText.dots {text : List Char} (h : GroupText text) :
    GroupText ('.' :: '.' :: '.' :: text) :=
  plain_append (p := ['.', '.', '.']) (by decide) h

theorem closeGroup?_outside (depth : Nat) (c : Char) (s : List Char) :
    closeGroup? none depth (c :: s) =
      if isQuote c then prepend [c] (closeGroup? (some c) depth s)
      else if c = '\x7b' then prepend [c] (closeGroup? none (depth + 1) s)
      else if c = '\x7d' then
        if depth ≤ 1 then some ([c], s) else prepend [c] (closeGroup? none (depth - 1) s)
      else prepend [c] (closeGroup? none depth s) := rfl

theorem closeGroup?_literal_cons {mark c : Char} (hc : c ≠ '\\') (depth : Nat) (s : List Char) :
    closeGroup? (some mark) depth (c :: s) =
      prepend [c] (closeGroup? (if c = mark then none else some mark) depth s) := by
  cases s <;> simp [closeGroup?, hc, prepend]

theorem closeGroup?_literal_escape (mark c : Char) (depth : Nat) (s : List Char) :
    closeGroup? (some mark) depth ('\\' :: c :: s) =
      prepend ['\\', c] (closeGroup? (some mark) depth s) := by
  simp [closeGroup?, prepend]

theorem closeGroup?_mark {mark : Char} (hmark : isQuote mark) (depth : Nat) (s : List Char) :
    closeGroup? none depth (mark :: s) = prepend [mark] (closeGroup? (some mark) depth s) := by
  rw [closeGroup?_outside, if_pos hmark]

theorem closeGroup?_open (depth : Nat) (s : List Char) :
    closeGroup? none depth ('\x7b' :: s) = prepend ['\x7b'] (closeGroup? none (depth + 1) s) := by
  simp [closeGroup?_outside, isQuote]

theorem closeGroup?_close (depth : Nat) (s : List Char) :
    closeGroup? none depth ('\x7d' :: s) =
      if depth ≤ 1 then some (['\x7d'], s)
      else prepend ['\x7d'] (closeGroup? none (depth - 1) s) := by
  simp [closeGroup?_outside, isQuote]

theorem closeGroup?_plain {c : Char} (hquote : isQuote c = false) (hopen : c ≠ '\x7b')
    (hclose : c ≠ '\x7d') (depth : Nat) (s : List Char) :
    closeGroup? none depth (c :: s) = prepend [c] (closeGroup? none depth s) := by
  simp [closeGroup?_outside, hquote, hopen, hclose]

/-- A literal inside a group is passed over as a whole, braces in it included. -/
theorem LiteralText.closeGroup?_append {mark : Char} (hmark : isQuote mark) {text : List Char}
    (h : LiteralText mark text) (depth : Nat) (s : List Char) :
    closeGroup? (some mark) depth (text ++ mark :: s) =
      prepend (text ++ [mark]) (closeGroup? none depth s) := by
  induction h with
  | nil =>
    have hescape : mark ≠ '\\' := by
      rintro rfl
      simp [isQuote] at hmark
    simp [closeGroup?_literal_cons hescape]
  | plain hne hescape _ ih =>
    rw [List.cons_append, closeGroup?_literal_cons hescape, if_neg hne, ih]
    simp
  | escaped _ ih =>
    rw [List.cons_append, List.cons_append, closeGroup?_literal_escape, ih]
    simp

/-- The text of a group leaves the depth as it is. -/
theorem GroupText.closeGroup?_append {text : List Char} (h : GroupText text) {depth : Nat}
    (hdepth : 1 ≤ depth) (s : List Char) :
    closeGroup? none depth (text ++ s) = prepend text (closeGroup? none depth s) := by
  induction h generalizing depth s with
  | nil => simp
  | plain hquote hopen hclose _ ih =>
    rw [List.cons_append, closeGroup?_plain hquote hopen hclose, ih hdepth]
    simp
  | @literal mark text r hmark htext _ ih =>
    have hassoc : mark :: text ++ mark :: r ++ s = mark :: (text ++ mark :: (r ++ s)) := by simp
    rw [hassoc, closeGroup?_mark hmark, htext.closeGroup?_append hmark, ih hdepth]
    simp
  | @group inner r _ _ ihinner ih =>
    have hassoc : '\x7b' :: inner ++ '\x7d' :: r ++ s =
        '\x7b' :: (inner ++ '\x7d' :: (r ++ s)) := by simp
    rw [hassoc, closeGroup?_open, ihinner (Nat.le_add_left 1 depth), closeGroup?_close,
      if_neg (by omega), Nat.add_sub_cancel, ih hdepth]
    simp

theorem GroupText.group?_append {text : List Char} (h : GroupText text) (s : List Char) :
    group? ('\x7b' :: (text ++ '\x7d' :: s)) = some ('\x7b' :: text ++ ['\x7d'], s) := by
  rw [group?, closeGroup?_open, h.closeGroup?_append (Nat.le_refl 1),
    closeGroup?_close, if_pos (Nat.le_refl 1)]
  simp

end StaticPreview.Markup
