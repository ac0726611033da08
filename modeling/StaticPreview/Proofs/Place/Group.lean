import StaticPreview.Markup.Braces
import StaticPreview.Proofs.Place.Checked

/-! # Brace groups by their places

The search for the end of a group goes from byte to byte. In a literal a backslash takes only the
next byte with it; what is left of a character behind that byte holds no mark.
-/
namespace StaticPreview.Place
open Text Markup

/-- The place behind the brace that closes the last of `depth` open groups, for bytes that begin at
`place`. -/
def closeGroupAt? (quote : Option Char) (depth place : Nat) : List Char → Option Nat
  | [] => none
  | b :: r =>
    match quote with
    | some q =>
      if b = '\\' then
        match r with
        | [] => none
        | _ :: r' => closeGroupAt? (some q) depth (place + 2) r'
      else closeGroupAt? (if b = q then none else some q) depth (place + 1) r
    | none =>
      if isQuote b then closeGroupAt? (some b) depth (place + 1) r
      else if b = '\x7b' then closeGroupAt? none (depth + 1) (place + 1) r
      else if b = '\x7d' then
        if depth - 1 = 0 then some (place + 1)
        else closeGroupAt? none (depth - 1) (place + 1) r
      else closeGroupAt? none depth (place + 1) r

def groupStop? (s : List Char) (place : Nat) : Option Nat :=
  closeGroupAt? none 0 place ((bytes s).drop place)

theorem closeGroupAt?_outside (depth place : Nat) (b : Char) (r : List Char) :
    closeGroupAt? none depth place (b :: r) =
      if isQuote b then closeGroupAt? (some b) depth (place + 1) r
      else if b = '\x7b' then closeGroupAt? none (depth + 1) (place + 1) r
      else if b = '\x7d' then
        if depth - 1 = 0 then some (place + 1) else closeGroupAt? none (depth - 1) (place + 1) r
      else closeGroupAt? none depth (place + 1) r := rfl

theorem toNat_of_isQuote {c : Char} (h : isQuote c) : c.toNat < 128 := by
  simp only [isQuote, Bool.or_eq_true, beq_iff_eq] at h
  rcases h with (rfl | rfl) | rfl <;> decide

/-- Bytes of characters that are not ASCII change nothing in a reading byte by byte. -/
theorem closeGroupAt?_high {quote : Option Char} (hquote : ∀ q ∈ quote, isQuote q) {run : List Char}
    (hrun : ∀ b ∈ run, 128 ≤ b.toNat) (depth place : Nat) (r : List Char) :
    closeGroupAt? quote depth place (run ++ r) =
      closeGroupAt? quote depth (place + run.length) r := by
  induction run generalizing place with
  | nil => rfl
  | cons b run ih =>
    have hne (d : Char) (hd : d.toNat < 128) : b ≠ d := ne_of_le_toNat (hrun b (by simp)) hd
    have hnext := ih (fun d hd => hrun d (by simp [hd])) (place + 1)
    rw [Nat.add_right_comm, Nat.add_assoc, ← List.length_cons (a := b)] at hnext
    rw [List.cons_append, ← hnext]
    cases quote with
    | some q =>
      rw [closeGroupAt?.eq_def]
      simp [hne '\\' (by decide), hne q (toNat_of_isQuote (hquote q rfl))]
    | none =>
      rw [closeGroupAt?_outside]
      simp [isQuote, hne '"' (by decide), hne '\'' (by decide), hne '\x60' (by decide),
        hne '\x7b' (by decide), hne '\x7d' (by decide)]

theorem closeGroupAt?_literal_cons {c q : Char} (hq : isQuote q) (hc : c ≠ '\\')
    (depth place : Nat) (r : List Char) :
    closeGroupAt? (some q) depth place (bytes (c :: r)) =
      closeGroupAt? (if c = q then none else some q) depth (place + width [c]) (bytes r) := by
  rw [width_singleton]
  by_cases h : c.toNat < 128
  · rw [bytes_cons_of_ascii h, utf8Size_of_ascii h, closeGroupAt?.eq_def]
    simp [hc]
  · have hle := Nat.le_of_not_lt h
    have hquote : ∀ q' ∈ some q, isQuote q' := by simpa using hq
    rw [if_neg (ne_of_le_toNat hle (toNat_of_isQuote hq)), ← length_encode]
    exact closeGroupAt?_high hquote (le_toNat_of_mem_encode hle) depth place (bytes r)

theorem closeGroupAt?_literal_escape {q : Char} (hq : isQuote q) (c : Char) (depth place : Nat)
    (r : List Char) :
    closeGroupAt? (some q) depth place (bytes ('\\' :: c :: r)) =
      closeGroupAt? (some q) depth (place + width ['\\', c]) (bytes r) := by
  obtain ⟨b, more, hc, hmore, hlength⟩ := exists_encode_eq_cons c
  have hbytes : bytes ('\\' :: c :: r) = '\\' :: b :: (more ++ bytes r) := by
    rw [bytes_cons_of_ascii (by decide), bytes, List.flatMap_cons, hc]
    rfl
  have hplace : place + 2 + more.length = place + width ['\\', c] := by
    simp only [width, utf8Size_of_ascii (c := '\\') (by decide)]
    omega
  have hquote : ∀ q' ∈ some q, isQuote q' := by simpa using hq
  rw [hbytes, closeGroupAt?.eq_def]
  change closeGroupAt? (some q) depth (place + 2) (more ++ bytes r) = _
  rw [closeGroupAt?_high hquote hmore, hplace]

theorem closeGroupAt?_mark {c : Char} (hc : isQuote c) (depth place : Nat) (r : List Char) :
    closeGroupAt? none depth place (bytes (c :: r)) =
      closeGroupAt? (some c) depth (place + width [c]) (bytes r) := by
  have hascii := toNat_of_isQuote hc
  rw [bytes_cons_of_ascii hascii, width_singleton, utf8Size_of_ascii hascii,
    closeGroupAt?_outside, if_pos hc]

theorem closeGroupAt?_open (depth place : Nat) (r : List Char) :
    closeGroupAt? none depth place (bytes ('\x7b' :: r)) =
      closeGroupAt? none (depth + 1) (place + width ['\x7b']) (bytes r) := by
  rw [bytes_cons_of_ascii (by decide), closeGroupAt?_outside]
  rfl

theorem closeGroupAt?_close (depth place : Nat) (r : List Char) :
    closeGroupAt? none depth place (bytes ('\x7d' :: r)) =
      if depth ≤ 1 then some (place + width ['\x7d'])
      else closeGroupAt? none (depth - 1) (place + width ['\x7d']) (bytes r) := by
  rw [bytes_cons_of_ascii (by decide), closeGroupAt?_outside]
  simp only [isQuote, ← Nat.sub_eq_zero_iff_le]
  rfl

theorem closeGroupAt?_plain {c : Char} (hquote : isQuote c = false) (hopen : c ≠ '\x7b')
    (hclose : c ≠ '\x7d') (depth place : Nat) (r : List Char) :
    closeGroupAt? none depth place (bytes (c :: r)) =
      closeGroupAt? none depth (place + width [c]) (bytes r) := by
  rw [width_singleton]
  by_cases h : c.toNat < 128
  · rw [bytes_cons_of_ascii h, utf8Size_of_ascii h, closeGroupAt?_outside]
    simp [hquote, hopen, hclose]
  · rw [← length_encode]
    exact closeGroupAt?_high (by simp) (le_toNat_of_mem_encode (Nat.le_of_not_lt h)) depth place
      (bytes r)

/-- What a group is made of is the same byte by byte and character by character. -/
theorem closeGroupAt?_bytes {quote : Option Char} (hquote : ∀ q ∈ quote, isQuote q)
    (depth place : Nat) (r : List Char) :
    closeGroupAt? quote depth place (bytes r) = stopOf place (closeGroup? quote depth r) := by
  fun_induction closeGroup? quote depth r generalizing place with
  | case1 => rfl
  | case2 depth q =>
    rw [bytes_cons_of_ascii (by decide), closeGroupAt?.eq_def]
    rfl
  | case3 depth q d r ih =>
    have hplace := stopOf_prepend place ['\\', d] (closeGroup? (some q) depth r)
    rw [closeGroupAt?_literal_escape (hquote q rfl), ih hquote, ← hplace]
    rfl
  | case4 depth c r q hc ih =>
    have hplace := stopOf_prepend place [c] (closeGroup? (if c = q then none else some q) depth r)
    rw [closeGroupAt?_literal_cons (hquote q rfl) hc, ih (by split <;> simp [hquote]), ← hplace]
    rfl
  | case5 depth c r hc ih =>
    have hplace := stopOf_prepend place [c] (closeGroup? (some c) depth r)
    rw [closeGroupAt?_mark hc, ih (by simpa using hc), ← hplace]
    rfl
  | case6 depth r _ ih =>
    have hplace := stopOf_prepend place ['\x7b'] (closeGroup? none (depth + 1) r)
    rw [closeGroupAt?_open, ih hquote, ← hplace]
    rfl
  | case7 depth r hdepth => rw [closeGroupAt?_close, if_pos hdepth, stopOf_some]
  | case8 depth r hdepth _ _ ih =>
    have hplace := stopOf_prepend place ['\x7d'] (closeGroup? none (depth - 1) r)
    rw [closeGroupAt?_close, if_neg hdepth, ih hquote, ← hplace]
    rfl
  | case9 depth c r hmark hopen hclose ih =>
    have hplace := stopOf_prepend place [c] (closeGroup? none depth r)
    rw [closeGroupAt?_plain (Bool.eq_false_iff.mpr hmark) hopen hclose, ih hquote, ← hplace]
    rfl

theorem groupStop?_append (a r : List Char) :
    groupStop? (a ++ r) (width a) = stopOf (width a) (group? r) := by
  rw [groupStop?, drop_bytes, group?]
  exact closeGroupAt?_bytes (by simp) 0 (width a) r

theorem exists_eq_concat_of_closeGroup? {quote : Option Char} {depth : Nat} {s a b : List Char}
    (h : closeGroup? quote depth s = some (a, b)) : ∃ x, a = x ++ ['\x7d'] := by
  fun_induction closeGroup? quote depth s generalizing a b with
  | case1 => simp at h
  | case2 => simp at h
  | case3 depth q d r ih =>
    obtain ⟨⟨x, y⟩, hp, hxy⟩ := Option.map_eq_some_iff.mp h
    obtain ⟨rfl, rfl⟩ := Prod.mk.inj hxy
    obtain ⟨x, rfl⟩ := ih hp
    exact ⟨'\\' :: d :: x, rfl⟩
  | case7 =>
    obtain ⟨rfl, rfl⟩ := Prod.mk.inj (Option.some.inj h)
    exact ⟨[], rfl⟩
  | _ =>
    obtain ⟨⟨x, y⟩, hp, hxy⟩ := Option.map_eq_some_iff.mp h
    obtain ⟨rfl, rfl⟩ := Prod.mk.inj hxy
    rename_i ih
    obtain ⟨x, rfl⟩ := ih hp
    exact ⟨_ :: x, rfl⟩

/-- A group that begins with a brace has another brace at its end. -/
theorem exists_of_group? {r group after : List Char}
    (h : group? ('\x7b' :: r) = some (group, after)) :
    ∃ inner, group = '\x7b' :: (inner ++ ['\x7d']) ∧ inner ++ '\x7d' :: after = r := by
  obtain ⟨happend, hne⟩ := append_of_closeGroup? h
  obtain ⟨x, rfl⟩ := exists_eq_concat_of_closeGroup? h
  cases x with
  | nil => simp at happend
  | cons c inner =>
    obtain ⟨rfl, hr⟩ := List.cons.inj happend
    exact ⟨inner, rfl, by simpa using hr⟩

end StaticPreview.Place
