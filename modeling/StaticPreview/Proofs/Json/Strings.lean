import StaticPreview.Json.Reader
import StaticPreview.Json.Value
import StaticPreview.Proofs.Text.Readers
import StaticPreview.Proofs.Text.Runs

/-! # Strings that are read again

A string is written with escapes for the characters that cannot stand in it, and read up to the
quotation mark that ends it.
-/
namespace StaticPreview.Json
open Text Reader

theorem escapeChar_of_isPlain {c : Char} (h : isPlain c) : escapeChar c = [c] := by
  simp only [isPlain, Bool.and_eq_true, bne_iff_ne, decide_eq_true_eq] at h
  obtain ⟨⟨hquote, hslash⟩, hlarge⟩ := h
  have hne (d : Char) (hd : d.toNat < 0x20) : c ≠ d := by
    rintro rfl
    omega
  rw [escapeChar, if_neg hquote, if_neg hslash, if_neg (hne _ (by decide)),
    if_neg (hne _ (by decide)), if_neg (hne _ (by decide)), if_neg (hne _ (by decide)),
    if_neg (hne _ (by decide)), if_neg (by omega)]

theorem textOf?_unit {n : Nat} (h : n < 0xD800) (more : List Piece) :
    textOf? (.unit n :: more) = (textOf? more).map (Char.ofNat n :: ·) := by
  have hfirst : ¬(0xD800 ≤ n ∧ n < 0xDC00) := by omega
  have hsecond : ¬(0xDC00 ≤ n ∧ n < 0xE000) := by omega
  have hhalf : ¬(0xD800 ≤ n ∧ n < 0xE000) := by omega
  rcases more with - | ⟨_ | m, more⟩
  · simp [textOf?, hhalf]
  · simp [textOf?, hhalf]
  · rw [textOf?, if_neg hfirst, if_neg hsecond]

theorem hexDigits_of_lt : ∀ n < 0x20, isHexDigit (hexDigit (n / 16)) ∧
    isHexDigit (hexDigit (n % 16)) ∧
      baseValue 16 ['0', '0', hexDigit (n / 16), hexDigit (n % 16)] = n := by
  decide

theorem escaped_unit {a b : Char} (ha : isHexDigit a) (hb : isHexDigit b) (rest : List Char) :
    escaped ('\\' :: 'u' :: '0' :: '0' :: a :: b :: rest) =
      some (.unit (baseValue 16 ['0', '0', a, b]), rest) := by
  have hzero : isHexDigit '0' := by decide
  have hfour : exactly 4 isHexDigit ('0' :: '0' :: a :: b :: rest) =
      some (['0', '0', a, b], rest) := by
    simp [exactly, ha, hb, hzero]
  have hunit : escaped ('\\' :: 'u' :: '0' :: '0' :: a :: b :: rest) =
      (exactly 4 isHexDigit ('0' :: '0' :: a :: b :: rest)).bind
        fun p => some (.unit (baseValue 16 p.1), p.2) := rfl
  rw [hunit, hfour, Option.bind_some]

/-- An escape is read as a piece that stands for the character. -/
theorem exists_escaped {c : Char} (h : ¬isPlain c) :
    ∃ piece, (∀ rest, escaped (escapeChar c ++ rest) = some (piece, rest)) ∧
      ∀ more, textOf? (piece :: more) = (textOf? more).map (c :: ·) := by
  have hplain (d : Char) : ∀ more, textOf? (.plain [d] :: more) = (textOf? more).map (d :: ·) :=
    fun _ => rfl
  unfold escapeChar
  split
  next hc => exact ⟨.plain ['"'], fun _ => rfl, hc ▸ hplain _⟩
  split
  next hc => exact ⟨.plain ['\\'], fun _ => rfl, hc ▸ hplain _⟩
  split
  next hc => exact ⟨.plain ['\x08'], fun _ => rfl, hc ▸ hplain _⟩
  split
  next hc => exact ⟨.plain ['\x0c'], fun _ => rfl, hc ▸ hplain _⟩
  split
  next hc => exact ⟨.plain ['\n'], fun _ => rfl, hc ▸ hplain _⟩
  split
  next hc => exact ⟨.plain ['\r'], fun _ => rfl, hc ▸ hplain _⟩
  split
  next hc => exact ⟨.plain ['\t'], fun _ => rfl, hc ▸ hplain _⟩
  split
  next hsmall =>
    obtain ⟨hhigh, hlow, hvalue⟩ := hexDigits_of_lt c.toNat hsmall
    refine ⟨.unit c.toNat, fun rest => ?_, fun more => ?_⟩
    · exact (escaped_unit hhigh hlow rest).trans (by rw [hvalue])
    · rw [textOf?_unit (by omega), Char.ofNat_toNat]
  next hquote hslash _ _ _ _ _ hlarge =>
    refine absurd ?_ h
    simp [isPlain, hquote, hslash]
    omega

/-- One part of a string: a run of plain characters, or an escape. -/
def part : Reader Piece :=
  (Piece.plain <$> takeWhile1 isPlain) <|> escaped

theorem part_of_not_isPlain {c : Char} (h : ¬isPlain c) (s : List Char) :
    part (c :: s) = escaped (c :: s) := by
  have hnone : (c :: s).takeWhile isPlain = [] := by simp [h]
  rw [part, orElse_apply, map_apply, takeWhile1_apply, if_pos hnone, Option.map_none,
    Option.none_or]

theorem part_run {run s : List Char} (hne : run ≠ []) (hrun : ∀ c ∈ run, isPlain c)
    (hs : ∀ c ∈ s.head?, isPlain c = false) : part (run ++ s) = some (.plain run, s) := by
  rw [part, orElse_apply, map_apply, takeWhile1_apply, takeWhile_append_of_head? hrun hs,
    dropWhile_append_of_head? hrun hs, if_neg hne, Option.map_some, Option.some_or]

theorem head?_escapeChar {c : Char} (h : ¬isPlain c) (s : List Char) :
    (escapeChar c ++ s).head? = some '\\' := by
  obtain ⟨piece, hpiece, -⟩ := exists_escaped h
  have hescaped := hpiece s
  rw [escaped, bind_apply] at hescaped
  cases happ : escapeChar c ++ s with
  | nil =>
    rw [happ] at hescaped
    cases hescaped
  | cons d r =>
    rw [happ, char_cons] at hescaped
    by_cases hd : d = '\\'
    · rw [hd, List.head?_cons]
    · simp [hd] at hescaped

theorem flatMap_escapeChar_of_plain {run : List Char} (h : ∀ c ∈ run, isPlain c) :
    run.flatMap escapeChar = run := by
  induction run with
  | nil => rfl
  | cons c r ih =>
    obtain ⟨hc, hr⟩ := List.forall_mem_cons.mp h
    rw [List.flatMap_cons, escapeChar_of_isPlain hc, ih hr]
    rfl

/-- A run of plain characters ends where an escape begins, or with the string. -/
theorem head?_flatMap_escapeChar {s : List Char} (h : ∀ c ∈ s.head?, isPlain c = false)
    (rest : List Char) :
    ∀ c ∈ (s.flatMap escapeChar ++ '"' :: rest).head?, isPlain c = false := by
  cases s with
  | nil =>
    rintro c ⟨rfl⟩
    rfl
  | cons d r =>
    have hd : ¬isPlain d := by simp [h d rfl]
    rw [List.flatMap_cons, List.append_assoc, head?_escapeChar hd]
    rintro c ⟨rfl⟩
    rfl

/-- The parts of a string are read up to the quotation mark that ends it. -/
theorem exists_manyUpTo_part (n : Nat) {s : List Char} (hn : s.length ≤ n) (rest : List Char) :
    ∃ pieces, manyUpTo part n (s.flatMap escapeChar ++ '"' :: rest) = some (pieces, '"' :: rest) ∧
      textOf? pieces = some s := by
  induction n generalizing s with
  | zero =>
    obtain rfl := List.eq_nil_of_length_eq_zero (Nat.le_zero.mp hn)
    exact ⟨[], rfl, rfl⟩
  | succ n ih =>
    cases s with
    | nil => exact ⟨[], manyUpTo_of_none rfl _, rfl⟩
    | cons c r =>
      by_cases hc : isPlain c
      · have hsplit := List.takeWhile_append_dropWhile (p := isPlain) (l := c :: r)
        have hrun : ∀ d ∈ (c :: r).takeWhile isPlain, isPlain d :=
          List.all_eq_true.mp List.all_takeWhile
        have htail : ∀ d ∈ ((c :: r).dropWhile isPlain).head?, isPlain d = false := by
          intro d hd
          have hstops := List.head?_dropWhile_not isPlain (c :: r)
          rwa [Option.mem_def.mp hd] at hstops
        have hne : (c :: r).takeWhile isPlain ≠ [] := by simp [hc]
        generalize (c :: r).takeWhile isPlain = run at hsplit hrun hne
        generalize (c :: r).dropWhile isPlain = tail at hsplit htail
        have hlength := congrArg List.length hsplit
        rw [List.length_append] at hlength
        have hpos := List.length_pos_iff.mpr hne
        obtain ⟨pieces, hpieces, htext⟩ := ih (s := tail) (by omega)
        have hfirst := part_run hne hrun (head?_flatMap_escapeChar htail rest)
        refine ⟨.plain run :: pieces, ?_, ?_⟩
        · rw [← hsplit, List.flatMap_append, flatMap_escapeChar_of_plain hrun, List.append_assoc]
          exact manyUpTo_of_some hfirst hpieces
        · rw [textOf?, htext, Option.map_some, hsplit]
      · obtain ⟨piece, hpiece, hadd⟩ := exists_escaped hc
        obtain ⟨pieces, hpieces, htext⟩ := ih (Nat.le_of_succ_le_succ hn)
        have hfirst : part (escapeChar c ++ (r.flatMap escapeChar ++ '"' :: rest)) =
            some (piece, r.flatMap escapeChar ++ '"' :: rest) := by
          have hhead := head?_escapeChar hc (r.flatMap escapeChar ++ '"' :: rest)
          obtain ⟨more, hmore⟩ := List.head?_eq_some_iff.mp hhead
          rw [hmore, part_of_not_isPlain (by decide), ← hmore, hpiece]
        refine ⟨piece :: pieces, ?_, ?_⟩
        · rw [List.flatMap_cons, List.append_assoc]
          exact manyUpTo_of_some hfirst hpieces
        · rw [hadd, htext, Option.map_some]

theorem escapeChar_ne_nil (c : Char) : escapeChar c ≠ [] := by
  unfold escapeChar
  repeat' split
  all_goals simp

theorem string_quote (s rest : List Char) : string (quote s ++ rest) = some (some s, rest) := by
  have hbody : quote s ++ rest = '"' :: (s.flatMap escapeChar ++ '"' :: rest) := by
    simp [quote]
  have hlength : s.length ≤ (s.flatMap escapeChar ++ '"' :: rest).length := by
    have hescaped := length_le_length_flatMap escapeChar_ne_nil s
    rw [List.length_append]
    omega
  obtain ⟨pieces, hpieces, htext⟩ := exists_manyUpTo_part _ hlength rest
  have hmany : many part (s.flatMap escapeChar ++ '"' :: rest) = some (pieces, '"' :: rest) :=
    hpieces
  rw [hbody, string, bind_apply, char_cons, if_pos rfl, Option.bind_some, bind_apply]
  change (many part _).bind _ = _
  rw [hmany, Option.bind_some, bind_apply, char_cons, if_pos rfl, Option.bind_some, pure_apply,
    htext]

end StaticPreview.Json
