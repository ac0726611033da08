import StaticPreview.Text.Raw

/-! # Raw texts that are texts

The bytes of a text are read back as its characters. Whatever else the bytes of a raw text are, a
character below 128 stands for itself in them and for nothing else.
-/
namespace StaticPreview
open Text

theorem Text.utf8Bytes_append (s t : String) :
    utf8Bytes (s ++ t) = utf8Bytes s ++ utf8Bytes t := by
  rw [utf8Bytes, String.toList_append, List.flatMap_append, utf8Bytes, utf8Bytes]

namespace RawText

@[simp]
theorem ofList_toList (r : RawText) : ofList r.toList = r := rfl

@[simp]
theorem toList_ofList (l : List UInt8) : (ofList l).toList = l := rfl

@[simp]
theorem toList_append (r t : RawText) : (r ++ t).toList = r.toList ++ t.toList := rfl

theorem toList_inj {r t : RawText} : r.toList = t.toList ↔ r = t := RawText.ext_iff.symm

@[simp]
theorem toList_empty : (ofText "").toList = [] := rfl

theorem toList_eq_nil_iff {r : RawText} : r.toList = [] ↔ r = "" :=
  RawText.ext_iff.symm

@[simp]
theorem empty_append (r : RawText) : ofText "" ++ r = r := rfl

@[simp]
theorem append_empty (r : RawText) : r ++ ofText "" = r :=
  RawText.ext (List.append_nil _)

theorem append_assoc (r t u : RawText) : r ++ t ++ u = r ++ (t ++ u) :=
  RawText.ext (List.append_assoc _ _ _)

theorem size_append (r t : RawText) : (r ++ t).size = r.size + t.size := List.length_append

theorem ofText_append (s t : String) : ofText (s ++ t) = ofText s ++ ofText t :=
  RawText.ext (utf8Bytes_append s t)

section
variable {b x y z : UInt8} (rest : List UInt8)

theorem chars_one (hb : b.toNat < 0x80) :
    chars 0 (b :: rest) = some (.ofNat b.toNat) :: chars 0 rest := by
  simp [chars, lead?, hb, goesOn, char]

theorem chars_two (hlow : 0xC2 ≤ b.toNat) (hhigh : b.toNat < 0xE0)
    (hx : 0x80 ≤ x.toNat ∧ x.toNat ≤ 0xBF) :
    chars 0 (b :: x :: rest) =
      some (.ofNat ((b.toNat - 0xC0) * 64 + x.toNat % 64)) :: chars 0 rest := by
  have hlead : lead? b.toNat = some ⟨b.toNat - 0xC0, 1, 0x80, 0xBF⟩ := by
    rw [lead?, if_neg (by omega), if_neg (by omega), if_pos hhigh]
  simp [chars, hlead, goesOn, hx, char]

theorem chars_three (hlow : 0xE0 ≤ b.toNat) (hhigh : b.toNat < 0xF0)
    (hx : (if b.toNat = 0xE0 then 0xA0 else 0x80) ≤ x.toNat ∧
      x.toNat ≤ if b.toNat = 0xED then 0x9F else 0xBF)
    (hy : 0x80 ≤ y.toNat ∧ y.toNat ≤ 0xBF) :
    chars 0 (b :: x :: y :: rest) =
      some (.ofNat (((b.toNat - 0xE0) * 64 + x.toNat % 64) * 64 + y.toNat % 64)) ::
        chars 0 rest := by
  have hlead : lead? b.toNat = some ⟨b.toNat - 0xE0, 2,
      if b.toNat = 0xE0 then 0xA0 else 0x80, if b.toNat = 0xED then 0x9F else 0xBF⟩ := by
    rw [lead?, if_neg (by omega), if_neg (by omega), if_neg (by omega), if_pos hhigh]
  simp [chars, hlead, goesOn, hx, hy, char]

theorem chars_four (hlow : 0xF0 ≤ b.toNat) (hhigh : b.toNat < 0xF5)
    (hx : (if b.toNat = 0xF0 then 0x90 else 0x80) ≤ x.toNat ∧
      x.toNat ≤ if b.toNat = 0xF4 then 0x8F else 0xBF)
    (hy : 0x80 ≤ y.toNat ∧ y.toNat ≤ 0xBF) (hz : 0x80 ≤ z.toNat ∧ z.toNat ≤ 0xBF) :
    chars 0 (b :: x :: y :: z :: rest) =
      some (.ofNat ((((b.toNat - 0xF0) * 64 + x.toNat % 64) * 64 + y.toNat % 64) * 64 +
        z.toNat % 64)) :: chars 0 rest := by
  have hlead : lead? b.toNat = some ⟨b.toNat - 0xF0, 3,
      if b.toNat = 0xF0 then 0x90 else 0x80, if b.toNat = 0xF4 then 0x8F else 0xBF⟩ := by
    rw [lead?, if_neg (by omega), if_neg (by omega), if_neg (by omega), if_neg (by omega),
      if_pos hhigh]
  simp [chars, hlead, goesOn, hx, hy, hz, char]

/-- A character is read from the bytes that it is written as. -/
theorem chars_utf8EncodeChar_append (c : Char) :
    chars 0 (String.utf8EncodeChar c ++ rest) = some c :: chars 0 rest := by
  have hvalid : c.val.toNat < 0xD800 ∨ 0xDFFF < c.val.toNat ∧ c.val.toNat < 0x110000 := c.valid
  have hc : Char.ofNat c.val.toNat = c := Char.ofNat_toNat c
  have hbyte {n : Nat} (h : n < 256) : (UInt8.ofNat n).toNat = n := by
    rw [UInt8.toNat_ofNat', Nat.mod_eq_of_lt h]
  unfold String.utf8EncodeChar
  generalize c.val.toNat = v at hvalid hc
  -- A further byte holds six bits of the number.
  have htail (n : Nat) : (UInt8.ofNat (n % 64 + 128)).toNat = n % 64 + 128 := hbyte (by omega)
  dsimp only
  split
  next hone =>
    have hfirst : (UInt8.ofNat v).toNat = v := hbyte (by omega)
    have h := chars_one rest (b := .ofNat v) (by omega)
    rwa [hfirst, hc] at h
  split
  next htwo =>
    have hfirst : (UInt8.ofNat (v / 64 % 32 + 192)).toNat = v / 64 + 192 :=
      (hbyte (by omega)).trans (by omega)
    have h := chars_two rest (b := .ofNat (v / 64 % 32 + 192)) (x := .ofNat (v % 64 + 128))
      (by omega) (by omega) (by rw [htail]; omega)
    rw [hfirst, htail] at h
    have hvalue : (v / 64 + 192 - 192) * 64 + (v % 64 + 128) % 64 = v := by omega
    rwa [hvalue, hc] at h
  split
  next hthree =>
    have hfirst : (UInt8.ofNat (v / 4096 % 16 + 224)).toNat = v / 4096 + 224 :=
      (hbyte (by omega)).trans (by omega)
    have h := chars_three rest (b := .ofNat (v / 4096 % 16 + 224))
      (x := .ofNat (v / 64 % 64 + 128)) (y := .ofNat (v % 64 + 128)) (by omega) (by omega)
      (by rw [hfirst, htail]; split <;> split <;> omega) (by rw [htail]; omega)
    rw [hfirst, htail, htail] at h
    have hvalue : ((v / 4096 + 224 - 224) * 64 + (v / 64 % 64 + 128) % 64) * 64 +
        (v % 64 + 128) % 64 = v := by omega
    rwa [hvalue, hc] at h
  next =>
    have hfirst : (UInt8.ofNat (v / 262144 % 8 + 240)).toNat = v / 262144 + 240 :=
      (hbyte (by omega)).trans (by omega)
    have h := chars_four rest (b := .ofNat (v / 262144 % 8 + 240))
      (x := .ofNat (v / 4096 % 64 + 128)) (y := .ofNat (v / 64 % 64 + 128))
      (z := .ofNat (v % 64 + 128)) (by omega) (by omega)
      (by rw [hfirst, htail]; split <;> split <;> omega) (by rw [htail]; omega)
      (by rw [htail]; omega)
    rw [hfirst, htail, htail, htail] at h
    have hvalue : (((v / 262144 + 240 - 240) * 64 + (v / 4096 % 64 + 128) % 64) * 64 +
        (v / 64 % 64 + 128) % 64) * 64 + (v % 64 + 128) % 64 = v := by omega
    rwa [hvalue, hc] at h

end

theorem chars_flatMap (s : List Char) : chars 0 (s.flatMap String.utf8EncodeChar) = s.map some := by
  induction s with
  | nil => rfl
  | cons c r ih => rw [List.flatMap_cons, chars_utf8EncodeChar_append _ c, ih, List.map_cons]

@[simp]
theorem shown_ofText (s : String) : (ofText s).shown = s := by
  rw [shown, ofText, utf8Bytes, chars_flatMap, List.map_map]
  exact (congrArg String.ofList (List.map_id s.toList)).trans String.ofList_toList

theorem ofText_inj {s t : String} : ofText s = ofText t ↔ s = t := by
  constructor
  · intro h
    rw [← shown_ofText s, h, shown_ofText]
  · rintro rfl
    rfl

theorem toNat_of_isValidChar {n : Nat} (h : n.isValidChar) : (Char.ofNat n).val.toNat = n := by
  rw [Char.ofNat, dif_pos h]
  rfl

theorem goesOn_eq_succ {n low high : Nat} {rest : List UInt8}
    (h : goesOn (n + 1) low high rest = n + 1) :
    ∃ x more, rest = x :: more ∧ (low ≤ x.toNat ∧ x.toNat ≤ high) ∧
      goesOn n 0x80 0xBF more = n := by
  cases rest with
  | nil => simp [goesOn] at h
  | cons x more =>
    rw [goesOn] at h
    split at h
    next hx => exact ⟨x, more, rfl, hx, Nat.succ.inj h⟩
    next => cases h

theorem exists_utf8EncodeChar_two {b x : UInt8} (hlow : 0xC2 ≤ b.toNat) (hhigh : b.toNat < 0xE0)
    (hx : 0x80 ≤ x.toNat ∧ x.toNat ≤ 0xBF) : ∃ c, String.utf8EncodeChar c = [b, x] := by
  have hvalid : ((b.toNat - 0xC0) * 64 + x.toNat % 64).isValidChar := .inl (by omega)
  refine ⟨.ofNat ((b.toNat - 0xC0) * 64 + x.toNat % 64), ?_⟩
  simp only [String.utf8EncodeChar, toNat_of_isValidChar hvalid]
  rw [if_neg (by omega), if_pos (by omega)]
  simp only [List.cons.injEq, ← UInt8.toNat_inj, UInt8.toNat_ofNat', and_true]
  omega

theorem exists_utf8EncodeChar_three {b x y : UInt8} (hlow : 0xE0 ≤ b.toNat)
    (hhigh : b.toNat < 0xF0)
    (hx : (if b.toNat = 0xE0 then 0xA0 else 0x80) ≤ x.toNat ∧
      x.toNat ≤ if b.toNat = 0xED then 0x9F else 0xBF)
    (hy : 0x80 ≤ y.toNat ∧ y.toNat ≤ 0xBF) : ∃ c, String.utf8EncodeChar c = [b, x, y] := by
  have hvalid : (((b.toNat - 0xE0) * 64 + x.toNat % 64) * 64 + y.toNat % 64).isValidChar := by
    rw [Nat.isValidChar]
    split at hx <;> split at hx <;> omega
  have hleast : 0x800 ≤ ((b.toNat - 0xE0) * 64 + x.toNat % 64) * 64 + y.toNat % 64 := by
    split at hx <;> split at hx <;> omega
  have hx' : 0x80 ≤ x.toNat ∧ x.toNat ≤ 0xBF := by
    split at hx <;> split at hx <;> omega
  refine ⟨.ofNat (((b.toNat - 0xE0) * 64 + x.toNat % 64) * 64 + y.toNat % 64), ?_⟩
  simp only [String.utf8EncodeChar, toNat_of_isValidChar hvalid]
  rw [if_neg (by omega), if_neg (by omega), if_pos (by omega)]
  simp only [List.cons.injEq, ← UInt8.toNat_inj, UInt8.toNat_ofNat', and_true]
  omega

theorem exists_utf8EncodeChar_four {b x y z : UInt8} (hlow : 0xF0 ≤ b.toNat)
    (hhigh : b.toNat < 0xF5)
    (hx : (if b.toNat = 0xF0 then 0x90 else 0x80) ≤ x.toNat ∧
      x.toNat ≤ if b.toNat = 0xF4 then 0x8F else 0xBF)
    (hy : 0x80 ≤ y.toNat ∧ y.toNat ≤ 0xBF) (hz : 0x80 ≤ z.toNat ∧ z.toNat ≤ 0xBF) :
    ∃ c, String.utf8EncodeChar c = [b, x, y, z] := by
  have hvalid : ((((b.toNat - 0xF0) * 64 + x.toNat % 64) * 64 + y.toNat % 64) * 64 +
      z.toNat % 64).isValidChar := by
    rw [Nat.isValidChar]
    split at hx <;> split at hx <;> omega
  have hleast : 0x10000 ≤ (((b.toNat - 0xF0) * 64 + x.toNat % 64) * 64 + y.toNat % 64) * 64 +
      z.toNat % 64 := by
    split at hx <;> split at hx <;> omega
  have hx' : 0x80 ≤ x.toNat ∧ x.toNat ≤ 0xBF := by
    split at hx <;> split at hx <;> omega
  refine ⟨.ofNat ((((b.toNat - 0xF0) * 64 + x.toNat % 64) * 64 + y.toNat % 64) * 64 +
    z.toNat % 64), ?_⟩
  simp only [String.utf8EncodeChar, toNat_of_isValidChar hvalid]
  rw [if_neg (by omega), if_neg (by omega), if_neg (by omega)]
  simp only [List.cons.injEq, ← UInt8.toNat_inj, UInt8.toNat_ofNat', and_true]
  omega

/-- Bytes that go on as their first one asks begin with a character as it is written. -/
theorem exists_utf8EncodeChar_append {b : UInt8} {lead : Lead} {rest : List UInt8}
    (hlead : lead? b.toNat = some lead)
    (h : goesOn lead.more lead.low lead.high rest = lead.more) :
    ∃ c more, b :: rest = String.utf8EncodeChar c ++ more := by
  unfold lead? at hlead
  split at hlead
  next hone =>
    have hvalid : b.toNat.isValidChar := .inl (by omega)
    refine ⟨.ofNat b.toNat, rest, ?_⟩
    simp only [String.utf8EncodeChar, toNat_of_isValidChar hvalid]
    rw [if_pos (by omega), UInt8.ofNat_toNat, List.singleton_append]
  split at hlead
  · cases hlead
  split at hlead
  next hlow hhigh =>
    obtain rfl := Option.some.inj hlead
    obtain ⟨x, more, rfl, hx, -⟩ := goesOn_eq_succ h
    obtain ⟨c, hc⟩ := exists_utf8EncodeChar_two (by omega) hhigh hx
    exact ⟨c, more, by rw [hc]; rfl⟩
  split at hlead
  next hlow hhigh =>
    obtain rfl := Option.some.inj hlead
    obtain ⟨x, more, rfl, hx, h⟩ := goesOn_eq_succ h
    obtain ⟨y, more, rfl, hy, -⟩ := goesOn_eq_succ h
    obtain ⟨c, hc⟩ := exists_utf8EncodeChar_three (by omega) hhigh hx hy
    exact ⟨c, more, by rw [hc]; rfl⟩
  split at hlead
  next hlow hhigh =>
    obtain rfl := Option.some.inj hlead
    obtain ⟨x, more, rfl, hx, h⟩ := goesOn_eq_succ h
    obtain ⟨y, more, rfl, hy, h⟩ := goesOn_eq_succ h
    obtain ⟨z, more, rfl, hz, -⟩ := goesOn_eq_succ h
    obtain ⟨c, hc⟩ := exists_utf8EncodeChar_four (by omega) hhigh hx hy hz
    exact ⟨c, more, by rw [hc]; rfl⟩
  · cases hlead

/-- Bytes begin with a character as it is written, or with what is no character. -/
theorem chars_cons_cases (b : UInt8) (rest : List UInt8) :
    (∃ read, chars 0 (b :: rest) = none :: chars read rest) ∨
      ∃ c more, b :: rest = String.utf8EncodeChar c ++ more ∧
        chars 0 (b :: rest) = some c :: chars 0 more := by
  cases hlead : lead? b.toNat with
  | none => exact .inl ⟨0, by rw [chars, hlead]⟩
  | some lead =>
    by_cases hall : goesOn lead.more lead.low lead.high rest = lead.more
    · obtain ⟨c, more, hbytes⟩ := exists_utf8EncodeChar_append hlead hall
      exact .inr ⟨c, more, hbytes, by rw [hbytes, chars_utf8EncodeChar_append]⟩
    · refine .inl ⟨goesOn lead.more lead.low lead.high rest, ?_⟩
      rw [chars, hlead]
      simp only [if_neg hall]

theorem length_lt_of_eq_utf8EncodeChar_append {b : UInt8} {rest more : List UInt8} {c : Char}
    (h : b :: rest = String.utf8EncodeChar c ++ more) : more.length < rest.length + 1 := by
  have hlength := congrArg List.length h
  have hpos := List.length_pos_iff.mpr (String.utf8EncodeChar_ne_nil (c := c))
  rw [List.length_cons, List.length_append] at hlength
  omega

/-- A character that is read was written. -/
theorem mem_of_mem_chars {c : Char} {read : Nat} {bytes : List UInt8}
    (h : some c ∈ chars read bytes) : ∀ b ∈ String.utf8EncodeChar c, b ∈ bytes := by
  induction hn : bytes.length using Nat.strongRecOn generalizing bytes read with
  | _ n ih =>
    cases bytes with
    | nil => cases read <;> cases h
    | cons b rest =>
      have hrest {read : Nat} (h : some c ∈ chars read rest) :
          ∀ b' ∈ String.utf8EncodeChar c, b' ∈ b :: rest := by
        rw [List.length_cons] at hn
        exact fun b' hb' => List.mem_cons_of_mem b (ih rest.length (by omega) h rfl b' hb')
      cases read with
      | succ read => exact hrest h
      | zero =>
        rcases chars_cons_cases b rest with ⟨read, hchars⟩ | ⟨known, more, hbytes, hchars⟩ <;>
          rw [hchars] at h <;> rcases List.mem_cons.mp h with heq | h
        · cases heq
        · exact hrest h
        · rw [hbytes, ← Option.some.inj heq]
          exact fun b' hb' => List.mem_append_left more hb'
        · have hlt := length_lt_of_eq_utf8EncodeChar_append hbytes
          rw [List.length_cons] at hn
          rw [hbytes]
          exact fun b' hb' =>
            List.mem_append_right _ (ih more.length (by omega) h rfl b' hb')

/-- Bytes that are read as characters are the bytes of these characters and no others. -/
theorem eq_flatMap_chars {bytes : List UInt8} (h : none ∉ chars 0 bytes) :
    bytes = ((chars 0 bytes).map fun c => c.getD '\uFFFD').flatMap String.utf8EncodeChar := by
  induction hn : bytes.length using Nat.strongRecOn generalizing bytes with
  | _ n ih =>
    cases bytes with
    | nil => rfl
    | cons b rest =>
      rcases chars_cons_cases b rest with ⟨read, hchars⟩ | ⟨known, more, hbytes, hchars⟩ <;>
        rw [hchars] at h ⊢
      · exact absurd List.mem_cons_self h
      · have hlt := length_lt_of_eq_utf8EncodeChar_append hbytes
        rw [List.length_cons] at hn
        rw [List.map_cons, List.flatMap_cons, Option.getD_some, hbytes,
          ← ih more.length (by omega) (fun hnone => h (List.mem_cons_of_mem _ hnone)) rfl]

theorem mem_of_mem_shown {r : RawText} {c : Char} (hc : c ≠ '\uFFFD') (h : c ∈ r.shown.toList) :
    ∀ b ∈ String.utf8EncodeChar c, b ∈ r.toList := by
  rw [shown, String.toList_ofList, List.mem_map] at h
  obtain ⟨known, hknown, rfl⟩ := h
  cases known with
  | none => exact absurd rfl hc
  | some c => exact mem_of_mem_chars hknown

/-- A raw text that is shown without a replaced character is the text that is shown. -/
theorem eq_ofText_shown {r : RawText} (h : '\uFFFD' ∉ r.shown.toList) : r = ofText r.shown := by
  rw [shown, String.toList_ofList, List.mem_map] at h
  refine RawText.ext ?_
  rw [ofText, shown, utf8Bytes, String.toList_ofList]
  exact eq_flatMap_chars fun hnone => h ⟨none, hnone, rfl⟩

theorem shown_eq_iff {r : RawText} {s : String} (h : '\uFFFD' ∉ s.toList) :
    r.shown = s ↔ r = ofText s := by
  constructor
  · rintro rfl
    exact eq_ofText_shown h
  · rintro rfl
    exact shown_ofText s

theorem mem_utf8EncodeChar_iff {b : UInt8} (hb : b.toNat < 0x80) {c : Char} :
    b ∈ String.utf8EncodeChar c ↔ c = .ofNat b.toNat := by
  have hvalue : c = .ofNat b.toNat ↔ c.val.toNat = b.toNat := by
    constructor
    · rintro rfl
      exact toNat_of_isValidChar (.inl (by omega))
    · intro h
      rw [← h]
      exact (Char.ofNat_toNat c).symm
  rw [hvalue, String.utf8EncodeChar]
  generalize c.val.toNat = v
  repeat' split
  all_goals
    simp only [List.mem_cons, List.not_mem_nil, or_false, ← UInt8.toNat_inj, UInt8.toNat_ofNat']
    omega

theorem utf8EncodeChar_ofNat {b : UInt8} (hb : b.toNat < 0x80) :
    String.utf8EncodeChar (.ofNat b.toNat) = [b] := by
  have hvalid : b.toNat.isValidChar := .inl (by omega)
  simp only [String.utf8EncodeChar, toNat_of_isValidChar hvalid]
  rw [if_pos (by omega), UInt8.ofNat_toNat]

/-- Where a character below 128 stands, a text is cut into texts. -/
theorem exists_of_flatMap_eq_append {b : UInt8} (hb : b.toNat < 0x80) {s : List Char}
    {before after : List UInt8} (h : s.flatMap String.utf8EncodeChar = before ++ b :: after) :
    ∃ t u, s = t ++ .ofNat b.toNat :: u ∧ before = t.flatMap String.utf8EncodeChar ∧
      after = u.flatMap String.utf8EncodeChar := by
  induction s generalizing before with
  | nil => simp at h
  | cons c r ih =>
    have hrest (inner : List UInt8) (hbefore : before = String.utf8EncodeChar c ++ inner)
        (hr : r.flatMap String.utf8EncodeChar = inner ++ b :: after) :
        ∃ t u, c :: r = t ++ .ofNat b.toNat :: u ∧ before = t.flatMap String.utf8EncodeChar ∧
          after = u.flatMap String.utf8EncodeChar := by
      obtain ⟨t, u, rfl, rfl, hafter⟩ := ih hr
      exact ⟨c :: t, u, rfl, hbefore, hafter⟩
    rw [List.flatMap_cons] at h
    rcases List.append_eq_append_iff.mp h with ⟨inner, hbefore, hr⟩ | ⟨rest, hchar, hbytes⟩
    · exact hrest inner hbefore hr
    · cases rest with
      | nil => exact hrest [] (by simpa using hchar.symm) (by simpa using hbytes.symm)
      | cons b' more =>
        obtain ⟨rfl, hmore⟩ := List.cons.inj hbytes
        have hc : c = .ofNat b.toNat :=
          (mem_utf8EncodeChar_iff hb).mp (hchar ▸ List.mem_append_right _ List.mem_cons_self)
        subst hc
        rw [utf8EncodeChar_ofNat hb] at hchar
        obtain ⟨rfl, hnil⟩ := List.append_eq_singleton_iff.mp hchar.symm |>.resolve_right (by simp)
        obtain ⟨-, rfl⟩ := List.cons.inj hnil
        exact ⟨[], r, rfl, rfl, hmore⟩

theorem mem_ofText_iff {s : String} {b : UInt8} (hb : b.toNat < 0x80) :
    b ∈ (ofText s).toList ↔ .ofNat b.toNat ∈ s.toList := by
  simp [ofText, utf8Bytes, List.mem_flatMap, mem_utf8EncodeChar_iff hb]

end RawText
end StaticPreview
