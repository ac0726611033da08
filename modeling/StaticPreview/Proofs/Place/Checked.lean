import StaticPreview.Proofs.Text.Prepend
import StaticPreview.Text.Width

/-! # Reading a text by its places

A reading by places names each part of a text by the places where it starts and stops. It faults
when it asks for a part that stops before it starts, that reaches beyond the text or that has an
end inside a character, when it takes more from a number than there is, and when a loop of it runs
on for longer than the text has bytes.
-/
namespace StaticPreview.Place
open Text

inductive Fault where
  | badPart (start stop : Nat)
  | belowZero (n m : Nat)
  | endless
  deriving DecidableEq, Repr

abbrev Checked := Except Fault

@[simp] theorem ok_bind {α β : Type} (x : α) (f : α → Checked β) :
    (Except.ok x : Checked α) >>= f = f x := rfl

@[simp] theorem pure_eq_ok {α : Type} (x : α) : (pure x : Checked α) = .ok x := rfl

def IsBoundary (s : List Char) (place : Nat) : Prop :=
  ∃ a b, s = a ++ b ∧ place = width a

def splitAt? : Nat → List Char → Option (List Char × List Char)
  | 0, s => some ([], s)
  | _ + 1, [] => none
  | n + 1, c :: r =>
    if c.utf8Size ≤ n + 1 then (splitAt? (n + 1 - c.utf8Size) r).map fun p => (c :: p.1, p.2)
    else none

def slice (s : List Char) (start stop : Nat) : Checked (List Char) :=
  match splitAt? stop s >>= fun p => splitAt? start p.1 with
  | some (_, part) => .ok part
  | none => .error (.badPart start stop)

def sliceFrom (s : List Char) (start : Nat) : Checked (List Char) :=
  slice s start (width s)

def minus (n m : Nat) : Checked Nat :=
  if m ≤ n then .ok (n - m) else .error (.belowZero n m)

theorem width_eq_zero_iff {s : List Char} : width s = 0 ↔ s = [] := by
  cases s with
  | nil => simp [width]
  | cons c r =>
    have := c.utf8Size_pos
    simp only [width, reduceCtorEq, iff_false]
    omega

theorem width_pos {s : List Char} (h : s ≠ []) : 0 < width s :=
  Nat.pos_of_ne_zero (mt width_eq_zero_iff.mp h)

theorem splitAt?_width (a b : List Char) : splitAt? (width a) (a ++ b) = some (a, b) := by
  induction a with
  | nil => cases b <;> rfl
  | cons c a ih =>
    obtain ⟨n, hn⟩ := Nat.exists_eq_add_one.mpr c.utf8Size_pos
    have hplace : width (c :: a) = n + width a + 1 := by rw [width, hn]; omega
    have hrest : n + width a + 1 - c.utf8Size = width a := by omega
    rw [hplace, List.cons_append, splitAt?, if_pos (by omega), hrest, ih]
    rfl

theorem append_of_splitAt? {n : Nat} {s a b : List Char} (h : splitAt? n s = some (a, b)) :
    s = a ++ b ∧ n = width a := by
  fun_induction splitAt? n s generalizing a b with
  | case1 s =>
    obtain ⟨rfl, rfl⟩ := Prod.mk.inj (Option.some.inj h)
    exact ⟨rfl, rfl⟩
  | case2 => simp at h
  | case3 n c r hle ih =>
    obtain ⟨⟨x, y⟩, hp, hxy⟩ := Option.map_eq_some_iff.mp h
    obtain ⟨rfl, rfl⟩ := Prod.mk.inj hxy
    obtain ⟨rfl, hn⟩ := ih hp
    refine ⟨rfl, ?_⟩
    simp only [width]
    omega
  | case4 => simp at h

theorem slice_eq_ok_iff {s m : List Char} {start stop : Nat} :
    slice s start stop = .ok m ↔
      ∃ a b, s = a ++ m ++ b ∧ start = width a ∧ stop = width (a ++ m) := by
  constructor
  · intro h
    rw [slice] at h
    split at h
    next lead part hsplit =>
      obtain rfl := Except.ok.inj h
      obtain ⟨⟨upTo, b⟩, hstop, hstart⟩ := Option.bind_eq_some_iff.mp hsplit
      obtain ⟨rfl, rfl⟩ := append_of_splitAt? hstop
      obtain ⟨hupTo, rfl⟩ := append_of_splitAt? hstart
      dsimp only at hupTo
      subst hupTo
      exact ⟨lead, b, rfl, rfl, rfl⟩
    next => simp at h
  · rintro ⟨a, b, rfl, rfl, rfl⟩
    rw [slice, splitAt?_width]
    change (match splitAt? (width a) (a ++ m) with
      | some (_, part) => _
      | none => _) = _
    rw [splitAt?_width]

theorem append_inj_of_width {a b x y : List Char} (h : a ++ x = b ++ y)
    (hwidth : width a = width b) : a = b ∧ x = y := by
  have hsplit := splitAt?_width a x
  rw [h, hwidth, splitAt?_width] at hsplit
  obtain ⟨rfl, rfl⟩ := Prod.mk.inj (Option.some.inj hsplit)
  exact ⟨rfl, rfl⟩

/-- The parts that begin at a place are the starts of what stands there. -/
theorem slice_width_eq_ok_iff {a r g : List Char} {stop : Nat} :
    slice (a ++ r) (width a) stop = .ok g ↔ ∃ after, g ++ after = r ∧ stop = width (a ++ g) := by
  rw [slice_eq_ok_iff]
  constructor
  · rintro ⟨a', after, hs, ha, rfl⟩
    rw [List.append_assoc] at hs
    obtain ⟨rfl, rfl⟩ := append_inj_of_width hs ha
    exact ⟨after, rfl, rfl⟩
  · rintro ⟨after, rfl, rfl⟩
    exact ⟨a, after, by simp, rfl, rfl⟩

/-- The part between two places that lie at the ends of characters never faults. -/
theorem slice_append (a m b : List Char) :
    slice (a ++ (m ++ b)) (width a) (width a + width m) = .ok m :=
  slice_eq_ok_iff.mpr ⟨a, b, by simp, rfl, by simp⟩

theorem slice_zero_append (m b : List Char) : slice (m ++ b) 0 (width m) = .ok m :=
  slice_eq_ok_iff.mpr ⟨[], b, rfl, rfl, rfl⟩

theorem sliceFrom_append (a r : List Char) : sliceFrom (a ++ r) (width a) = .ok r :=
  slice_eq_ok_iff.mpr ⟨a, [], by simp, rfl, rfl⟩

/-- Where a reading stops that begins at a place. -/
def stopOf (place : Nat) (reading : Option (List Char × List Char)) : Option Nat :=
  reading.map fun p => place + width p.1

@[simp] theorem stopOf_some (place : Nat) (a b : List Char) :
    stopOf place (some (a, b)) = some (place + width a) := rfl

theorem stopOf_prepend (place : Nat) (lead : List Char)
    (reading : Option (List Char × List Char)) :
    stopOf place (prepend lead reading) = stopOf (place + width lead) reading := by
  simp [stopOf, prepend, Function.comp_def, Nat.add_assoc]

theorem width_le_of_isSuffix {r s : List Char} (h : r <:+ s) : width r ≤ width s := by
  obtain ⟨lead, rfl⟩ := h
  rw [width_append]
  exact Nat.le_add_left (width r) (width lead)

theorem width_lt_of_append {part after s : List Char} (h : part ++ after = s) (hne : part ≠ []) :
    width after < width s := by
  rw [← h, width_append]
  exact Nat.lt_add_of_pos_left (width_pos hne)

/-- The place in a text where its end `rest` begins. -/
def restPlace (s rest : List Char) : Nat :=
  width s - width rest

theorem restPlace_of_append {s lead rest : List Char} (h : lead ++ rest = s) :
    restPlace s rest = width lead := by
  rw [restPlace, ← h, width_append, Nat.add_sub_cancel]

@[simp] theorem restPlace_self (s : List Char) : restPlace s s = 0 :=
  Nat.sub_self (width s)

@[simp] theorem restPlace_nil (s : List Char) : restPlace s [] = width s :=
  Nat.sub_zero (width s)

theorem restPlace_lt {s r : List Char} (h : r <:+ s) (hne : r ≠ []) : restPlace s r < width s :=
  Nat.sub_lt_self (width_pos hne) (width_le_of_isSuffix h)

theorem restPlace_cons {s r : List Char} {c : Char} (h : c :: r <:+ s) :
    restPlace s r = restPlace s (c :: r) + c.utf8Size := by
  obtain ⟨lead, hlead⟩ := h
  have hnext : lead ++ [c] ++ r = s := by rw [← hlead, List.append_assoc]; rfl
  rw [restPlace_of_append hlead, restPlace_of_append hnext, width_append]
  simp [width]

@[simp] theorem width_singleton (c : Char) : width [c] = c.utf8Size := by
  simp [width]

theorem sliceFrom_cons (a : List Char) (c : Char) (r : List Char) :
    sliceFrom (a ++ c :: r) (width (a ++ [c])) = .ok r := by
  simpa using sliceFrom_append (a ++ [c]) r

theorem minus_of_le {n m : Nat} (h : m ≤ n) : minus n m = .ok (n - m) :=
  if_pos h

/-- The bytes of a character in UTF-8, each given as the character of its number. -/
def encode (c : Char) : List Char :=
  (String.utf8EncodeChar c).map Char.ofUInt8

def bytes (s : List Char) : List Char :=
  s.flatMap encode

def byteAt? (s : List Char) (place : Nat) : Option Char :=
  (bytes s)[place]?

@[simp] theorem length_encode (c : Char) : (encode c).length = c.utf8Size := by
  simp [encode]

@[simp] theorem length_bytes (s : List Char) : (bytes s).length = width s := by
  induction s with
  | nil => rfl
  | cons c r ih => simp_all [bytes, width]

theorem bytes_append (a b : List Char) : bytes (a ++ b) = bytes a ++ bytes b := by
  simp [bytes]

theorem drop_bytes (a r : List Char) : (bytes (a ++ r)).drop (width a) = bytes r := by
  rw [bytes_append, ← length_bytes a, List.drop_left]

theorem byteAt?_append (a r : List Char) (k : Nat) :
    byteAt? (a ++ r) (width a + k) = (bytes r)[k]? := by
  rw [byteAt?, ← List.getElem?_drop, drop_bytes]

theorem byteAt?_width (a : List Char) : byteAt? a (width a) = none := by
  rw [byteAt?, List.getElem?_eq_none (by simp)]

theorem toNat_ofUInt8 (b : UInt8) : (Char.ofUInt8 b).toNat = b.toNat :=
  UInt8.toNat_toUInt32 b

theorem encode_of_ascii {c : Char} (h : c.toNat < 128) : encode c = [c] := by
  have hle : c.val.toNat ≤ 127 := Nat.le_of_lt_succ h
  have hbyte : Char.ofUInt8 (.ofNat c.val.toNat) = c := by
    rw [Char.ext_iff, ← UInt32.toNat_inj]
    change (Char.ofUInt8 _).toNat = _
    rw [toNat_ofUInt8, UInt8.toNat_ofNat_of_lt' (Nat.lt_of_le_of_lt hle (by decide))]
  rw [encode, String.utf8EncodeChar, if_pos hle, List.map_singleton, hbyte]

theorem utf8Size_of_ascii {c : Char} (h : c.toNat < 128) : c.utf8Size = 1 :=
  Char.utf8Size_eq_one_iff.mpr (UInt32.le_iff_toNat_le.mpr (Nat.le_of_lt_succ h))

theorem le_toNat_ofUInt8_ofNat {n : Nat} (hle : 128 ≤ n) (hlt : n < 256) :
    128 ≤ (Char.ofUInt8 (.ofNat n)).toNat := by
  rwa [toNat_ofUInt8, UInt8.toNat_ofNat_of_lt' hlt]

theorem le_toNat_of_mem_encode {c : Char} (h : 128 ≤ c.toNat) : ∀ b ∈ encode c, 128 ≤ b.toNat := by
  have hlt : ¬ c.val.toNat ≤ 127 := Nat.not_le.mpr h
  rw [encode, String.utf8EncodeChar, if_neg hlt]
  split
  next =>
    simp only [List.forall_mem_map, List.forall_mem_cons]
    refine ⟨?_, ?_, by simp⟩ <;> exact le_toNat_ofUInt8_ofNat (by omega) (by omega)
  split
  next =>
    simp only [List.forall_mem_map, List.forall_mem_cons]
    refine ⟨?_, ?_, ?_, by simp⟩ <;> exact le_toNat_ofUInt8_ofNat (by omega) (by omega)
  next =>
    simp only [List.forall_mem_map, List.forall_mem_cons]
    refine ⟨?_, ?_, ?_, ?_, by simp⟩ <;> exact le_toNat_ofUInt8_ofNat (by omega) (by omega)

theorem width_cons_of_ascii {c : Char} (h : c.toNat < 128) (r : List Char) :
    width (c :: r) = 1 + width r := by
  rw [width, utf8Size_of_ascii h]

theorem width_concat_of_ascii {c : Char} (h : c.toNat < 128) (a : List Char) :
    width (a ++ [c]) = width a + 1 := by
  rw [width_append, width_singleton, utf8Size_of_ascii h]

theorem width_enclosed {c d : Char} (hc : c.toNat < 128) (hd : d.toNat < 128)
    (a m : List Char) : width (a ++ (c :: m ++ [d])) = width a + width m + 2 := by
  rw [← List.append_assoc, width_concat_of_ascii hd, width_append, width_cons_of_ascii hc]
  omega

theorem sliceFrom_mark {c : Char} (h : c.toNat < 128) (a r : List Char) :
    sliceFrom (a ++ c :: r) (width a + 1) = .ok r := by
  rw [← width_concat_of_ascii h, sliceFrom_cons]

theorem slice_mark {c : Char} (h : c.toNat < 128) (a m b : List Char) :
    slice (a ++ c :: (m ++ b)) (width a + 1) (width a + 1 + width m) = .ok m := by
  rw [← width_concat_of_ascii h, slice_eq_ok_iff]
  exact ⟨a ++ [c], b, by simp, rfl, (width_append (a ++ [c]) m).symm⟩

theorem bytes_cons_of_ascii {c : Char} (h : c.toNat < 128) (r : List Char) :
    bytes (c :: r) = c :: bytes r := by
  rw [bytes, List.flatMap_cons, encode_of_ascii h]
  rfl

/-- Behind the first byte of a character stands no mark of its own. -/
theorem exists_encode_eq_cons (c : Char) :
    ∃ b more, encode c = b :: more ∧ (∀ d ∈ more, 128 ≤ d.toNat) ∧
      more.length + 1 = c.utf8Size := by
  have hlength := length_encode c
  cases hc : encode c with
  | nil =>
    rw [hc] at hlength
    exact absurd hlength (Nat.ne_of_lt c.utf8Size_pos)
  | cons b more =>
    refine ⟨b, more, rfl, fun d hd => ?_, by rw [← hlength, hc]; rfl⟩
    by_cases h : c.toNat < 128
    · rw [encode_of_ascii h] at hc
      obtain ⟨-, rfl⟩ := List.cons.inj hc
      simp at hd
    · exact le_toNat_of_mem_encode (Nat.le_of_not_lt h) d (by simp [hc, hd])

theorem eq_or_le_toNat_of_mem_encode {b c : Char} (h : b ∈ encode c) : b = c ∨ 128 ≤ b.toNat := by
  by_cases hc : c.toNat < 128
  · rw [encode_of_ascii hc] at h
    exact .inl (List.mem_singleton.mp h)
  · exact .inr (le_toNat_of_mem_encode (Nat.le_of_not_lt hc) b h)

theorem byteAt?_of_ascii {c : Char} (hc : c.toNat < 128) (a r : List Char) :
    byteAt? (a ++ c :: r) (width a) = some c := by
  have h := byteAt?_append a (c :: r) 0
  rwa [bytes_cons_of_ascii hc] at h

/-- The bytes of a character stand at its place and behind. -/
theorem exists_byteAt?_append {c : Char} {k : Nat} (hk : k < c.utf8Size) (a r : List Char) :
    ∃ b ∈ encode c, byteAt? (a ++ c :: r) (width a + k) = some b := by
  rw [← length_encode] at hk
  refine ⟨(encode c)[k], List.getElem_mem hk, ?_⟩
  rw [byteAt?_append, bytes, List.flatMap_cons, List.getElem?_append_left hk,
    List.getElem?_eq_getElem hk]

theorem exists_byteAt? (a : List Char) (c : Char) (r : List Char) :
    ∃ b ∈ encode c, byteAt? (a ++ c :: r) (width a) = some b :=
  exists_byteAt?_append c.utf8Size_pos a r

theorem mem_encode_eq_iff {b c d : Char} (hd : d.toNat < 128) (h : b ∈ encode c) :
    b = d ↔ c = d := by
  constructor
  · rintro rfl
    rcases eq_or_le_toNat_of_mem_encode h with rfl | hhigh
    · rfl
    · omega
  · rintro rfl
    rw [encode_of_ascii hd] at h
    exact List.mem_singleton.mp h

/-- A mark is found by its byte. -/
theorem exists_append_of_byteAt? {c : Char} (hc : c.toNat < 128) {s : List Char} {place : Nat}
    (h : byteAt? s place = some c) : ∃ a r, s = a ++ c :: r ∧ place = width a := by
  induction s generalizing place with
  | nil => simp [byteAt?, bytes] at h
  | cons d s ih =>
    rw [byteAt?, bytes, List.flatMap_cons] at h
    by_cases hplace : place < (encode d).length
    · rw [List.getElem?_append_left hplace] at h
      have hd : d = c := (mem_encode_eq_iff hc (List.mem_of_getElem? h)).mp rfl
      subst hd
      rw [length_encode, utf8Size_of_ascii hc] at hplace
      exact ⟨[], s, rfl, Nat.lt_one_iff.mp hplace⟩
    · rw [List.getElem?_append_right (Nat.le_of_not_lt hplace)] at h
      obtain ⟨a, r, rfl, hwidth⟩ := ih h
      rw [length_encode] at hplace hwidth
      refine ⟨d :: a, r, rfl, ?_⟩
      rw [width]
      omega

/-- A mark is the byte at a place exactly if it is the character there. -/
theorem byteAt?_eq_some_iff {d : Char} (hd : d.toNat < 128) {s r : List Char} (h : r <:+ s) :
    byteAt? s (restPlace s r) = some d ↔ r.head? = some d := by
  obtain ⟨lead, rfl⟩ := h
  rw [restPlace_of_append rfl]
  cases r with
  | nil => simp [byteAt?_width]
  | cons c r =>
    obtain ⟨b, hb, hbyte⟩ := exists_byteAt? lead c r
    rw [hbyte, List.head?_cons, Option.some.injEq, Option.some.injEq, mem_encode_eq_iff hd hb]

/-- A class of ASCII characters holds a byte of a character when it holds the character. -/
theorem mem_encode_class {p : Char → Bool} (hp : ∀ c, 128 ≤ c.toNat → p c = false) {b c : Char}
    (h : b ∈ encode c) : p b = p c := by
  by_cases hc : c.toNat < 128
  · rw [encode_of_ascii hc] at h
    rw [List.mem_singleton.mp h]
  · have hle := Nat.le_of_not_lt hc
    rw [hp c hle, hp b (le_toNat_of_mem_encode hle b h)]

theorem length_takeWhile_bytes {p : Char → Bool} (hp : ∀ c, 128 ≤ c.toNat → p c = false)
    (r : List Char) : ((bytes r).takeWhile p).length = width (r.takeWhile p) := by
  induction r with
  | nil => rfl
  | cons c r ih =>
    by_cases hc : c.toNat < 128
    · rw [bytes_cons_of_ascii hc, List.takeWhile_cons, List.takeWhile_cons]
      split
      · rw [List.length_cons, ih, width_cons_of_ascii hc, Nat.add_comm]
      · rfl
    · obtain ⟨b, more, hb, -, -⟩ := exists_encode_eq_cons c
      have hfalse := hp c (Nat.le_of_not_lt hc)
      have hbyte : p b = false := by
        rw [mem_encode_class hp (c := c) (by simp [hb]), hfalse]
      rw [bytes, List.flatMap_cons, hb]
      simp [hfalse, hbyte, width]

theorem ne_of_le_toNat {b d : Char} (hb : 128 ≤ b.toNat) (hd : d.toNat < 128) : b ≠ d := by
  rintro rfl
  omega

end StaticPreview.Place
