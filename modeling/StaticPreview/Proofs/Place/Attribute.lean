import StaticPreview.Markup.AttributeHtml
import StaticPreview.Proofs.Markup.Name
import StaticPreview.Proofs.Place.Escape
import StaticPreview.Proofs.Place.Group
import StaticPreview.Proofs.Text.Trim

/-! # Attributes by their places

Attributes are read from byte to byte. Between two of them a place always stands at a character,
since what cannot begin a name is passed over character by character.
-/
namespace StaticPreview.Place
open Text Markup

def skipBlankAt (s : List Char) (place : Nat) : Checked Nat := do
  let rest ← sliceFrom s place
  return ((findPlace? (!isBlank ·) rest).map (place + ·)).getD (width s)

def valueAt (s : List Char) (place : Nat) : Checked (AttributeValue × Nat) :=
  match byteAt? s place with
  | none => return (.literal [], width s)
  | some b =>
    if b = '"' ∨ b = '\'' then do
      match findPlace? (· == b) (← sliceFrom s (place + 1)) with
      | some length =>
        return (.literal (← slice s (place + 1) (place + 1 + length)), place + length + 2)
      | none => return (.literal (← sliceFrom s (place + 1)), width s)
    else if b = '\x7b' then
      match groupStop? s place with
      | some stop => do
        return (.expression (← slice s (place + 1) (← minus stop 1)), stop)
      | none => do return (.expression (← sliceFrom s (place + 1)), width s)
    else do
      let rest ← sliceFrom s place
      let remaining ← minus (width s) place
      let length := (findPlace? isBlank rest).getD remaining
      return (.literal (← slice s place (place + length)), place + length)

def attributeAt (s : List Char) (place : Nat) : Checked (Attribute × Nat) := do
  let stop := place + (((bytes s).drop place).takeWhile Attribute.isNameChar).length
  let name ← slice s place stop
  let next ← skipBlankAt s stop
  if byteAt? s next = some '=' then
    let (value, after) ← valueAt s (← skipBlankAt s (next + 1))
    return (⟨name, value⟩, after)
  else return (⟨name, .absent⟩, stop)

def attributeTurn (s : List Char) (state : Nat × List Attribute) :
    Checked (Turn (Nat × List Attribute) (List Attribute)) :=
  let (place, found) := state
  match byteAt? s place with
  | none => return .done found
  | some b =>
    if isAsciiBlank b then return .next (place + 1, found)
    else if b = '\x7b' then return .next ((groupStop? s place).getD (width s), found)
    else if !Attribute.isNameStart b then do
      let rest ← sliceFrom s place
      return .next (place + (rest.head?.map Char.utf8Size).getD 1, found)
    else do
      let (a, after) ← attributeAt s place
      return .next (after, found ++ [a])

def attributesOf (s : List Char) : Checked (List Attribute) :=
  loop (attributeTurn s) (width s + 1) (0, [])

theorem skipBlankAt_eq {s r : List Char} (h : r <:+ s) :
    skipBlankAt s (restPlace s r) = .ok (restPlace s (skipBlank r)) := by
  obtain ⟨lead, rfl⟩ := h
  have hblank : (fun c => !!isBlank c) = isBlank := by simp
  have hstop := findPlace?_stop (!isBlank ·) lead r
  have hs : lead ++ r.takeWhile isBlank ++ skipBlank r = lead ++ r := by
    rw [List.append_assoc, skipBlank, List.takeWhile_append_dropWhile]
  rw [hblank, ← width_append] at hstop
  rw [restPlace_of_append rfl, restPlace_of_append hs]
  simp only [skipBlankAt, sliceFrom_append, ok_bind, hstop]
  rfl

theorem valueAt_quoted {mark : Char} (hmark : mark = '"' ∨ mark = '\'') (lead r : List Char) :
    valueAt (lead ++ mark :: r) (width lead) =
      .ok ((Attribute.readValue (mark :: r)).1,
        restPlace (lead ++ mark :: r) (Attribute.readValue (mark :: r)).2) := by
  have hascii : mark.toNat < 128 := by rcases hmark with rfl | rfl <;> decide
  rw [valueAt, byteAt?_of_ascii hascii, Attribute.readValue]
  simp only [if_pos hmark, sliceFrom_mark hascii, ok_bind, findPlace?_cut]
  cases hcut : cut? mark r with
  | none => simp
  | some p =>
    have hslice := slice_mark hascii lead p.1 (mark :: p.2)
    have hs : lead ++ (mark :: p.1 ++ [mark]) ++ p.2 = lead ++ mark :: r := by
      simp [← append_of_cut? hcut]
    rw [append_of_cut? hcut] at hslice
    rw [restPlace_of_append hs, width_enclosed hascii hascii]
    simp [hslice]

theorem valueAt_group (lead r : List Char) :
    valueAt (lead ++ '\x7b' :: r) (width lead) =
      .ok ((Attribute.readValue ('\x7b' :: r)).1,
        restPlace (lead ++ '\x7b' :: r) (Attribute.readValue ('\x7b' :: r)).2) := by
  have hmark : ¬('\x7b' = '"' ∨ '\x7b' = '\'') := by decide
  rw [valueAt, byteAt?_of_ascii (by decide), groupStop?_append, Attribute.readValue]
  simp only [if_neg hmark, if_true]
  cases hgroup : group? ('\x7b' :: r) with
  | none => simp [stopOf, sliceFrom_mark]
  | some p =>
    obtain ⟨group, after⟩ := p
    obtain ⟨inner, rfl, hr⟩ := exists_of_group? hgroup
    have hslice := slice_mark (c := '\x7b') (by decide) lead inner ('\x7d' :: after)
    have hs : lead ++ ('\x7b' :: inner ++ ['\x7d']) ++ after = lead ++ '\x7b' :: r := by simp [← hr]
    have hstop : width lead + width ('\x7b' :: (inner ++ ['\x7d'])) =
        width lead + width inner + 2 := by
      rw [← width_append]
      exact width_enclosed (by decide) (by decide) lead inner
    have hminus : minus (width lead + width inner + 2) 1 = .ok (width lead + 1 + width inner) := by
      rw [minus_of_le (by omega), Nat.add_right_comm (width lead) 1]
      rfl
    rw [hr] at hslice
    rw [restPlace_of_append hs, width_enclosed (by decide) (by decide), stopOf_some, hstop]
    simp [hminus, hslice]

theorem valueAt_bare {c : Char} (hmark : ¬(c = '"' ∨ c = '\'')) (hbrace : c ≠ '\x7b')
    (lead r : List Char) :
    valueAt (lead ++ c :: r) (width lead) =
      .ok ((Attribute.readValue (c :: r)).1,
        restPlace (lead ++ c :: r) (Attribute.readValue (c :: r)).2) := by
  obtain ⟨b, hb, hbyte⟩ := exists_byteAt? lead c r
  have hmark' : ¬(b = '"' ∨ b = '\'') := by
    rwa [mem_encode_eq_iff (by decide) hb, mem_encode_eq_iff (by decide) hb]
  have hbrace' : b ≠ '\x7b' := mt (mem_encode_eq_iff (by decide) hb).mp hbrace
  have hplain : (c :: r).takeWhile (fun d => !isBlank d) ++
      (c :: r).dropWhile (fun d => !isBlank d) = c :: r :=
    List.takeWhile_append_dropWhile
  have hlength := findPlace?_getD isBlank (c :: r)
  rw [valueAt, hbyte, Attribute.readValue, if_neg hmark, if_neg hbrace]
  generalize (c :: r).takeWhile (fun d => !isBlank d) = text at hplain hlength
  generalize (c :: r).dropWhile (fun d => !isBlank d) = after at hplain
  have hs : lead ++ text ++ after = lead ++ c :: r := by rw [List.append_assoc, hplain]
  have hslice := slice_append lead text after
  have hminus : minus (width (lead ++ c :: r)) (width lead) = .ok (width (c :: r)) := by
    rw [width_append, minus_of_le (Nat.le_add_right _ _), Nat.add_sub_cancel_left]
  rw [hplain] at hslice
  rw [restPlace_of_append hs, width_append lead text]
  simp only [if_neg hmark', if_neg hbrace', sliceFrom_append, ok_bind, hminus, hlength, hslice]
  rfl

theorem valueAt_eq {s r : List Char} (h : r <:+ s) :
    valueAt s (restPlace s r) =
      .ok ((Attribute.readValue r).1, restPlace s (Attribute.readValue r).2) := by
  obtain ⟨lead, rfl⟩ := h
  rw [restPlace_of_append rfl]
  cases r with
  | nil =>
    rw [List.append_nil, valueAt, byteAt?_width]
    simp [Attribute.readValue, restPlace, width]
  | cons c r =>
    by_cases hquote : c = '"' ∨ c = '\''
    · exact valueAt_quoted hquote lead r
    by_cases hbrace : c = '\x7b'
    · subst hbrace
      exact valueAt_group lead r
    · exact valueAt_bare hquote hbrace lead r

theorem isSuffix_readValue (r : List Char) : (Attribute.readValue r).2 <:+ r := by
  cases r with
  | nil => exact List.suffix_refl []
  | cons c r =>
    rw [Attribute.readValue]
    split
    · split
      next text after hcut =>
        exact ⟨c :: (text ++ [c]), by simp [← append_of_cut? hcut]⟩
      next => exact List.nil_suffix
    · split
      · split
        next group after hgroup => exact ⟨group, (append_of_closeGroup? hgroup).1⟩
        next => exact List.nil_suffix
      · exact List.dropWhile_suffix _

theorem isSuffix_readAssignment (r : List Char) : (Attribute.readAssignment r).2 <:+ r := by
  rw [Attribute.readAssignment]
  split
  next after h =>
    exact (isSuffix_readValue _).trans <| (isSuffix_skipBlank after).trans <|
      (List.suffix_cons '=' after).trans <| h ▸ isSuffix_skipBlank r
  next => exact List.suffix_refl r

theorem not_isNameChar_of_high (c : Char) (h : 128 ≤ c.toNat) :
    Attribute.isNameChar c = false := by
  rw [Bool.eq_false_iff]
  intro hc
  simp only [Attribute.isNameChar, Bool.or_eq_true, beq_iff_eq] at hc
  rcases hc with ((((hc | rfl) | rfl) | rfl) | rfl) | rfl
  · rw [isAlphanum_iff_toNat] at hc
    omega
  all_goals exact absurd h (by decide)

theorem not_isNameStart_of_high (c : Char) (h : 128 ≤ c.toNat) :
    Attribute.isNameStart c = false := by
  rw [Bool.eq_false_iff]
  intro hc
  have hname := not_isNameChar_of_high c h
  rw [isNameChar_of_isNameStart hc] at hname
  exact absurd hname (by decide)

theorem not_isAsciiBlank_of_high (c : Char) (h : 128 ≤ c.toNat) : isAsciiBlank c = false := by
  rw [Bool.eq_false_iff]
  intro hc
  simp only [isAsciiBlank, Bool.or_eq_true, beq_iff_eq] at hc
  rcases hc with (((rfl | rfl) | rfl) | rfl) | rfl
  all_goals exact absurd h (by decide)

theorem readAssignment_of_head? {r : List Char} (h : (skipBlank r).head? ≠ some '=') :
    Attribute.readAssignment r = (.absent, r) := by
  rw [Attribute.readAssignment]
  split
  next r' hr =>
    rw [hr] at h
    exact absurd rfl h
  next => rfl

/-- The reading of an attribute by places is that by what remains of the text. -/
theorem attributeAt_eq {s r : List Char} {c : Char} (hc : Attribute.isNameStart c)
    (h : c :: r <:+ s) :
    attributeAt s (restPlace s (c :: r)) =
      .ok (⟨c :: r.takeWhile Attribute.isNameChar,
          (Attribute.readAssignment (r.dropWhile Attribute.isNameChar)).1⟩,
        restPlace s (Attribute.readAssignment (r.dropWhile Attribute.isNameChar)).2) := by
  obtain ⟨lead, rfl⟩ := h
  have hname : (c :: r).takeWhile Attribute.isNameChar = c :: r.takeWhile Attribute.isNameChar := by
    rw [List.takeWhile_cons, if_pos (isNameChar_of_isNameStart hc)]
  have hr : r.takeWhile Attribute.isNameChar ++ r.dropWhile Attribute.isNameChar = r :=
    List.takeWhile_append_dropWhile
  generalize r.takeWhile Attribute.isNameChar = more at hname hr
  generalize r.dropWhile Attribute.isNameChar = rest at hr
  have hs : lead ++ c :: more ++ rest = lead ++ c :: r := by simp [← hr]
  have hslice := slice_append lead (c :: more) rest
  have hrest : rest <:+ lead ++ c :: r := ⟨_, hs⟩
  have hblank := (isSuffix_skipBlank rest).trans hrest
  have hstop : width lead + width (c :: more) = restPlace (lead ++ c :: r) rest := by
    rw [restPlace_of_append hs, width_append]
  rw [List.cons_append, hr, hstop] at hslice
  rw [restPlace_of_append rfl]
  simp only [attributeAt, drop_bytes, length_takeWhile_bytes not_isNameChar_of_high, hname, hstop,
    hslice, ok_bind, skipBlankAt_eq hrest, byteAt?_eq_some_iff (d := '=') (by decide) hblank]
  by_cases hequals : (skipBlank rest).head? = some '='
  · obtain ⟨after, hafter⟩ := List.head?_eq_some_iff.mp hequals
    rw [hafter] at hblank
    have hnext :
        restPlace (lead ++ c :: r) (skipBlank rest) + 1 = restPlace (lead ++ c :: r) after := by
      rw [restPlace_cons hblank, hafter, utf8Size_of_ascii (by decide)]
    have hsuffix : after <:+ lead ++ c :: r := (List.suffix_cons '=' after).trans hblank
    have hassignment : Attribute.readAssignment rest = Attribute.readValue (skipBlank after) := by
      simp only [Attribute.readAssignment, hafter]
    rw [if_pos hequals, hnext, skipBlankAt_eq hsuffix, hassignment]
    simp [valueAt_eq ((isSuffix_skipBlank after).trans hsuffix)]
  · rw [if_neg hequals, readAssignment_of_head? hequals]
    rfl

section
variable {s r : List Char} (found : List Attribute)

theorem attributeTurn_spread (h : '\x7b' :: r <:+ s) :
    attributeTurn s (restPlace s ('\x7b' :: r), found) =
      .ok (.next (restPlace s ((group? ('\x7b' :: r)).elim [] Prod.snd), found)) := by
  obtain ⟨lead, rfl⟩ := h
  have hstop : (groupStop? (lead ++ '\x7b' :: r) (width lead)).getD (width (lead ++ '\x7b' :: r)) =
      restPlace (lead ++ '\x7b' :: r) ((group? ('\x7b' :: r)).elim [] Prod.snd) := by
    rw [groupStop?_append]
    cases hgroup : group? ('\x7b' :: r) with
    | none => exact (restPlace_nil _).symm
    | some p =>
      have hs : lead ++ p.1 ++ p.2 = lead ++ '\x7b' :: r := by
        rw [List.append_assoc, (append_of_closeGroup? hgroup).1]
      rw [Option.elim_some, restPlace_of_append hs, width_append lead p.1]
      rfl
  rw [restPlace_of_append rfl]
  simp only [attributeTurn, byteAt?_of_ascii (c := '\x7b') (by decide), hstop]
  rfl

variable {c : Char} (h : c :: r <:+ s)
include h

theorem attributeTurn_name (hc : Attribute.isNameStart c) :
    attributeTurn s (restPlace s (c :: r), found) =
      .ok (.next (restPlace s (Attribute.readAssignment (r.dropWhile Attribute.isNameChar)).2,
        found ++ [⟨c :: r.takeWhile Attribute.isNameChar,
          (Attribute.readAssignment (r.dropWhile Attribute.isNameChar)).1⟩])) := by
  have hascii : c.toNat < 128 := Nat.lt_of_not_le fun hle => by
    simp [not_isNameStart_of_high c hle] at hc
  have hbyte := (byteAt?_eq_some_iff hascii h).mpr rfl
  have hblank : isAsciiBlank c = false := Bool.eq_false_iff.mpr fun hblank => by
    have hname := not_isBlank_of_isNameChar (isNameChar_of_isNameStart hc)
    simp [isBlank_of_isAsciiBlank hblank] at hname
  have hbrace : c ≠ '\x7b' := by
    rintro rfl
    exact absurd hc (by decide)
  simp [attributeTurn, hbyte, hblank, hbrace, hc, attributeAt_eq hc h]

theorem attributeTurn_other (hbrace : c ≠ '\x7b') (hc : Attribute.isNameStart c = false) :
    attributeTurn s (restPlace s (c :: r), found) = .ok (.next (restPlace s r, found)) := by
  have hnext := restPlace_cons h
  obtain ⟨lead, rfl⟩ := h
  obtain ⟨b, hb, hbyte⟩ := exists_byteAt? lead c r
  have hbrace' : b ≠ '\x7b' := mt (mem_encode_eq_iff (by decide) hb).mp hbrace
  have hstart := mem_encode_class not_isNameStart_of_high hb
  have hblank := mem_encode_class not_isAsciiBlank_of_high hb
  rw [hnext, restPlace_of_append rfl]
  simp only [attributeTurn, hbyte, hblank]
  cases hc' : isAsciiBlank c with
  | true =>
    have hascii : c.toNat < 128 := Nat.lt_of_not_le fun hle => by
      simp [not_isAsciiBlank_of_high c hle] at hc'
    simp [utf8Size_of_ascii hascii]
  | false => simp [hbrace', hstart, hc, sliceFrom_append]

end

theorem attributeTurn_yields {s r : List Char} (h : r <:+ s) (found : List Attribute) :
    Yields (attributeTurn s) (width r) (restPlace s r, found) (found ++ Attribute.parse r) := by
  fun_induction Attribute.parse r generalizing found with
  | case1 =>
    refine .of_done ?_
    rw [restPlace_nil, attributeTurn, byteAt?_width, List.append_nil]
    rfl
  | case2 r group after hgroup _ ih =>
    have hturn := attributeTurn_spread found h
    obtain ⟨happend, hne⟩ := append_of_closeGroup? hgroup
    have hsuffix : after <:+ s := List.IsSuffix.trans ⟨group, happend⟩ h
    rw [hgroup] at hturn
    exact .of_next hturn (ih hsuffix found) (width_lt_of_append happend hne)
  | case3 r hgroup =>
    have hturn := attributeTurn_spread found h
    have hend : Yields (attributeTurn s) 0 (restPlace s [], found) found := by
      refine .of_done ?_
      rw [restPlace_nil, attributeTurn, byteAt?_width]
      rfl
    rw [hgroup] at hturn
    rw [List.append_nil]
    exact .of_next hturn hend (width_pos (List.cons_ne_nil _ r))
  | case4 c r hbrace hc name assignment _ ih =>
    have hrest : assignment.2 <:+ r :=
      (isSuffix_readAssignment _).trans (List.dropWhile_suffix Attribute.isNameChar)
    have hyields :=
      ih (hrest.trans ((List.suffix_cons c r).trans h)) (found ++ [⟨name, assignment.1⟩])
    rw [List.append_assoc] at hyields
    exact .of_next (attributeTurn_name found h hc) hyields
      (Nat.lt_of_le_of_lt (width_le_of_isSuffix hrest) (Nat.lt_add_of_pos_left c.utf8Size_pos))
  | case5 c r hbrace hc ih =>
    have hturn := attributeTurn_other found h hbrace (Bool.eq_false_iff.mpr hc)
    exact .of_next hturn (ih ((List.suffix_cons c r).trans h) found)
      (Nat.lt_add_of_pos_left c.utf8Size_pos)

theorem attributesOf_eq (s : List Char) : attributesOf s = .ok (Attribute.parse s) := by
  have hyields := attributeTurn_yields (List.suffix_refl s) []
  rw [restPlace_self] at hyields
  exact hyields _ (Nat.lt_succ_self _)

end StaticPreview.Place
