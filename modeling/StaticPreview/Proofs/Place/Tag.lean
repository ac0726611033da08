import StaticPreview.Markup.Tag
import StaticPreview.Proofs.Place.Group
import StaticPreview.Proofs.Place.Loop
import StaticPreview.Proofs.Text.Trim

/-! # Tags by their places

The end of a tag is sought from byte to byte behind its opening angle bracket. Whether the tag
closes itself is read backwards from its end.
-/
namespace StaticPreview.Place
open Text Markup

structure TagEnd where
  /-- The place behind the closing angle bracket. -/
  stop : Nat
  /-- The place behind the attributes. -/
  bodyStop : Nat
  selfCloses : Bool
  deriving DecidableEq, Repr

/-- The end of the tag that begins at `start`, found at the closing angle bracket at `place`. -/
def closeTag (s : List Char) (start place : Nat) : Checked TagEnd := do
  let before := trimEnd (← slice s 0 place)
  if start + 1 < width before ∧ before.getLast? = some '/' then
    return ⟨place + 1, ← minus (width before) 1, true⟩
  else return ⟨place + 1, place, false⟩

def tagTurn (s : List Char) (start place : Nat) : Checked (Turn Nat (Option TagEnd)) :=
  match byteAt? s place with
  | none => return .done none
  | some b =>
    if b = '"' ∨ b = '\'' then do
      match findPlace? (· == b) (← sliceFrom s (place + 1)) with
      | some close => return .next (place + (close + 2))
      | none => return .done none
    else if b = '\x7b' then
      match groupStop? s place with
      | some stop => return .next stop
      | none => return .done none
    else if b = '>' then return .done (some (← closeTag s start place))
    else return .next (place + 1)

def tagEnd (s : List Char) (start : Nat) : Checked (Option TagEnd) :=
  loop (tagTurn s start) (width s + 1) (start + 1)

def TagEnd.ofBody (start : Nat) (body : List Char) : TagEnd :=
  ⟨start + 1 + width body + 1, start + 1 + width (openBody body), Markup.selfCloses body⟩

theorem width_tag (a body : List Char) : width (a ++ '<' :: body) = width a + 1 + width body := by
  rw [width_append, width_cons_of_ascii (by decide), Nat.add_assoc]

theorem TagEnd.stop_ofBody (a body : List Char) :
    (TagEnd.ofBody (width a) body).stop = width (a ++ ('<' :: body ++ ['>'])) := by
  rw [← List.append_assoc, width_concat_of_ascii (by decide), width_tag]
  rfl

/-- The slash of a tag that closes itself stands behind the opening angle bracket. -/
theorem selfCloses_iff (a body : List Char) :
    selfCloses body ↔
      width a + 1 < width (a ++ '<' :: trimEnd body) ∧
        (a ++ '<' :: trimEnd body).getLast? = some '/' := by
  rw [selfCloses, beq_iff_eq, width_tag]
  rcases (trimEnd body).eq_nil_or_concat with h | ⟨x, c, h⟩
  · simp [h, width]
  · have hlt : width a + 1 < width a + 1 + width (x ++ [c]) := by
      have hc := c.utf8Size_pos
      rw [width_append, width_singleton]
      omega
    rw [h, List.concat_eq_append, ← List.cons_append, ← List.append_assoc, List.getLast?_concat,
      List.getLast?_concat, and_iff_right hlt]

theorem closeTag_append (a body r : List Char) :
    closeTag (a ++ '<' :: body ++ r) (width a) (width (a ++ '<' :: body)) =
      .ok (.ofBody (width a) body) := by
  rw [closeTag, slice_zero_append]
  change (if width a + 1 < width (trimEnd (a ++ '<' :: body)) ∧
    (trimEnd (a ++ '<' :: body)).getLast? = some '/' then _ else _) = _
  rw [trimEnd_append_cons (by decide), TagEnd.ofBody, openBody]
  by_cases h : selfCloses body
  · have hslash : (trimEnd body).getLast? = some '/' := by simpa [selfCloses] using h
    obtain ⟨x, hx⟩ := List.getLast?_eq_some_iff.mp hslash
    have hx' : (trimEnd body).dropLast = x := by rw [hx, List.dropLast_concat]
    have hwidth : width (a ++ '<' :: trimEnd body) = width a + 1 + width x + 1 := by
      rw [width_tag, hx, width_append, width_singleton, utf8Size_of_ascii (by decide),
        Nat.add_assoc _ (width x)]
    rw [if_pos ((selfCloses_iff a body).mp h), hwidth, minus_of_le (by omega), h, if_pos rfl, hx',
      width_tag]
    rfl
  · rw [if_neg (mt (selfCloses_iff a body).mpr h), Bool.eq_false_iff.mpr h, width_tag]
    rfl

theorem tagTurn_quoted {mark : Char} (hmark : mark = '"' ∨ mark = '\'') (lead r : List Char)
    (start : Nat) :
    tagTurn (lead ++ mark :: r) start (width lead) =
      .ok ((cut? mark r).elim (.done none) fun p =>
        .next (width (lead ++ mark :: p.1 ++ [mark]))) := by
  have hascii : mark.toNat < 128 := by rcases hmark with rfl | rfl <;> decide
  rw [tagTurn, byteAt?_of_ascii hascii]
  simp only [if_pos hmark, sliceFrom_mark hascii, ok_bind, findPlace?_cut]
  cases cut? mark r with
  | none => rfl
  | some p =>
    rw [Option.elim_some, List.append_assoc lead, width_enclosed hascii hascii, Nat.add_assoc]
    rfl

theorem tagTurn_group (lead r : List Char) (start : Nat) :
    tagTurn (lead ++ '\x7b' :: r) start (width lead) =
      .ok ((group? ('\x7b' :: r)).elim (.done none) fun p => .next (width (lead ++ p.1))) := by
  rw [tagTurn, byteAt?_of_ascii (by decide), groupStop?_append]
  cases group? ('\x7b' :: r) with
  | none => rfl
  | some p => exact congrArg (fun place => Except.ok (Turn.next place)) (width_append lead p.1).symm

theorem tagTurn_close (a body r : List Char) :
    tagTurn (a ++ '<' :: body ++ '>' :: r) (width a) (width (a ++ '<' :: body)) =
      .ok (.done (some (.ofBody (width a) body))) := by
  rw [tagTurn, byteAt?_of_ascii (by decide), closeTag_append]
  rfl

theorem tagTurn_byte {c : Char} (hc : isPlain c) {k : Nat} (hk : k < c.utf8Size)
    (lead r : List Char) (start : Nat) :
    tagTurn (lead ++ c :: r) start (width lead + k) = .ok (.next (width lead + k + 1)) := by
  obtain ⟨b, hb, hbyte⟩ := exists_byteAt?_append hk lead r
  have hplain : isPlain b := by
    rcases eq_or_le_toNat_of_mem_encode hb with rfl | hhigh
    · exact hc
    · simp [isPlain, ne_of_le_toNat hhigh]
  simp only [isPlain, Bool.and_eq_true, bne_iff_ne] at hplain
  obtain ⟨⟨⟨h1, h2⟩, h3⟩, h4⟩ := hplain
  simp only [tagTurn, hbyte, h1, h2, h3, h4, or_self, if_false]
  rfl

/-- From inside a tag, behind the part `read` of its body, the turns go on to its end. -/
theorem tagTurn_yields {s a r : List Char} (read : List Char) (hs : a ++ '<' :: read ++ r = s) :
    Yields (tagTurn s (width a)) (width r) (width (a ++ '<' :: read))
      ((tagBody? r).map fun p => .ofBody (width a) (read ++ p.1)) := by
  fun_induction tagBody? r generalizing read with
  | case1 =>
    refine .of_done ?_
    rw [← hs, List.append_nil, tagTurn, byteAt?_width]
    rfl
  | case2 c r hmark hcut =>
    refine .of_done ?_
    rw [← hs, tagTurn_quoted hmark, hcut]
    rfl
  | case3 c r hmark value after hcut _ ih =>
    have hturn := tagTurn_quoted hmark (a ++ '<' :: read) r (width a)
    have happend : (c :: value ++ [c]) ++ after = c :: r := by simp [← append_of_cut? hcut]
    rw [hs, hcut] at hturn
    refine .of_next hturn ?_ (width_lt_of_append happend (by simp))
    simpa [Function.comp_def] using ih (read ++ (c :: value ++ [c])) (by simp [← hs, ← happend])
  | case4 r _ hgroup =>
    refine .of_done ?_
    rw [← hs, tagTurn_group, hgroup]
    rfl
  | case5 r group after _ hgroup _ ih =>
    have hturn := tagTurn_group (a ++ '<' :: read) r (width a)
    obtain ⟨happend, hne⟩ := append_of_closeGroup? hgroup
    rw [hs, hgroup] at hturn
    refine .of_next hturn ?_ (width_lt_of_append happend hne)
    simpa [Function.comp_def] using ih (read ++ group) (by simp [← hs, ← happend])
  | case6 r _ _ =>
    refine .of_done ?_
    rw [← hs, tagTurn_close]
    simp
  | case7 c r hmark hgroup hclose ih =>
    have hplain : isPlain c := by simp_all [isPlain]
    have hbyte {k : Nat} (hk : k < c.utf8Size) :=
      tagTurn_byte hplain hk (a ++ '<' :: read) r (width a)
    have hplace : width (a ++ '<' :: read) + c.utf8Size = width (a ++ '<' :: (read ++ [c])) := by
      rw [width_tag, width_tag, width_append, width_singleton, Nat.add_assoc _ (width read)]
    rw [hs] at hbyte
    refine .of_bytes (fun k hk => hbyte hk) ?_
    rw [hplace]
    simpa [Function.comp_def] using ih (read ++ [c]) (by simp [← hs])

theorem tagEnd_append (a r : List Char) :
    tagEnd (a ++ '<' :: r) (width a) =
      .ok ((tagBody? r).map fun p => .ofBody (width a) p.1) := by
  have hs : a ++ ['<'] ++ r = a ++ '<' :: r := by simp
  have h := tagTurn_yields [] hs (width (a ++ '<' :: r) + 1) (by rw [width_tag]; omega)
  rwa [width_concat_of_ascii (by decide)] at h

end StaticPreview.Place
