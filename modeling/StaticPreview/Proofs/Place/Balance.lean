import StaticPreview.Markup.Balance
import StaticPreview.Proofs.Place.Tag

/-! # Matching closing tags by their places

The search goes from one opening angle bracket to the next. It counts the element that it is in
itself, so its depth is one more than the number of elements that are nested in that one.
-/
namespace StaticPreview.Place
open Text Markup

def bracketTurn (text tag : List Char) (depth place : Nat) :
    Checked (Turn (Nat × Nat) (Option Nat)) := do
  let rest ← sliceFrom text place
  if (after? (closingTag tag) rest).isSome then
    let depth ← minus depth 1
    if depth = 0 then return .done (some place)
    else return .next (depth, place + width (closingTag tag))
  else if opensTag tag rest then
    match ← tagEnd text place with
    | some tag => return .next (if tag.selfCloses then depth else depth + 1, tag.stop)
    | none => return .next (depth + 1, place + 1)
  else return .next (depth, place + 1)

def contentTurn (text tag : List Char) (state : Nat × Nat) :
    Checked (Turn (Nat × Nat) (Option Nat)) := do
  match findPlace? (· == '<') (← sliceFrom text state.2) with
  | some offset => bracketTurn text tag state.1 (state.2 + offset)
  | none => return .done none

def contentStop (text tag : List Char) : Checked (Option Nat) :=
  loop (contentTurn text tag) (width text + 1) (1, 0)

def contentAt (span tag : List Char) (place : Nat) : Checked (Option (List Char × Nat)) := do
  match ← contentStop (← sliceFrom span place) tag with
  | some close =>
    return some (← slice span place (place + close), place + close + width (closingTag tag))
  | none => return none

section
variable (lead : List Char)

theorem contentTurn_end (tag : List Char) (depth : Nat) :
    contentTurn lead tag (depth, width lead) = .ok (.done none) := by
  have hslice : sliceFrom lead (width lead) = .ok [] := by simpa using sliceFrom_append lead []
  rw [contentTurn, hslice]
  rfl

theorem contentTurn_bracket (tag r : List Char) (depth : Nat) :
    contentTurn (lead ++ '<' :: r) tag (depth, width lead) =
      bracketTurn (lead ++ '<' :: r) tag depth (width lead) := by
  rw [contentTurn, sliceFrom_append]
  rfl

theorem contentTurn_other {c : Char} (hc : c ≠ '<') (tag r : List Char) (depth : Nat) :
    contentTurn (lead ++ c :: r) tag (depth, width lead) =
      contentTurn (lead ++ c :: r) tag (depth, width (lead ++ [c])) := by
  have hfind : findPlace? (· == '<') (c :: r) = (findPlace? (· == '<') r).map (c.utf8Size + ·) := by
    simp [findPlace?, hc]
  simp only [contentTurn, sliceFrom_append, sliceFrom_cons, ok_bind, hfind]
  cases findPlace? (· == '<') r with
  | none => rfl
  | some offset => simp [Nat.add_assoc]

section
variable {tag r : List Char} (depth : Nat)

theorem bracketTurn_closing {after : List Char}
    (h : after? (closingTag tag) ('<' :: r) = some after) :
    bracketTurn (lead ++ '<' :: r) tag (depth + 1) (width lead) =
      .ok (if depth = 0 then .done (some (width lead))
        else .next (depth, width (lead ++ closingTag tag))) := by
  simp only [bracketTurn, sliceFrom_append, ok_bind, h, Option.isSome_some, if_true,
    minus_of_le (Nat.le_add_left 1 depth), Nat.add_sub_cancel, width_append]
  split <;> rfl

variable (hclose : after? (closingTag tag) ('<' :: r) = none)
include hclose

/-- At an opening tag the search goes one level deeper, unless the tag closes itself or has no end.
-/
theorem bracketTurn_opening (hopen : opensTag tag ('<' :: r)) :
    bracketTurn (lead ++ '<' :: r) tag (depth + 1) (width lead) =
      .ok ((tagBody? r).elim (.next (depth + 1 + 1, width (lead ++ ['<']))) fun p =>
        .next ((if selfCloses p.1 then depth else depth + 1) + 1,
          width (lead ++ ('<' :: p.1 ++ ['>'])))) := by
  simp only [bracketTurn, sliceFrom_append, ok_bind, hclose, Option.isSome_none, hopen, if_true,
    tagEnd_append]
  cases tagBody? r with
  | none =>
    rw [width_concat_of_ascii (by decide)]
    rfl
  | some p =>
    rw [Option.elim_some, ← TagEnd.stop_ofBody, Option.map_some]
    by_cases h : selfCloses p.1 <;> simp [TagEnd.ofBody, h]

theorem bracketTurn_other (hopen : opensTag tag ('<' :: r) = false) :
    bracketTurn (lead ++ '<' :: r) tag depth (width lead) =
      .ok (.next (depth, width (lead ++ ['<']))) := by
  rw [width_concat_of_ascii (by decide)]
  simp only [bracketTurn, sliceFrom_append, ok_bind, hclose, Option.isSome_none, hopen]
  rfl

end
end

theorem contentTurn_yields {tag s r : List Char} (lead : List Char) (hs : lead ++ r = s)
    (depth : Nat) :
    Yields (contentTurn s tag) (width r) (depth + 1, width lead)
      (stopOf (width lead) (readContent? tag depth r)) := by
  fun_induction readContent? tag depth r generalizing lead with
  | case1 =>
    refine .of_done ?_
    rw [← hs, List.append_nil, contentTurn_end]
    rfl
  | case2 r after hclose =>
    refine .of_done ?_
    rw [← hs, contentTurn_bracket, bracketTurn_closing lead 0 hclose]
    rfl
  | case3 depth r after hdepth hclose _ ih =>
    have happend := after?_eq_some_iff.mp hclose
    have hturn := bracketTurn_closing lead depth hclose
    have hrest := ih (lead ++ closingTag tag) (by rw [List.append_assoc, happend, hs])
    rw [← contentTurn_bracket, hs, if_neg hdepth] at hturn
    rw [Nat.sub_add_cancel (Nat.pos_of_ne_zero hdepth)] at hrest
    rw [← happend]
    exact .of_prepend (by simp [closingTag]) hturn hrest
  | case4 depth r body after hbody _ inner hclose hopen ih =>
    have happend : ('<' :: body ++ ['>']) ++ after = '<' :: r := by
      simp [← append_of_tagBody? hbody]
    have hturn := bracketTurn_opening lead depth hclose hopen
    have hrest := ih (lead ++ ('<' :: body ++ ['>'])) (by rw [List.append_assoc, happend, hs])
    have hreading : (readContent? tag inner after).map (fun p => ('<' :: body ++ '>' :: p.1, p.2)) =
        prepend ('<' :: body ++ ['>']) (readContent? tag inner after) := by
      simp [prepend]
    rw [← contentTurn_bracket, hs, hbody] at hturn
    rw [hreading, ← happend]
    exact .of_prepend (by simp) hturn hrest
  | case5 depth r hbody hclose hopen ih =>
    have hturn := bracketTurn_opening lead depth hclose hopen
    have hrest := ih (lead ++ ['<']) (by simp [← hs])
    rw [← contentTurn_bracket, hs, hbody] at hturn
    exact .of_prepend (List.cons_ne_nil '<' []) hturn hrest
  | case6 depth r hclose hopen ih =>
    have hturn := bracketTurn_other lead (depth + 1) hclose (Bool.eq_false_iff.mpr hopen)
    have hrest := ih (lead ++ ['<']) (by simp [← hs])
    rw [← contentTurn_bracket, hs] at hturn
    exact .of_prepend (List.cons_ne_nil '<' []) hturn hrest
  | case7 depth c r hc ih =>
    -- The turn at this character is the turn at the next one.
    have hturn := contentTurn_other lead hc tag r (depth + 1)
    have hplace := stopOf_prepend (width lead) [c] (readContent? tag depth r)
    have hrest := ih (lead ++ [c]) (by simp [← hs])
    rw [hs] at hturn
    rw [width_append, ← hplace, ← width_append] at hrest
    exact .mono (.of_eq hturn hrest) (Nat.le_add_left (width r) c.utf8Size)

theorem contentStop_eq (text tag : List Char) :
    contentStop text tag = .ok (stopOf 0 (content? tag text)) :=
  contentTurn_yields [] rfl 0 _ (Nat.lt_succ_self _)

theorem contentAt_append (a r tag : List Char) :
    contentAt (a ++ r) tag (width a) =
      .ok ((content? tag r).map fun p => (p.1, restPlace (a ++ r) p.2)) := by
  simp only [contentAt, sliceFrom_append, ok_bind, contentStop_eq]
  cases hcontent : content? tag r with
  | none => rfl
  | some p =>
    have happend : p.1 ++ (closingTag tag ++ p.2) = r := by
      rw [← List.append_assoc]
      exact append_of_readContent? hcontent
    have hlead : a ++ p.1 ++ closingTag tag ++ p.2 = a ++ r := by simp [← happend]
    have hslice : slice (a ++ r) (width a) (width a + width p.1) = .ok p.1 := by
      rw [← happend, slice_append]
    rw [Option.map_some, restPlace_of_append hlead]
    simp [stopOf, hslice, Nat.add_assoc]

end StaticPreview.Place
