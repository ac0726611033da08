import StaticPreview.Component.Operand
import StaticPreview.Proofs.Component.Returns
import StaticPreview.Proofs.Place.Balance

/-! # The markup of a component by places

Each return is tried from its own place to the end of the source. Of the operand that is found both
ends are cut off by their places, first a pair of parentheses and then the tags of a fragment.
-/
namespace StaticPreview.Place
open Text Markup Component

def returnPlaces (before : Option Char) (place : Nat) : List Char → List Nat
  | [] => []
  | c :: r =>
    let more := returnPlaces (some c) (place + c.utf8Size) r
    match after? "return".toList (c :: r) with
    | some rest =>
      if (before.map isWord).getD false || (rest.head?.map isWord).getD false then more
      else place :: more
    | none => more

/-- The operand of the first of the returns at these places that has one. -/
def operandAt (source : List Char) : List Nat → Checked (Option (List Char))
  | [] => return none
  | place :: more => do
    match after? "return".toList (← sliceFrom source place) >>= operand? with
    | some operand => return some operand
    | none => operandAt source more

def returnPlace (source rest : List Char) : Nat :=
  restPlace source ("return".toList ++ rest)

theorem returnPlaces_eq {s r : List Char} (h : r <:+ s) (before : Option Char) :
    returnPlaces before (restPlace s r) r = (afterReturns before r).map (returnPlace s) := by
  induction r generalizing before with
  | nil => rfl
  | cons c r ih =>
    have hmore := ih ((List.suffix_cons c r).trans h) (some c)
    rw [restPlace_cons h] at hmore
    rw [returnPlaces, afterReturns, hmore]
    cases hrest : after? "return".toList (c :: r) with
    | none => rfl
    | some rest =>
      have happend := after?_eq_some_iff.mp hrest
      dsimp only
      split
      · rfl
      · rw [List.map_cons, returnPlace, happend]

theorem operandAt_cons {s rest : List Char} (h : "return".toList ++ rest <:+ s)
    (more : List Nat) :
    operandAt s (returnPlace s rest :: more) =
      match operand? rest with
      | some operand => .ok (some operand)
      | none => operandAt s more := by
  obtain ⟨lead, hlead⟩ := h
  have hslice : sliceFrom s (returnPlace s rest) = .ok ("return".toList ++ rest) := by
    rw [returnPlace, restPlace_of_append hlead, ← hlead, sliceFrom_append]
  have hafter : after? "return".toList ("return".toList ++ rest) = some rest :=
    after?_eq_some_iff.mpr rfl
  rw [operandAt, hslice, ok_bind, hafter, Option.bind_eq_bind, Option.bind_some]
  cases operand? rest <;> rfl

theorem operandAt_eq {s : List Char} {rests : List (List Char)}
    (h : ∀ rest ∈ rests, "return".toList ++ rest <:+ s) :
    operandAt s (rests.map (returnPlace s)) = .ok (rests.findSome? operand?) := by
  induction rests with
  | nil => rfl
  | cons rest more ih =>
    obtain ⟨hrest, hmore⟩ := List.forall_mem_cons.mp h
    rw [List.map_cons, operandAt_cons hrest, List.findSome?_cons, ih hmore]
    cases operand? rest <;> rfl

def closesAt (s : List Char) (depth : Nat) : List (Nat × Char) → Checked Bool
  | [] => return false
  | (place, c) :: more => do
    if c = '(' then closesAt s (depth + 1) more
    else if c = ')' then
      let depth ← minus depth 1
      let last ← minus (width s) 1
      if depth = 0 ∧ place ≠ last then return true
      else closesAt s depth more
    else closesAt s depth more

def stripParens (s : List Char) : Checked (List Char) := do
  if s.head? = some '(' ∧ s.getLast? = some ')' then
    if ← closesAt s 0 (charPlaces 0 s) then return s
    else return trim (← slice s 1 (← minus (width s) 1))
  else return s

section
variable {s a r : List Char}

theorem closesAt_closing (hs : a ++ ')' :: r = s) (depth : Nat) :
    closesAt s (depth + 1) (charPlaces (width a) (')' :: r)) =
      if depth = 0 ∧ r ≠ [] then .ok true
      else closesAt s depth (charPlaces (width (a ++ [')'])) r) := by
  have hwidth : width s = width a + 1 + width r := by
    rw [← hs, width_append, width_cons_of_ascii (by decide), Nat.add_assoc]
  have hlast : width a ≠ width s - 1 ↔ r ≠ [] := by
    rw [Ne, Ne, ← width_eq_zero_iff]
    omega
  have hone : 1 ≤ width s := by omega
  simp [charPlaces, closesAt, minus_of_le (Nat.le_add_left 1 depth), minus_of_le hone, hlast]

/-- Behind the opening parenthesis the depth stays above zero as far as the last character. -/
theorem closesAt_eq (hs : a ++ r = s) {depth : Nat} (hpos : 0 < depth) :
    closesAt s depth (charPlaces (width a) r) = .ok (closesEarly depth r) := by
  fun_induction closesEarly depth r generalizing a with
  | case1 => rfl
  | case2 depth c =>
    obtain ⟨depth, rfl⟩ := Nat.exists_eq_add_one.mpr hpos
    by_cases hc : c = ')'
    · subst hc
      rw [closesAt_closing hs, if_neg fun h => h.2 rfl]
      rfl
    · by_cases hopening : c = '(' <;> simp [charPlaces, closesAt, hc, hopening]
  | case3 depth r hr ih =>
    have hrest := ih (a := a ++ ['(']) (by simp [← hs]) depth.succ_pos
    rw [width_append, width_singleton] at hrest
    exact hrest
  | case4 depth r hr _ ih =>
    obtain ⟨depth, rfl⟩ := Nat.exists_eq_add_one.mpr hpos
    rw [closesAt_closing hs, Nat.add_sub_cancel]
    by_cases hdepth : depth = 0
    · rw [if_pos ⟨hdepth, hr⟩, hdepth]
      rfl
    · rw [if_neg fun h => hdepth h.1]
      have hrest := ih (a := a ++ [')']) (by simp [← hs]) (Nat.pos_of_ne_zero hdepth)
      have hbeq : (depth + 1 == 1) = false := by simpa using hdepth
      rw [Nat.add_sub_cancel] at hrest
      rw [hrest, hbeq, Bool.false_or]
  | case5 depth c r hr hopening hclosing ih =>
    have hrest := ih (a := a ++ [c]) (by simp [← hs]) hpos
    rw [width_append, width_singleton] at hrest
    rw [charPlaces, closesAt, if_neg hopening, if_neg hclosing, hrest]

end

theorem closesAt_zero (r : List Char) :
    closesAt ('(' :: r) 0 (charPlaces 0 ('(' :: r)) = .ok (closesEarly 0 ('(' :: r)) := by
  cases r with
  | nil => rfl
  | cons c r => exact closesAt_eq (a := ['(']) rfl Nat.one_pos

theorem stripParens_enclosed (m : List Char) :
    stripParens ('(' :: m ++ [')']) = .ok (Component.stripParens ('(' :: m ++ [')'])) := by
  have hhead : ('(' :: m ++ [')']).head? = some '(' := rfl
  have hlast : ('(' :: m ++ [')']).getLast? = some ')' := List.getLast?_concat
  have hinner : ('(' :: m ++ [')']).tail.dropLast = m := List.dropLast_concat
  have hwidth : width ('(' :: m ++ [')']) = 1 + width m + 1 := by
    rw [width_concat_of_ascii (by decide), width_cons_of_ascii (by decide)]
  have hminus : minus (1 + width m + 1) 1 = .ok (1 + width m) :=
    minus_of_le (Nat.le_add_left 1 (1 + width m))
  have hslice : slice ('(' :: m ++ [')']) 1 (1 + width m) = .ok m :=
    slice_mark (c := '(') (by decide) [] m [')']
  rw [stripParens, if_pos ⟨hhead, hlast⟩, List.cons_append, closesAt_zero, ← List.cons_append,
    Component.stripParens, hinner, ok_bind]
  cases hcloses : closesEarly 0 ('(' :: m ++ [')']) with
  | true => simp
  | false =>
    simp only [Bool.false_eq_true, if_false, hwidth, hminus, ok_bind, hslice, hhead, hlast,
      and_self, if_true, pure_eq_ok]

theorem stripParens_eq (s : List Char) : stripParens s = .ok (Component.stripParens s) := by
  by_cases hends : s.head? = some '(' ∧ s.getLast? = some ')'
  · obtain ⟨hhead, hlast⟩ := hends
    obtain ⟨m, rfl⟩ := List.getLast?_eq_some_iff.mp hlast
    cases m with
    | nil => simp at hhead
    | cons c m =>
      obtain rfl : c = '(' := by simpa using hhead
      exact stripParens_enclosed m
  · rw [stripParens, if_neg hends, Component.stripParens, if_neg fun h => hends ⟨h.1, h.2.1⟩]
    rfl

/-- Drops the tags of a fragment if the last one of the text closes it. -/
def stripFragment (s : List Char) : Checked (List Char) := do
  if (after? ['<', '>'] s).isSome ∧ closingTag [] <:+ s then
    let inner ← sliceFrom s 2
    match ← contentStop inner [] with
    | some close =>
      if close = (← minus (width inner) 3) then return trim (← slice inner 0 close)
      else return s
    | none => return s
  else return s

theorem width_of_content? {inner content rest : List Char}
    (h : content? [] inner = some (content, rest)) :
    width inner = width content + width rest + 3 := by
  have hclosing : width (closingTag []) = 3 := by decide
  rw [← append_of_readContent? h, width_append, width_append, hclosing]
  omega

theorem stripFragment_opening (inner : List Char) :
    stripFragment (['<', '>'] ++ inner) =
      .ok (Component.stripFragment (['<', '>'] ++ inner)) := by
  have hafter : after? ['<', '>'] (['<', '>'] ++ inner) = some inner :=
    after?_eq_some_iff.mpr rfl
  have hslice : sliceFrom (['<', '>'] ++ inner) 2 = .ok inner :=
    sliceFrom_append ['<', '>'] inner
  rw [stripFragment, Component.stripFragment, hafter, hslice, Option.bind_eq_bind,
    Option.bind_some]
  simp only [ok_bind, contentStop_eq, Option.isSome_some, true_and]
  cases hcontent : content? [] inner with
  | none => split <;> rfl
  | some p =>
    obtain ⟨content, rest⟩ := p
    have happend : content ++ (closingTag [] ++ rest) = inner := by
      rw [← List.append_assoc]
      exact append_of_readContent? hcontent
    have hminus : minus (width inner) 3 = .ok (width content + width rest) := by
      rw [width_of_content? hcontent, minus_of_le (Nat.le_add_left _ _), Nat.add_sub_cancel]
    have hpart : slice inner 0 (width content) = .ok content := by
      rw [← happend, slice_zero_append]
    simp only [stopOf_some, Nat.zero_add, hminus, ok_bind, hpart]
    cases rest with
    | nil =>
      have hends : closingTag [] <:+ ['<', '>'] ++ inner :=
        ⟨['<', '>'] ++ content, by rw [← happend]; simp⟩
      rw [if_pos hends, if_pos (by simp [width])]
      rfl
    | cons c rest =>
      -- The content stops before the last closing tag.
      have hpos : 0 < width (c :: rest) := width_pos (List.cons_ne_nil c rest)
      rw [if_neg (c := width content = _) (by omega)]
      split <;> rfl

theorem stripFragment_eq (s : List Char) : stripFragment s = .ok (Component.stripFragment s) := by
  cases hopening : after? ['<', '>'] s with
  | none =>
    rw [stripFragment, Component.stripFragment, hopening]
    rfl
  | some inner =>
    obtain rfl := after?_eq_some_iff.mp hopening
    exact stripFragment_opening inner

def unwrap (s : List Char) : Checked (List Char) := do
  stripFragment (← stripParens (trim s))

def findMarkup (source : List Char) : Checked (Option (List Char)) := do
  match ← operandAt source (returnPlaces none 0 source).reverse with
  | some operand => return some (← unwrap operand)
  | none => return none

theorem unwrap_eq (s : List Char) : unwrap s = .ok (Component.unwrap s) := by
  rw [unwrap, stripParens_eq, ok_bind, stripFragment_eq, Component.unwrap]

theorem findMarkup_eq (source : List Char) : findMarkup source = .ok (markup? source) := by
  have hplaces : returnPlaces none 0 source =
      (afterReturns none source).map (returnPlace source) := by
    rw [← restPlace_self source]
    exact returnPlaces_eq (List.suffix_refl source) none
  have hrests : ∀ rest ∈ (afterReturns none source).reverse,
      "return".toList ++ rest <:+ source := by
    intro rest hrest
    obtain ⟨lead, hlead, -, -⟩ := mem_afterReturns_none_iff.mp (List.mem_reverse.mp hrest)
    exact ⟨lead, hlead.symm⟩
  rw [findMarkup, hplaces, ← List.map_reverse, operandAt_eq hrests, ok_bind, markup?]
  cases (afterReturns none source).reverse.findSome? operand? with
  | none => rfl
  | some operand =>
    simp only [unwrap_eq, ok_bind]
    rfl

end StaticPreview.Place
