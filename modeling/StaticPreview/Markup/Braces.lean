/-! # Brace groups

A group runs from an opening brace to the brace that closes it. Braces inside a quoted literal do
not count; in a literal a backslash takes the next character with it.
-/
namespace StaticPreview.Markup

def isQuote (c : Char) : Bool :=
  c == '"' || c == '\'' || c == '\x60'

/-- Reads on inside `depth` open groups, and inside a literal when `quote` is its mark, up to
where the last group is closed: what was read, and what follows. A closing brace with no group
open ends the reading as well. -/
def closeGroup? (quote : Option Char) (depth : Nat) :
    List Char → Option (List Char × List Char)
  | [] => none
  | c :: r =>
    match quote with
    | some q =>
      if c = '\\' then
        match r with
        | [] => none
        | d :: r' => (closeGroup? (some q) depth r').map fun p => (c :: d :: p.1, p.2)
      else
        (closeGroup? (if c = q then none else some q) depth r).map fun p => (c :: p.1, p.2)
    | none =>
      if isQuote c then (closeGroup? (some c) depth r).map fun p => (c :: p.1, p.2)
      else if c = '\x7b' then (closeGroup? none (depth + 1) r).map fun p => (c :: p.1, p.2)
      else if c = '\x7d' then
        if depth ≤ 1 then some ([c], r)
        else (closeGroup? none (depth - 1) r).map fun p => (c :: p.1, p.2)
      else (closeGroup? none depth r).map fun p => (c :: p.1, p.2)

def group? (s : List Char) : Option (List Char × List Char) :=
  closeGroup? none 0 s

/-- A reading splits the text, and takes at least the brace that ends it. -/
theorem append_of_closeGroup? {quote : Option Char} {depth : Nat} {s a b : List Char}
    (h : closeGroup? quote depth s = some (a, b)) : a ++ b = s ∧ a ≠ [] := by
  fun_induction closeGroup? quote depth s generalizing a b with
  | case1 => simp at h
  | case2 => simp at h
  | case7 =>
    obtain ⟨rfl, rfl⟩ := Prod.mk.inj (Option.some.inj h)
    simp
  | _ =>
    obtain ⟨⟨x, y⟩, hp, hxy⟩ := Option.map_eq_some_iff.mp h
    obtain ⟨rfl, rfl⟩ := Prod.mk.inj hxy
    rename_i ih
    simp [(ih hp).1]

theorem length_of_closeGroup? {quote : Option Char} {depth : Nat} {s a b : List Char}
    (h : closeGroup? quote depth s = some (a, b)) : b.length < s.length := by
  obtain ⟨rfl, ha⟩ := append_of_closeGroup? h
  simp [List.length_pos_iff.mpr ha]

theorem length_of_group? {s a b : List Char} (h : group? s = some (a, b)) :
    b.length < s.length :=
  length_of_closeGroup? h

end StaticPreview.Markup
