import StaticPreview.Markup.Braces
import StaticPreview.Text.Blank
import StaticPreview.Text.Cut

/-! # Tags

A tag is read from the text after its opening angle bracket. It ends at the first closing angle
bracket that stands in no quoted value and in no brace group; what stands before that bracket is
the body of the tag.
-/
namespace StaticPreview.Markup

def isNameChar (c : Char) : Bool :=
  c.isAlphanum || c == '_' || c == '.' || c == ':' || c == '-'

def tagName? : List Char → Option (List Char)
  | [] => none
  | c :: r => if c.isAlpha then some (c :: r.takeWhile isNameChar) else none

/-- The body of a tag and the text after it. A value in double or single quotes ends at the next
such mark, whatever stands between; a brace group ends where `group?` says. -/
def tagBody? (s : List Char) : Option (List Char × List Char) :=
  match s with
  | [] => none
  | c :: r =>
    if c = '"' ∨ c = '\'' then
      match h : Text.cut? c r with
      | none => none
      | some (value, after) =>
        have := Text.length_of_cut? h
        (tagBody? after).map fun p => (c :: value ++ c :: p.1, p.2)
    else if c = '\x7b' then
      match h : group? (c :: r) with
      | none => none
      | some (group, after) =>
        have := length_of_group? h
        (tagBody? after).map fun p => (group ++ p.1, p.2)
    else if c = '>' then some ([], r)
    else (tagBody? r).map fun p => (c :: p.1, p.2)
termination_by s.length
decreasing_by all_goals simp only [List.length_cons] at *; omega

theorem tagBody?_close (s : List Char) : tagBody? ('>' :: s) = some ([], s) := by
  rw [tagBody?]
  simp

def isPlain (c : Char) : Bool :=
  c != '"' && c != '\'' && c != '\x7b' && c != '>'

theorem tagBody?_plain {c : Char} (h : isPlain c) (s : List Char) :
    tagBody? (c :: s) = (tagBody? s).map fun p => (c :: p.1, p.2) := by
  simp only [isPlain, Bool.and_eq_true, bne_iff_ne] at h
  obtain ⟨⟨⟨h1, h2⟩, h3⟩, h4⟩ := h
  rw [tagBody?]
  simp [h1, h2, h3, h4]

theorem tagBody?_quoted {mark : Char} (hmark : mark = '"' ∨ mark = '\'') {value after : List Char}
    {s : List Char} (h : Text.cut? mark s = some (value, after)) :
    tagBody? (mark :: s) = (tagBody? after).map fun p => (mark :: value ++ mark :: p.1, p.2) := by
  rw [tagBody?, if_pos hmark]
  split
  next h' => simp [h] at h'
  next value' after' h' =>
    obtain ⟨rfl, rfl⟩ := Prod.mk.inj (Option.some.inj (h'.symm.trans h))
    rfl

theorem tagBody?_group {group after s : List Char}
    (h : group? ('\x7b' :: s) = some (group, after)) :
    tagBody? ('\x7b' :: s) = (tagBody? after).map fun p => (group ++ p.1, p.2) := by
  rw [tagBody?, if_neg (by decide), if_pos rfl]
  split
  next h' => simp [h] at h'
  next group' after' h' =>
    obtain ⟨rfl, rfl⟩ := Prod.mk.inj (Option.some.inj (h'.symm.trans h))
    rfl

theorem append_of_tagBody? {s a b : List Char} (h : tagBody? s = some (a, b)) :
    a ++ '>' :: b = s := by
  fun_induction tagBody? s generalizing a b with
  | case1 => simp at h
  | case2 => simp at h
  | case3 c r _ value after hcut _ ih =>
    obtain ⟨⟨x, y⟩, hp, hxy⟩ := Option.map_eq_some_iff.mp h
    obtain ⟨rfl, rfl⟩ := Prod.mk.inj hxy
    simp [ih hp, Text.append_of_cut? hcut]
  | case4 => simp at h
  | case5 r group after _ hgroup _ ih =>
    obtain ⟨⟨x, y⟩, hp, hxy⟩ := Option.map_eq_some_iff.mp h
    obtain ⟨rfl, rfl⟩ := Prod.mk.inj hxy
    simp [ih hp, (append_of_closeGroup? hgroup).1]
  | case6 =>
    obtain ⟨rfl, rfl⟩ := Prod.mk.inj (Option.some.inj h)
    simp
  | case7 c r _ _ _ ih =>
    obtain ⟨⟨x, y⟩, hp, hxy⟩ := Option.map_eq_some_iff.mp h
    obtain ⟨rfl, rfl⟩ := Prod.mk.inj hxy
    simp [ih hp]

theorem length_of_tagBody? {s a b : List Char} (h : tagBody? s = some (a, b)) :
    a.length < s.length ∧ b.length < s.length := by
  rw [← append_of_tagBody? h]
  simp
  omega

/-- A tag closes itself when the last character of its body that is not blank is a slash. -/
def selfCloses (body : List Char) : Bool :=
  (Text.trimEnd body).getLast? == some '/'

def openBody (body : List Char) : List Char :=
  if selfCloses body then (Text.trimEnd body).dropLast else body

/-- Whether a text begins with an opening tag of the name `tag`: after the name comes a blank, a
closing angle bracket or a slash. The empty name is that of the fragment tag. -/
def opensTag (tag : List Char) (s : List Char) : Bool :=
  match tag with
  | [] => ['<', '>'].isPrefixOf s
  | _ =>
    match Text.after? ('<' :: tag) s with
    | some (c :: _) => Text.isBlank c || c == '>' || c == '/'
    | _ => false

def closingTag (tag : List Char) : List Char :=
  '<' :: '/' :: tag ++ ['>']

end StaticPreview.Markup
