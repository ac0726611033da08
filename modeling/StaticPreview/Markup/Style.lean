import StaticPreview.Text.Blank
import StaticPreview.Text.Cut
import StaticPreview.Text.Word

/-! # Style objects

A declaration is a key, a colon and a quoted literal, found anywhere in the text of the object.
Values of any other form have no declaration.
-/
namespace StaticPreview.Markup

structure Declaration where
  property : List Char
  value : List Char
  deriving DecidableEq, Repr

namespace Declaration

def isKeyStart (c : Char) : Bool :=
  c.isAlpha || c == '_' || c == '$'

def isKeyChar (c : Char) : Bool :=
  Text.isWord c || c == '$'

def hyphenate (c : Char) : List Char :=
  if c.isUpper then ['-', c.toLower] else [c]

/-- The property that a key names: capitals become lower case after a hyphen, and a vendor key
that begins with `ms` gets a hyphen in front. -/
def propertyOf (key : List Char) : List Char :=
  let name := key.flatMap hyphenate
  if "ms-".toList.isPrefixOf name then '-' :: name else name

def literal? (s : List Char) : Option (List Char × List Char) :=
  match Text.skipBlank s with
  | ':' :: r =>
    match Text.skipBlank r with
    | c :: r' => if c = '\'' ∨ c = '"' then Text.cut? c r' else none
    | [] => none
  | _ => none

theorem length_of_literal? {s a b : List Char} (h : literal? s = some (a, b)) :
    b.length < s.length := by
  unfold literal? at h
  split at h
  next r hr =>
    split at h
    next c r' hr' =>
      split at h
      · have h1 : (Text.skipBlank s).length ≤ s.length := (List.dropWhile_sublist _).length_le
        have h2 : (Text.skipBlank r).length ≤ r.length := (List.dropWhile_sublist _).length_le
        have h3 := (Text.length_of_cut? h).2
        rw [hr, List.length_cons] at h1
        rw [hr', List.length_cons] at h2
        omega
      · simp at h
    next => simp at h
  next => simp at h

theorem length_of_keyLiteral? {s a b : List Char}
    (h : literal? (s.dropWhile isKeyChar) = some (a, b)) : b.length ≤ s.length :=
  Nat.le_trans (Nat.le_of_lt (length_of_literal? h)) (List.dropWhile_sublist _).length_le

/-- The declarations in a text, in order. After a declaration the search goes on behind its
literal; a key without a literal is tried again from its second character. -/
def parse (s : List Char) : List Declaration :=
  match s with
  | [] => []
  | c :: r =>
    if isKeyStart c then
      match h : literal? (r.dropWhile isKeyChar) with
      | some (value, after) =>
        have := length_of_keyLiteral? h
        ⟨propertyOf (c :: r.takeWhile isKeyChar), value⟩ :: parse after
      | none => parse r
    else parse r
termination_by s.length
decreasing_by all_goals simp only [List.length_cons] at *; omega

def css (d : Declaration) : List Char :=
  d.property ++ [':', ' '] ++ d.value

end Declaration

def inlineStyle? (object : List Char) : Option (List Char) :=
  match Declaration.parse object with
  | [] => none
  | declarations => some ([';', ' '].intercalate (declarations.map Declaration.css))

end StaticPreview.Markup
