import StaticPreview.Markup.Braces
import StaticPreview.Text.Blank
import StaticPreview.Text.Cut

/-! # Attributes

Reading is forgiving: whatever cannot begin a name is passed over, spreads among it, and a value
that is not closed runs to the end of the text.
-/
namespace StaticPreview.Markup

inductive AttributeValue where
  | literal (text : List Char)
  | expression (text : List Char)
  | absent
  deriving DecidableEq, Repr

structure Attribute where
  name : List Char
  value : AttributeValue
  deriving DecidableEq, Repr

namespace Attribute

def isNameStart (c : Char) : Bool :=
  c.isAlpha || c == '_' || c == '$'

def isNameChar (c : Char) : Bool :=
  c.isAlphanum || c == '_' || c == '$' || c == '-' || c == ':' || c == '.'

def readValue : List Char → AttributeValue × List Char
  | [] => (.literal [], [])
  | c :: r =>
    if c = '"' ∨ c = '\'' then
      match Text.cut? c r with
      | some (text, after) => (.literal text, after)
      | none => (.literal r, [])
    else if c = '\x7b' then
      match group? (c :: r) with
      | some (group, after) => (.expression group.tail.dropLast, after)
      | none => (.expression r, [])
    else (.literal ((c :: r).takeWhile (!Text.isBlank ·)), (c :: r).dropWhile (!Text.isBlank ·))

/-- The value that an equals sign announces, if one follows the name. A name without a value
leaves the blanks after it unread. -/
def readAssignment (s : List Char) : AttributeValue × List Char :=
  match Text.skipBlank s with
  | '=' :: r => readValue (Text.skipBlank r)
  | _ => (.absent, s)

theorem length_readValue (s : List Char) : (readValue s).2.length ≤ s.length := by
  cases s with
  | nil => simp [readValue]
  | cons c r =>
    rw [readValue]
    split
    · split
      next h => exact Nat.le_of_lt (Nat.lt_succ_of_lt (Text.length_of_cut? h).2)
      next => simp
    · split
      · split
        next h => exact Nat.le_of_lt (length_of_group? h)
        next => simp
      · exact (List.dropWhile_sublist _).length_le

theorem length_readAssignment (s : List Char) : (readAssignment s).2.length ≤ s.length := by
  unfold readAssignment
  split
  next r h =>
    have h1 : (Text.skipBlank s).length ≤ s.length := (List.dropWhile_sublist _).length_le
    have h2 : (Text.skipBlank r).length ≤ r.length := (List.dropWhile_sublist _).length_le
    have h3 := length_readValue (Text.skipBlank r)
    rw [h, List.length_cons] at h1
    omega
  next => exact Nat.le_refl _

def parse (s : List Char) : List Attribute :=
  match s with
  | [] => []
  | c :: r =>
    if c = '\x7b' then
      match h : group? (c :: r) with
      | some (_, after) =>
        have := length_of_group? h
        parse after
      | none => []
    else if isNameStart c then
      let name := c :: r.takeWhile isNameChar
      let assignment := readAssignment (r.dropWhile isNameChar)
      have : assignment.2.length < (c :: r).length := by
        have h1 := length_readAssignment (r.dropWhile isNameChar)
        have h2 : (r.dropWhile isNameChar).length ≤ r.length :=
          (List.dropWhile_sublist _).length_le
        simp only [assignment, List.length_cons]
        omega
      ⟨name, assignment.1⟩ :: parse assignment.2
    else parse r
termination_by s.length
decreasing_by all_goals simp only [List.length_cons] at *; omega

end Attribute
end StaticPreview.Markup
