import StaticPreview.Text.Cut
import StaticPreview.Text.Digits

/-! # Switches and operands of a command line

A switch has a name, given behind two dashes, and may have a letter, given behind one. Letters may
stand together in one word. A value follows its switch in the next word or, behind the switch
itself, in the same one; the next word is no value if it looks like a switch. Two dashes alone end
the switches.
-/
namespace StaticPreview.Command

inductive Meaning where
  | flag
  | text
  | path
  | port
  | help
  | version
  deriving DecidableEq, Repr

structure Switch where
  name : String
  letter : Option Char
  meaning : Meaning
  deriving DecidableEq, Repr

inductive Stop where
  | usage
  | help
  | version
  deriving DecidableEq, Repr

def largestPort : Nat := 65535

/-- A port is written in decimal digits, with a sign if need be. -/
def port? (s : String) : Option Nat :=
  let (negative, digits) :=
    match s.toList with
    | '-' :: r => (true, r)
    | '+' :: r => (false, r)
    | r => (false, r)
  let n := Text.digitsValue digits
  if digits ≠ [] ∧ digits.all Char.isDigit ∧ n ≤ largestPort ∧ (negative → n = 0) then some n
  else none

namespace Meaning

def takesValue : Meaning → Bool
  | text => true
  | path => true
  | port => true
  | _ => false

/-- Whether a value may stand with a switch. No path is empty. -/
def accepts (m : Meaning) (value : String) : Bool :=
  match m with
  | path => value.toList ≠ []
  | port => (port? value).isSome
  | _ => true

end Meaning

structure Given where
  switches : List (String × String)
  operands : List String
  deriving DecidableEq, Repr

namespace Given

def none : Given := ⟨[], []⟩

def value? (g : Given) (name : String) : Option String := g.switches.lookup name

def has (g : Given) (name : String) : Bool := (g.value? name).isSome

def add (g : Given) (s : Switch) (value : String) : Except Stop Given :=
  match s.meaning with
  | .help => .error .help
  | .version => .error .version
  | m =>
    if g.has s.name || !m.accepts value then .error .usage
    else .ok { g with switches := (s.name, value) :: g.switches }

def addOperand (g : Given) (word : String) : Except Stop Given :=
  if word.toList = [] then .error .usage else .ok { g with operands := g.operands ++ [word] }

/-- Reads a word behind its two dashes. If its switch still needs a value, the switch is left. -/
def addNamed (g : Given) (known : List Switch) (body : List Char) :
    Except Stop (Given × Option Switch) :=
  let (name, value) :=
    match Text.cut? '=' body with
    | some (name, value) => (name, some value)
    | Option.none => (body, Option.none)
  match known.find? (fun s => s.name.toList == name), value with
  | Option.none, _ => .error .usage
  | some s, Option.none =>
    if s.meaning.takesValue then .ok (g, some s) else (g.add s "").map fun g => (g, Option.none)
  | some s, some v =>
    if s.meaning.takesValue then (g.add s (.ofList v)).map fun g => (g, Option.none)
    else .error .usage

def addLetters (known : List Switch) : List Char → Given → Except Stop (Given × Option Switch)
  | [], g => .ok (g, Option.none)
  | c :: r, g =>
    match known.find? (fun s => s.letter == some c) with
    | Option.none => .error .usage
    | some s =>
      if !s.meaning.takesValue then do addLetters known r (← g.add s "")
      else
        match r with
        | [] => .ok (g, some s)
        | '=' :: v => (g.add s (.ofList v)).map fun g => (g, Option.none)
        | v => (g.add s (.ofList v)).map fun g => (g, Option.none)

end Given

def isSwitchWord (word : String) : Bool :=
  match word.toList with
  | '-' :: _ :: _ => true
  | _ => false

inductive Rest where
  | nothing
  | operand (word : String) (more : List String)
  | operandsOnly (words : List String)
  deriving DecidableEq, Repr

def readWord (known : List Switch) (g : Given) (word : String) :
    Except Stop (Given × Option Switch) :=
  match word.toList.drop 1 with
  | '-' :: body => g.addNamed known body
  | letters => Given.addLetters known letters g

def readSwitches (known : List Switch) : List String → Given → Except Stop (Given × Rest)
  | [], g => .ok (g, .nothing)
  | word :: more, g =>
    if !isSwitchWord word then .ok (g, .operand word more)
    else if word.toList = ['-', '-'] then .ok (g, .operandsOnly more)
    else
      match readWord known g word, more with
      | .error stop, _ => .error stop
      | .ok (g, none), more => readSwitches known more g
      | .ok (_, some _), [] => .error .usage
      | .ok (g, some s), value :: more =>
        if isSwitchWord value then .error .usage
        else
          match g.add s value with
          | .error stop => .error stop
          | .ok g => readSwitches known more g

def readWords (known : List Switch) : Nat → List String → Given → Except Stop Given
  | n, words, g => do
    match ← readSwitches known words g with
    | (g, .nothing) => return g
    | (g, .operandsOnly more) =>
      if n < more.length then throw .usage
      more.foldlM Given.addOperand g
    | (g, .operand word more) =>
      match n with
      | 0 => throw .usage
      | n + 1 => readWords known n more (← g.addOperand word)

end StaticPreview.Command
