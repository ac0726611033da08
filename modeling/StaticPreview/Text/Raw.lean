/-! # Texts as the system has them

The names of files and the paths to them are bytes that need not be UTF-8. A text is read from them
character by character. A byte that begins no character, and bytes that begin one but do not go on
as one, stand for a character that is not known.
-/
namespace StaticPreview

def Text.utf8Bytes (s : String) : List UInt8 :=
  s.toList.flatMap String.utf8EncodeChar

@[ext]
structure RawText where
  ofList ::
  toList : List UInt8
  deriving DecidableEq, Repr

namespace RawText

def ofText (s : String) : RawText := ⟨Text.utf8Bytes s⟩

instance : Coe String RawText := ⟨ofText⟩

instance : Append RawText := ⟨fun a b => ⟨a.toList ++ b.toList⟩⟩

def size (r : RawText) : Nat := r.toList.length

/-- What the first byte of a character tells of it: what it adds to the number of the character,
how many bytes follow, and between which values the first of them lies. -/
structure Lead where
  value : Nat
  more : Nat
  low : Nat
  high : Nat

def lead? (b : Nat) : Option Lead :=
  if b < 0x80 then some ⟨b, 0, 0x80, 0xBF⟩
  else if b < 0xC2 then none
  else if b < 0xE0 then some ⟨b - 0xC0, 1, 0x80, 0xBF⟩
  else if b < 0xF0 then
    some ⟨b - 0xE0, 2, if b = 0xE0 then 0xA0 else 0x80, if b = 0xED then 0x9F else 0xBF⟩
  else if b < 0xF5 then
    some ⟨b - 0xF0, 3, if b = 0xF0 then 0x90 else 0x80, if b = 0xF4 then 0x8F else 0xBF⟩
  else none

/-- How many of the next bytes go on with a character of which `n` bytes are still to come. -/
def goesOn : Nat → Nat → Nat → List UInt8 → Nat
  | n + 1, low, high, b :: rest =>
    if low ≤ b.toNat ∧ b.toNat ≤ high then goesOn n 0x80 0xBF rest + 1 else 0
  | _, _, _, _ => 0

def char (lead : Lead) (rest : List UInt8) : Char :=
  .ofNat ((rest.take lead.more).foldl (fun v b => v * 64 + b.toNat % 64) lead.value)

/-- The characters of bytes, of which the first `read` belong to a character before them. -/
def chars : Nat → List UInt8 → List (Option Char)
  | _, [] => []
  | read + 1, _ :: rest => chars read rest
  | 0, b :: rest =>
    match lead? b.toNat with
    | none => none :: chars 0 rest
    | some lead =>
      let n := goesOn lead.more lead.low lead.high rest
      (if n = lead.more then some (char lead rest) else none) :: chars n rest

def text? (r : RawText) : Option String :=
  ((chars 0 r.toList).mapM id).map String.ofList

/-- The text of the bytes, in which each unknown character is replaced. -/
def shown (r : RawText) : String :=
  .ofList ((chars 0 r.toList).map fun c => c.getD '\uFFFD')

end RawText
end StaticPreview
