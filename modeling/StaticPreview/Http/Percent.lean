import StaticPreview.Text.Digits

/-! # Percent encoding

A percent sign with two hexadecimal digits behind it stands for one byte of a text in UTF-8; any
other percent sign stands for itself.
-/
namespace StaticPreview.Http.Percent

def isHexByte (b : UInt8) : Bool := Text.isHexDigit (.ofNat b.toNat)

def hexByte (high low : UInt8) : UInt8 :=
  .ofNat (Text.baseValue 16 [.ofNat high.toNat, .ofNat low.toNat])

def decodeBytes : List UInt8 → List UInt8
  | [] => []
  | p :: high :: low :: r =>
    if p = 0x25 && isHexByte high && isHexByte low then hexByte high low :: decodeBytes r
    else p :: decodeBytes (high :: low :: r)
  | p :: r => p :: decodeBytes r

def decode? (s : List Char) : Option String :=
  String.fromUTF8? ⟨(decodeBytes (String.ofList s).toUTF8.toList).toArray⟩

end StaticPreview.Http.Percent
