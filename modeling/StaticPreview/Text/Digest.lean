/-! # Digests of texts

The digest is SipHash with one round for each word and three at the end, and a key of zeros.
-/
namespace StaticPreview.Text.Digest

structure State where
  v0 : UInt64
  v1 : UInt64
  v2 : UInt64
  v3 : UInt64

def rotate (w n : UInt64) : UInt64 := (w <<< n) ||| (w >>> (64 - n))

def round (s : State) : State :=
  let a := s.v0 + s.v1
  let b := rotate s.v1 13 ^^^ a
  let c := s.v2 + s.v3
  let d := rotate s.v3 16 ^^^ c
  let a' := rotate a 32 + d
  let d' := rotate d 21 ^^^ a'
  let c' := c + b
  let b' := rotate b 17 ^^^ c'
  ⟨a', b', rotate c' 32, d'⟩

def start : State :=
  ⟨0x736f6d6570736575, 0x646f72616e646f6d, 0x6c7967656e657261, 0x7465646279746573⟩

def absorb (s : State) (word : UInt64) : State :=
  let t := round { s with v3 := s.v3 ^^^ word }
  { t with v0 := t.v0 ^^^ word }

/-- The word of up to eight bytes, the first byte lowest. -/
def wordOf (bytes : List UInt8) : UInt64 :=
  bytes.foldr (fun b w => (w <<< 8) ||| b.toUInt64) 0

/-- Takes in words of eight bytes; the last word has the bytes that are left, and the number of
all bytes on top. -/
def absorbAll (length : Nat) : State → List UInt8 → State
  | s, a :: b :: c :: d :: e :: f :: g :: h :: more =>
    absorbAll length (absorb s (wordOf [a, b, c, d, e, f, g, h])) more
  | s, rest => absorb s (wordOf rest ||| (UInt64.ofNat length <<< 56))

def finish (s : State) : UInt64 :=
  let t := round (round (round { s with v2 := s.v2 ^^^ 0xff }))
  t.v0 ^^^ t.v1 ^^^ t.v2 ^^^ t.v3

def ofBytes (bytes : List UInt8) : UInt64 :=
  finish (absorbAll bytes.length start bytes)

/-- The digest of several texts, each ended by a byte that no text holds. -/
def ofTexts (texts : List String) : UInt64 :=
  ofBytes (texts.flatMap fun s => s.toUTF8.data.toList ++ [0xff])

end StaticPreview.Text.Digest
