import StaticPreview.Proofs.Html.Safe

/-! # Decoding character references

A reader of a page replaces the references in it. What it makes of a reference is up to it, but for
those of the characters that can end a text or a value.
-/
namespace StaticPreview.Html

/-- The bodies of references and the characters that they stand for in every page. -/
def references : List (List Char × Char) :=
  [("amp".toList, '&'), ("lt".toList, '<'), ("gt".toList, '>'), ("quot".toList, '"'),
    ("#x27".toList, '\''), ("#x2f".toList, '/')]

structure Decoder where
  decode : List Char → List Char
  nil : decode [] = []
  char {c : Char} (hc : c ≠ '&') (s : List Char) : decode (c :: s) = c :: decode s
  reference {p : List Char × Char} (h : p ∈ references) (s : List Char) :
    decode ('&' :: p.1 ++ ';' :: s) = p.2 :: decode s

theorem length_of_reference? {r body rest : List Char} (h : reference? r = some (body, rest)) :
    rest.length < r.length := by
  rw [← append_of_reference? h, List.length_append, List.length_cons]
  omega

/-- Replaces references from left to right, each by what its body means. -/
def decodeBy (meaning : List Char → List Char) (s : List Char) : List Char :=
  match s with
  | [] => []
  | c :: r =>
    if c = '&' then
      match h : reference? r with
      | some (body, rest) =>
        have := length_of_reference? h
        meaning body ++ decodeBy meaning rest
      | none => c :: decodeBy meaning r
    else c :: decodeBy meaning r
termination_by s.length
decreasing_by all_goals simp only [List.length_cons] at *; omega

variable {meaning : List Char → List Char}

theorem decodeBy_char {c : Char} (h : c ≠ '&') (s : List Char) :
    decodeBy meaning (c :: s) = c :: decodeBy meaning s := by
  rw [decodeBy, if_neg h]

theorem decodeBy_reference {body : List Char} (h : ReferenceBody body) (s : List Char) :
    decodeBy meaning ('&' :: body ++ ';' :: s) = meaning body ++ decodeBy meaning s := by
  have hreference := reference?_of_referenceBody h s
  rw [List.cons_append, decodeBy, if_pos rfl]
  split
  next body' rest hr =>
    obtain ⟨rfl, rfl⟩ := Prod.mk.inj (Option.some.inj (hr.symm.trans hreference))
    rfl
  next hr => simp [hr] at hreference

theorem decodeBy_bare {s : List Char} (h : reference? s = none) :
    decodeBy meaning ('&' :: s) = '&' :: decodeBy meaning s := by
  rw [decodeBy, if_pos rfl]
  split
  next body rest hr => simp [hr] at h
  next => rfl

theorem referenceBody_of_mem_references {p : List Char × Char} (h : p ∈ references) :
    ReferenceBody p.1 := by
  have hall : ∀ q ∈ references, reference? (q.1 ++ [';']) = some (q.1, []) := by decide
  exact referenceBody_of_reference? (hall p h)

/-- Whether the references that escaping writes mean the characters that they are written for. -/
structure DecodesMarks (meaning : List Char → List Char) : Prop where
  amp : meaning "amp".toList = ['&']
  lt : meaning "lt".toList = ['<']
  gt : meaning "gt".toList = ['>']
  quot : meaning "quot".toList = ['"']
  apos : meaning "#x27".toList = ['\'']

theorem DecodesMarks.meaning_eq (h : DecodesMarks meaning)
    (hslash : meaning "#x2f".toList = ['/']) :
    ∀ p ∈ references, meaning p.1 = [p.2] := by
  simpa [references] using ⟨h.amp, h.lt, h.gt, h.quot, h.apos, hslash⟩

def tableMeaning (body : List Char) : List Char :=
  ((references.lookup body).map fun c => [c]).getD ('&' :: body ++ [';'])

theorem decodesMarks_tableMeaning : DecodesMarks tableMeaning :=
  ⟨by decide, by decide, by decide, by decide, by decide⟩

namespace Decoder

def ofMeaning (meaning : List Char → List Char) (h : DecodesMarks meaning)
    (hslash : meaning "#x2f".toList = ['/']) : Decoder where
  decode := decodeBy meaning
  nil := by rw [decodeBy]
  char := decodeBy_char
  reference {p} hmem s := by
    rw [decodeBy_reference (referenceBody_of_mem_references hmem), h.meaning_eq hslash p hmem]
    rfl

instance : Inhabited Decoder := ⟨ofMeaning tableMeaning decodesMarks_tableMeaning (by decide)⟩

end Decoder

end StaticPreview.Html
