/-! # Passing over the start of a text

A reading that passes over `lead` gives what the reading of the rest gives, with `lead` in front of
the part that was read.
-/
namespace StaticPreview.Text

def prepend (lead : List Char) (reading : Option (List Char × List Char)) :
    Option (List Char × List Char) :=
  reading.map fun p => (lead ++ p.1, p.2)

@[simp] theorem prepend_nil (reading : Option (List Char × List Char)) :
    prepend [] reading = reading := by
  simp [prepend]

@[simp] theorem prepend_some (lead a b : List Char) :
    prepend lead (some (a, b)) = some (lead ++ a, b) := rfl

@[simp] theorem prepend_prepend (lead lead' : List Char)
    (reading : Option (List Char × List Char)) :
    prepend lead (prepend lead' reading) = prepend (lead ++ lead') reading := by
  simp [prepend, Function.comp_def]

theorem exists_of_prepend_eq_some (lead : List Char) {reading : Option (List Char × List Char)}
    {a b : List Char} (h : prepend lead reading = some (a, b)) :
    ∃ x, reading = some (x, b) ∧ a = lead ++ x := by
  obtain ⟨⟨x, y⟩, hreading, heq⟩ := Option.map_eq_some_iff.mp h
  obtain ⟨rfl, rfl⟩ := Prod.mk.inj heq
  exact ⟨x, hreading, rfl⟩

end StaticPreview.Text
