import StaticPreview.Markup.Render
import StaticPreview.Proofs.Markup.Sought

/-! # Well-formed markup

A forest is consecutive markup as it is written. The search for a closing tag passes over a
well-formed forest as a whole, whatever name is sought, and whatever follows the forest.
-/
namespace StaticPreview.Markup
open Text

/-- Consecutive nodes; each is given with the nodes inside it and the nodes behind it. -/
inductive Forest where
  | nil
  | text (run : List Char) (more : Forest)
  | container (expression : List Char) (more : Forest)
  | fragment (inner more : Forest)
  | element (tag : WrittenTag) (inner more : Forest)
  | closed (tag : WrittenTag) (more : Forest)

namespace Forest

def written : Forest → List Char
  | nil => []
  | text run more => run ++ more.written
  | container expression more => '\x7b' :: expression ++ '\x7d' :: more.written
  | fragment inner more => '<' :: '>' :: inner.written ++ closingTag [] ++ more.written
  | element tag inner more =>
    '<' :: tag.body ++ '>' :: inner.written ++ closingTag tag.name ++ more.written
  | closed tag more => '<' :: tag.body ++ '/' :: '>' :: more.written

def BeginsInText : Forest → Prop
  | text _ _ => True
  | _ => False

/-- Text runs are not empty, hold no mark of tags and containers, and do not touch; a container
ends at its first closing brace; void elements close themselves. -/
def WellFormed : Forest → Prop
  | nil => True
  | text run more =>
    (run ≠ [] ∧ ∀ c ∈ run, c ≠ '<' ∧ c ≠ '\x7b') ∧ ¬more.BeginsInText ∧ more.WellFormed
  | container expression more => (∀ c ∈ expression, c ≠ '\x7d' ∧ c ≠ '<') ∧ more.WellFormed
  | fragment inner more => inner.WellFormed ∧ more.WellFormed
  | element tag inner more =>
    (tag.WellFormed ∧ isVoid tag.name = false) ∧ inner.WellFormed ∧ more.WellFormed
  | closed tag more => tag.WellFormed ∧ more.WellFormed

end Forest

/-- Whether the search for the closing tag of `tag` passes over a text, whatever follows. -/
def Passes (tag p : List Char) : Prop :=
  ∀ depth s, readContent? tag depth (p ++ s) = prepend p (readContent? tag depth s)

theorem Passes.append {tag p q : List Char} (hp : Passes tag p) (hq : Passes tag q) :
    Passes tag (p ++ q) := by
  intro depth s
  rw [List.append_assoc, hp, hq, prepend_prepend]

theorem passes_of_ne {p : List Char} (hp : ∀ c ∈ p, c ≠ '<') (tag : List Char) : Passes tag p := by
  intro depth s
  induction p with
  | nil => simp
  | cons c r ih =>
    rw [List.cons_append, readContent?_of_ne (hp c List.mem_cons_self),
      ih fun d hd => hp d (List.mem_cons_of_mem c hd)]
    simp [prepend, Function.comp_def]

structure IsTag (name body : List Char) : Prop where
  inTag : InTag body
  after?_closingTag : ∀ tag s, after? (closingTag tag) ('<' :: (body ++ '>' :: s)) = none
  opensTag_iff : ∀ {tag}, IsSoughtName tag → ∀ s,
    opensTag tag ('<' :: (body ++ '>' :: s)) = decide (tag = name)

theorem isTag_fragment : IsTag [] [] where
  inTag := .nil
  after?_closingTag := fun tag s => after?_closingTag_of_ne (by decide) tag s
  opensTag_iff := fun htag s => opensTag_fragment htag s

theorem isTag_of_endsName {name attributes : List Char} (hname : IsTagName name)
    (hin : InTag (name ++ attributes)) (hends : ∀ s, EndsName (attributes ++ '>' :: s)) :
    IsTag name (name ++ attributes) where
  inTag := hin
  after?_closingTag := by
    intro tag s
    cases name with
    | nil => exact hname.elim
    | cons c r =>
      exact after?_closingTag_of_ne (ne_of_isNameChar
        (isNameChar_attribute (isNameChar_of_isAlpha hname.1)) (by decide)) tag _
  opensTag_iff := by
    intro tag htag s
    rw [List.append_assoc]
    exact opensTag_append htag hname (hends s)

theorem WrittenTag.WellFormed.isTag {t : WrittenTag} (h : t.WellFormed) : IsTag t.name t.body :=
  isTag_of_endsName h.isTagName h.inTag_body (h.endsName (.inl rfl))

theorem WrittenTag.WellFormed.isTag_slash {t : WrittenTag} (h : t.WellFormed) :
    IsTag t.name (t.body ++ ['/']) := by
  rw [body, List.append_assoc]
  refine isTag_of_endsName h.isTagName ?_ fun s => ?_
  · rw [← List.append_assoc]
    exact h.inTag_body.append (inTag_of_plain (by decide))
  · simpa using h.endsName (.inr rfl) ('>' :: s)

variable {tag : List Char}

/-- A tag of the sought name leads a level deeper, unless it closes itself. -/
theorem IsTag.readContent?_append {name body : List Char} (h : IsTag name body)
    (htag : IsSoughtName tag) (depth : Nat) (s : List Char) :
    readContent? tag depth ('<' :: body ++ '>' :: s) = prepend ('<' :: body ++ ['>'])
      (readContent? tag (if tag = name ∧ selfCloses body = false then depth + 1 else depth) s) := by
  have hopen := h.opensTag_iff htag s
  rw [List.cons_append]
  by_cases heq : tag = name
  · rw [decide_eq_true heq] at hopen
    rw [readContent?_opening (h.after?_closingTag tag s) hopen (h.inTag.tagBody?_close s)]
    cases selfCloses body <;> simp [prepend, heq]
  · rw [decide_eq_false heq] at hopen
    have hbody : Passes tag (body ++ ['>']) := by
      refine (passes_of_ne h.inTag.ne_opening tag).append (passes_of_ne (by decide) tag)
    have hassoc : body ++ '>' :: s = body ++ ['>'] ++ s := by simp
    rw [readContent?_other (h.after?_closingTag tag s) hopen, if_neg fun hand => heq hand.1,
      hassoc, hbody]
    simp [prepend, Function.comp_def]

theorem passes_closingTag_of_ne {name : List Char} (htag : IsSoughtName tag)
    (hname : IsSoughtName name) (hne : tag ≠ name) : Passes tag (closingTag name) := by
  intro depth s
  have hrest : ∀ c ∈ '/' :: name ++ ['>'], c ≠ '<' := by
    intro c hc
    rcases List.mem_append.mp hc with hc | hc
    · rcases List.mem_cons.mp hc with rfl | hc
      · decide
      · exact ne_of_isNameChar (isNameChar_attribute (hname.isNameChar c hc)) (by decide)
    · obtain rfl := List.mem_singleton.mp hc
      decide
  have hpass := passes_of_ne hrest tag depth s
  have hopen := opensTag_slash htag (name ++ ['>'] ++ s)
  have hclose : after? (closingTag tag) ('<' :: ('/' :: name ++ ['>'] ++ s)) = none :=
    after?_closingTag_append htag hname hne s
  change readContent? tag depth ('<' :: ('/' :: name ++ ['>'] ++ s)) = _
  rw [readContent?_other hclose hopen, hpass]
  simp [prepend, Function.comp_def, closingTag]

/-- An element is passed over when its content is. -/
theorem IsTag.passes {name body inner : List Char} (h : IsTag name body)
    (hname : IsSoughtName name) (hopen : selfCloses body = false) (htag : IsSoughtName tag)
    (hinner : Passes tag inner) :
    Passes tag ('<' :: body ++ '>' :: inner ++ closingTag name) := by
  intro depth s
  have hassoc : '<' :: body ++ '>' :: inner ++ closingTag name ++ s =
      '<' :: body ++ '>' :: (inner ++ (closingTag name ++ s)) := by simp
  rw [hassoc, h.readContent?_append htag, hinner]
  by_cases heq : tag = name
  · subst heq
    rw [if_pos ⟨rfl, hopen⟩, readContent?_closing, if_neg (Nat.succ_ne_zero depth)]
    simp [prepend, Function.comp_def]
  · rw [if_neg fun hand => heq hand.1, passes_closingTag_of_ne htag hname heq]
    simp

theorem IsTag.passes_slash {name body : List Char} (h : IsTag name (body ++ ['/']))
    (htag : IsSoughtName tag) : Passes tag ('<' :: body ++ ['/', '>']) := by
  intro depth s
  have hassoc : '<' :: body ++ ['/', '>'] ++ s = '<' :: (body ++ ['/']) ++ '>' :: s := by simp
  rw [hassoc, h.readContent?_append htag, if_neg fun hand => by simp [selfCloses_slash] at hand]
  simp

/-- The search for a closing tag passes over a well-formed forest, so no tag in it ends an element
around it. -/
theorem Forest.WellFormed.passes {t : Forest} (ht : t.WellFormed) (htag : IsSoughtName tag) :
    Passes tag t.written := by
  induction t with
  | nil => exact passes_of_ne (by simp [written]) tag
  | text run more ih =>
    obtain ⟨⟨-, hrun⟩, -, hmore⟩ := ht
    exact (passes_of_ne (fun c hc => (hrun c hc).1) tag).append (ih hmore)
  | container expression more ih =>
    obtain ⟨hexpression, hmore⟩ := ht
    have hne : ∀ c ∈ '\x7b' :: expression ++ ['\x7d'], c ≠ '<' := by
      intro c hc
      rcases List.mem_append.mp hc with hc | hc
      · rcases List.mem_cons.mp hc with rfl | hc
        · decide
        · exact (hexpression c hc).2
      · obtain rfl := List.mem_singleton.mp hc
        decide
    simpa [written] using (passes_of_ne hne tag).append (ih hmore)
  | fragment inner more ihinner ih =>
    obtain ⟨hinner, hmore⟩ := ht
    exact (isTag_fragment.passes (.inl rfl) rfl htag (ihinner hinner)).append (ih hmore)
  | element t inner more ihinner ih =>
    obtain ⟨⟨ht, -⟩, hinner, hmore⟩ := ht
    exact (ht.isTag.passes (.inr ht.isTagName) ht.selfCloses_body htag (ihinner hinner)).append
      (ih hmore)
  | closed t more ih =>
    obtain ⟨ht, hmore⟩ := ht
    simpa [written] using (ht.isTag_slash.passes_slash htag).append (ih hmore)

end StaticPreview.Markup
