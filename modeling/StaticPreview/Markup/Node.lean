import StaticPreview.Markup.Balance

/-! # Markup trees

A text is read one token at a time; the content of an element or a fragment is read in turn.
Every text has a tree: what cannot be a tag is text, and an element that is never closed has no
content of its own.
-/
namespace StaticPreview.Markup

/-- What begins a text. The content of elements and fragments is not read yet. -/
inductive Token where
  | element (name attributes content : List Char)
  | fragment (content : List Char)
  | container (expression : List Char)
  | text (run : List Char)
  deriving DecidableEq, Repr

namespace Token

def content : Token → List Char
  | element _ _ content => content
  | fragment content => content
  | container _ => []
  | text _ => []

def element? (s : List Char) : Option (Token × List Char) :=
  match tagName? s, tagBody? s with
  | some name, some (body, after) =>
    let attributes := (openBody body).drop name.length
    if selfCloses body then some (element name attributes [], after)
    else
      match content? name after with
      | some (content, rest) => some (element name attributes content, rest)
      | none => some (element name attributes [], after)
  | _, _ => none

theorem element?_of_selfCloses {s name body after : List Char} (hname : tagName? s = some name)
    (hbody : tagBody? s = some (body, after)) (hcloses : selfCloses body = true) :
    element? s = some (element name ((openBody body).drop name.length) [], after) := by
  rw [element?, hname, hbody]
  simp [hcloses]

theorem element?_of_content? {s name body after content rest : List Char}
    (hname : tagName? s = some name) (hbody : tagBody? s = some (body, after))
    (hopen : selfCloses body = false) (hcontent : content? name after = some (content, rest)) :
    element? s = some (element name (body.drop name.length) content, rest) := by
  rw [element?, hname, hbody]
  simp [hopen, hcontent, openBody]

def textFrom (c : Char) (s : List Char) : Token × List Char :=
  let plain := fun d => d != '<' && d != '\x7b'
  (text (c :: s.takeWhile plain), s.dropWhile plain)

def next? : List Char → Option (Token × List Char)
  | [] => none
  | '<' :: '>' :: r =>
    match content? [] r with
    | some (content, rest) => some (fragment content, rest)
    | none => some (fragment [], r)
  | '<' :: r => some ((element? r).getD (textFrom '<' r))
  | '\x7b' :: r =>
    match Text.cut? '\x7d' r with
    | some (expression, rest) => some (container expression, rest)
    | none => some (container r, [])
  | c :: r => some (textFrom c r)

theorem next?_eq_none_iff {s : List Char} : next? s = none ↔ s = [] := by
  constructor
  · intro h
    unfold next? at h
    split at h
    · rfl
    · split at h <;> simp at h
    · simp at h
    · split at h <;> simp at h
    · simp at h
  · rintro rfl
    rfl

theorem length_of_element? {s rest : List Char} {t : Token} (h : element? s = some (t, rest)) :
    t.content.length < s.length ∧ rest.length < s.length := by
  unfold element? at h
  split at h
  next name body after _ hbody =>
    have hb := length_of_tagBody? hbody
    dsimp only at h
    split at h
    · obtain ⟨rfl, rfl⟩ := Prod.mk.inj (Option.some.inj h)
      simp only [content, List.length_nil]
      omega
    · split at h
      next inner rest' hc =>
        have hl := length_of_content? hc
        obtain ⟨rfl, rfl⟩ := Prod.mk.inj (Option.some.inj h)
        simp only [content]
        omega
      next =>
        obtain ⟨rfl, rfl⟩ := Prod.mk.inj (Option.some.inj h)
        simp only [content, List.length_nil]
        omega
  next => simp at h

theorem length_textFrom (c : Char) (s : List Char) :
    (textFrom c s).1.content.length < (c :: s).length ∧
      (textFrom c s).2.length < (c :: s).length := by
  refine ⟨by simp [textFrom, content], ?_⟩
  exact Nat.lt_succ_of_le (List.dropWhile_sublist _).length_le

/-- A token takes at least one character, and its content is shorter than the text. -/
theorem length_of_next? {s rest : List Char} {t : Token} (h : next? s = some (t, rest)) :
    t.content.length < s.length ∧ rest.length < s.length := by
  unfold next? at h
  split at h
  next => simp at h
  next r =>
    split at h
    next inner rest' hc =>
      have hl := length_of_content? hc
      obtain ⟨rfl, rfl⟩ := Prod.mk.inj (Option.some.inj h)
      simp only [content, List.length_cons]
      omega
    next =>
      obtain ⟨rfl, rfl⟩ := Prod.mk.inj (Option.some.inj h)
      simp only [content, List.length_cons, List.length_nil]
      omega
  next r _ =>
    have ht := length_textFrom '<' r
    cases he : element? r with
    | none =>
      rw [he, Option.getD_none, Option.some.injEq] at h
      rwa [h] at ht
    | some p =>
      rw [he, Option.getD_some, Option.some.injEq] at h
      subst h
      have hl := length_of_element? he
      simp only [List.length_cons]
      omega
  next r =>
    split at h
    next expression rest' hc =>
      have hl := Text.length_of_cut? hc
      obtain ⟨rfl, rfl⟩ := Prod.mk.inj (Option.some.inj h)
      simp only [content, List.length_cons, List.length_nil]
      omega
    next =>
      obtain ⟨rfl, rfl⟩ := Prod.mk.inj (Option.some.inj h)
      simp [content]
  next c r _ _ _ =>
    have ht := length_textFrom c r
    rw [Option.some.injEq] at h
    rwa [h] at ht

end Token

inductive Node where
  | element (name attributes : List Char) (children : List Node)
  | fragment (children : List Node)
  | container (expression : List Char)
  | text (run : List Char)
  deriving Repr

/-- The node of a token whose content has the given nodes. -/
def Token.node (children : List Node) : Token → Node
  | element name attributes _ => .element name attributes children
  | fragment _ => .fragment children
  | container expression => .container expression
  | text run => .text run

def Node.parse (s : List Char) : List Node :=
  match h : Token.next? s with
  | none => []
  | some (t, rest) =>
    have := Token.length_of_next? h
    t.node (Node.parse t.content) :: Node.parse rest
termination_by s.length
decreasing_by all_goals omega

@[simp] theorem Node.parse_nil : Node.parse [] = [] := by
  rw [Node.parse]
  rfl

/-- The nodes of a text by its first token. -/
theorem Node.parse_of_next? {s rest : List Char} {t : Token}
    (h : Token.next? s = some (t, rest)) :
    Node.parse s = t.node (Node.parse t.content) :: Node.parse rest := by
  rw [Node.parse]
  split
  next h' => simp [h] at h'
  next t' rest' h' =>
    obtain ⟨rfl, rfl⟩ := Prod.mk.inj (Option.some.inj (h'.symm.trans h))
    rfl

end StaticPreview.Markup
