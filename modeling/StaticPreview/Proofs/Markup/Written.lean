import StaticPreview.Proofs.Markup.Token
import StaticPreview.Proofs.Markup.WrittenTag

/-! # How tokens are written

Every token is the reading of a part of the text: the parts that it holds stand there in their
order, between the marks of its kind. What is never closed lacks its last mark.
-/
namespace StaticPreview.Markup
open Text

namespace Token

inductive Written : Token → List Char → Prop
  | element (name attributes content : List Char) :
    Written (.element name attributes content)
      ('<' :: name ++ attributes ++ '>' :: content ++ closingTag name)
  | unclosed (name attributes : List Char) :
    Written (.element name attributes []) ('<' :: name ++ attributes ++ ['>'])
  | selfClosing (name attributes : List Char) {blanks : List Char} (hblanks : AllBlank blanks) :
    Written (.element name attributes []) ('<' :: name ++ attributes ++ '/' :: blanks ++ ['>'])
  | fragment (content : List Char) :
    Written (.fragment content) ('<' :: '>' :: content ++ closingTag [])
  | unclosedFragment : Written (.fragment []) ['<', '>']
  | container (expression : List Char) :
    Written (.container expression) ('\x7b' :: expression ++ ['\x7d'])
  | unclosedContainer (expression : List Char) :
    Written (.container expression) ('\x7b' :: expression)
  | text {run : List Char} (hrun : run ≠ []) : Written (.text run) run

def parts : Token → List (List Char)
  | .element name attributes content => [name, attributes, content]
  | .fragment content => [content]
  | .container expression => [expression]
  | .text run => [run]

section
variable {t : Token} {written : List Char}

theorem Written.ne_nil (h : t.Written written) : written ≠ [] := by
  cases h with
  | text hrun => exact hrun
  | _ => simp

theorem Written.isInfix_of_mem_parts (h : t.Written written) :
    ∀ part ∈ t.parts, part <:+: written := by
  cases h with
  | element name attributes content =>
    simp only [parts, List.forall_mem_cons]
    exact ⟨⟨['<'], attributes ++ '>' :: content ++ closingTag name, by simp⟩,
      ⟨'<' :: name, '>' :: content ++ closingTag name, by simp⟩,
      ⟨'<' :: name ++ attributes ++ ['>'], closingTag name, by simp⟩, by simp⟩
  | unclosed name attributes =>
    simp only [parts, List.forall_mem_cons]
    exact ⟨⟨['<'], attributes ++ ['>'], by simp⟩, ⟨'<' :: name, ['>'], by simp⟩,
      List.nil_infix, by simp⟩
  | @selfClosing name attributes blanks hblanks =>
    simp only [parts, List.forall_mem_cons]
    exact ⟨⟨['<'], attributes ++ '/' :: blanks ++ ['>'], by simp⟩,
      ⟨'<' :: name, '/' :: blanks ++ ['>'], by simp⟩, List.nil_infix, by simp⟩
  | fragment content =>
    rw [parts, List.forall_mem_singleton]
    exact ⟨['<', '>'], closingTag [], by simp⟩
  | unclosedFragment => simp [parts]
  | container expression =>
    rw [parts, List.forall_mem_singleton]
    exact ⟨['\x7b'], ['\x7d'], by simp⟩
  | unclosedContainer expression =>
    rw [parts, List.forall_mem_singleton]
    exact List.infix_cons (List.infix_refl expression)
  | text hrun => simp [parts]

/-- A token without content covers what it is written as. -/
theorem covers_nil (h : written ≠ []) (rest : List Char) : Covers [] rest (written ++ rest) :=
  ⟨written, [], h, by simp⟩

theorem Written.covers (h : t.Written written) (rest : List Char) :
    Covers t.content rest (written ++ rest) := by
  have hne := h.ne_nil
  cases h with
  | element name attributes content =>
    exact ⟨'<' :: name ++ attributes ++ ['>'], closingTag name, by simp, by simp [Token.content]⟩
  | fragment content => exact ⟨['<', '>'], closingTag [], by simp, by simp [Token.content]⟩
  | _ => exact covers_nil hne rest

end

variable {s rest : List Char} {t : Token}

theorem written_textFrom (c : Char) (s : List Char) :
    ∃ written, (textFrom c s).1.Written written ∧ written ++ (textFrom c s).2 = c :: s :=
  ⟨_, .text (List.cons_ne_nil c _), by simp [textFrom, List.takeWhile_append_dropWhile]⟩

theorem written_of_element? (h : element? s = some (t, rest)) :
    ∃ written, t.Written written ∧ written ++ rest = '<' :: s := by
  unfold element? at h
  split at h
  next name body after hname hbody =>
    obtain ⟨attributes, hopen⟩ := exists_openBody_eq_append hname hbody
    have hs : body ++ '>' :: after = s := append_of_tagBody? hbody
    dsimp only at h
    rw [hopen, List.drop_left] at h
    split at h
    next hcloses =>
      obtain ⟨rfl, rfl⟩ := Prod.mk.inj (Option.some.inj h)
      obtain ⟨blanks, hblanks, hslash⟩ := exists_eq_openBody_append hcloses
      refine ⟨_, .selfClosing name attributes hblanks, ?_⟩
      rw [← hs, hslash, hopen]
      simp
    next hclosed =>
      have hbody' : body = name ++ attributes := by
        rw [← hopen, openBody, if_neg hclosed]
      split at h
      next inner rest' hcontent =>
        obtain ⟨rfl, rfl⟩ := Prod.mk.inj (Option.some.inj h)
        have hafter : inner ++ closingTag name ++ rest' = after := append_of_readContent? hcontent
        refine ⟨_, .element name attributes inner, ?_⟩
        rw [← hs, hbody', ← hafter]
        simp
      next =>
        obtain ⟨rfl, rfl⟩ := Prod.mk.inj (Option.some.inj h)
        refine ⟨_, .unclosed name attributes, ?_⟩
        rw [← hs, hbody']
        simp
  next => cases h

/-- A text begins with what its first token is written as. -/
theorem written_of_next? (h : next? s = some (t, rest)) :
    ∃ written, t.Written written ∧ written ++ rest = s := by
  unfold next? at h
  split at h
  next => cases h
  next r =>
    split at h
    next inner rest' hcontent =>
      obtain ⟨rfl, rfl⟩ := Prod.mk.inj (Option.some.inj h)
      exact ⟨_, .fragment inner, by simp [← append_of_readContent? hcontent]⟩
    next =>
      obtain ⟨rfl, rfl⟩ := Prod.mk.inj (Option.some.inj h)
      exact ⟨_, .unclosedFragment, rfl⟩
  next r _ =>
    cases helement : element? r with
    | none =>
      rw [helement, Option.getD_none] at h
      have htext := written_textFrom '<' r
      rwa [Option.some.inj h] at htext
    | some p =>
      rw [helement, Option.getD_some] at h
      obtain rfl := Option.some.inj h
      exact written_of_element? helement
  next r =>
    split at h
    next expression rest' hcut =>
      obtain ⟨rfl, rfl⟩ := Prod.mk.inj (Option.some.inj h)
      exact ⟨_, .container expression, by simp [← append_of_cut? hcut]⟩
    next =>
      obtain ⟨rfl, rfl⟩ := Prod.mk.inj (Option.some.inj h)
      exact ⟨_, .unclosedContainer r, by simp⟩
  next c r _ _ _ =>
    have htext := written_textFrom c r
    rwa [Option.some.inj h] at htext

theorem covers_of_next? (h : next? s = some (t, rest)) : Covers t.content rest s := by
  obtain ⟨written, hwritten, rfl⟩ := written_of_next? h
  exact hwritten.covers rest

end Token
end StaticPreview.Markup
