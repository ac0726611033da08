import StaticPreview.Component.Operand
import StaticPreview.Proofs.Markup.Margins

/-! # Dropping the tags of a fragment

The tags of a fragment are dropped where the reader takes the whole text for one fragment, and what
stood between them is then rendered as it was inside.
-/
namespace StaticPreview.Component
open Text Markup

/-- Only tags that belong together and enclose the whole text are dropped. -/
theorem stripFragment_cases (s : List Char) :
    stripFragment s = s ∨ ∃ content, s = '<' :: '>' :: (content ++ closingTag []) ∧
      content? [] (content ++ closingTag []) = some (content, []) ∧
      stripFragment s = trim content := by
  rw [stripFragment]
  split
  next content h =>
    right
    obtain ⟨inner, hinner, hcontent⟩ := Option.bind_eq_some_iff.mp h
    have hend := append_of_readContent? hcontent
    rw [List.append_nil] at hend
    have hs := after?_eq_some_iff.mp hinner
    subst hend
    exact ⟨content, hs.symm, hcontent, rfl⟩
  next => exact .inl rfl

theorem parse_wholeFragment {content : List Char}
    (h : content? [] (content ++ closingTag []) = some (content, [])) :
    Node.parse ('<' :: '>' :: (content ++ closingTag [])) = [.fragment (Node.parse content)] := by
  have hnext : Token.next? ('<' :: '>' :: (content ++ closingTag [])) =
      some (.fragment content, []) := by
    rw [Token.next?, h]
  rw [Node.parse_of_next? hnext, Node.parse_nil]
  rfl

/-- What stood between the tags of a fragment is rendered without the blanks at its ends. -/
theorem render_trim_of_htmlOfNodes {content out : List Char}
    (h : htmlOfNodes 1 (Node.parse content) = .ok out) :
    ∃ lead inner tail, AllBlank lead ∧ AllBlank tail ∧ out = lead ++ inner ++ tail ∧
      render (trim content) = .ok inner := by
  obtain ⟨gap, hgap, hcontent⟩ := exists_gap content
  obtain ⟨behind, hbehind, htrim⟩ := exists_gap_trimEnd (skipBlank content)
  rw [hcontent] at h
  obtain ⟨lead, more, hlead, rfl, hmore⟩ :=
    htmlOfNodes_parse_blanks_append hgap (fun _ => not_isBlank_of_head?_skipBlank) h
  rw [htrim] at hmore
  obtain ⟨inner, tail, htail, rfl, hinner⟩ :=
    htmlOfNodes_parse_append_blanks hbehind (fun _ => not_isBlank_of_getLast?_trimEnd) hmore
  exact ⟨lead, inner, tail, hlead, htail, (List.append_assoc lead inner tail).symm,
    htmlOfNodes_of_succ hinner⟩

/-- A text is rendered the same without the tags of a fragment around it, but for blanks at its
ends. The tags are dropped only where all of the text is read as one fragment. -/
theorem render_stripFragment {s out : List Char} (h : render s = .ok out) :
    (stripFragment s = s ∨ ∃ content, s = '<' :: '>' :: (content ++ closingTag []) ∧
      Node.parse s = [.fragment (Node.parse content)] ∧ stripFragment s = trim content) ∧
    ∃ lead inner tail, render (stripFragment s) = .ok inner ∧ AllBlank lead ∧ AllBlank tail ∧
      out = lead ++ inner ++ tail ∧ trim inner = trim out := by
  rcases stripFragment_cases s with hsame | ⟨content, rfl, hcontent, hstrip⟩
  · refine ⟨.inl hsame, [], out, [], ?_, nofun, nofun, ?_, rfl⟩
    · rw [hsame]
      exact h
    · exact (List.append_nil out).symm
  · have hparse := parse_wholeFragment hcontent
    refine ⟨.inr ⟨content, rfl, hparse, hstrip⟩, ?_⟩
    rw [render, hparse] at h
    obtain ⟨first, more, hfirst, hmore, rfl⟩ := htmlOfNodes_cons_eq_ok_iff.mp h
    obtain rfl := Except.ok.inj hmore
    obtain ⟨-, hinside⟩ := Node.html_fragment_eq_ok_iff.mp hfirst
    obtain ⟨lead, inner, tail, hlead, htail, rfl, hinner⟩ := render_trim_of_htmlOfNodes hinside
    refine ⟨lead, inner, tail, ?_, hlead, htail, List.append_nil _, ?_⟩
    · rw [hstrip]
      exact hinner
    · rw [List.append_nil, trim_append_of_blank htail, trim_blanks_append hlead]

/-- One fragment with an element that never ends, and two fragments side by side. -/
theorem render_stripFragment_sides :
    (render "<> x<b\n</>".toList = .ok " x&lt;b".toList ∧
      stripFragment "<> x<b\n</>".toList = "x<b".toList ∧
      ∃ lead inner tail, render "x<b".toList = .ok inner ∧ AllBlank lead ∧ AllBlank tail ∧
        " x&lt;b".toList = lead ++ inner ++ tail ∧ trim inner = trim " x&lt;b".toList) ∧
    render "<>a</><>b</>".toList = .ok "ab".toList ∧
      stripFragment "<>a</><>b</>".toList = "<>a</><>b</>".toList := by
  have hone : render "<> x<b\n</>".toList = .ok " x&lt;b".toList :=
    eq_ok_of_toOption (by decide +kernel)
  have htwo : render "<>a</><>b</>".toList = .ok "ab".toList :=
    eq_ok_of_toOption (by decide +kernel)
  have hstrip : stripFragment "<> x<b\n</>".toList = "x<b".toList := by decide +kernel
  obtain ⟨-, hinner⟩ := render_stripFragment hone
  rw [hstrip] at hinner
  refine ⟨⟨hone, hstrip, hinner⟩, htwo, ?_⟩
  decide +kernel

end StaticPreview.Component
