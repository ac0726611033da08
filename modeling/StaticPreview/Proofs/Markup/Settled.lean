import StaticPreview.Proofs.Markup.Emitted
import StaticPreview.Proofs.Markup.Recovery
import StaticPreview.Proofs.Text.Lines

/-! # Settled markup

Settled markup is read as the nodes that it is written of, and it is the HTML of these nodes. Void
tags stand in it without a slash: the search for the closing tag of a void name counts them and
finds none, while the search for any other name passes over settled markup as a whole.
-/
namespace StaticPreview.Markup
open Html (SpelledAttribute openingText)
open Text

structure SettledRun (run : List Char) : Prop where
  safe : Html.Safe run
  ne : ∀ c ∈ run, c ≠ '\n' ∧ c ≠ '\r' ∧ c ≠ '\x7b'

theorem exists_isInfix_of_mem_trimFollowing {line : List Char} {ls : List (List Char)}
    (h : line ∈ trimFollowing ls) : ∃ whole ∈ ls, line <:+: whole := by
  induction ls with
  | nil => cases h
  | cons first more ih =>
    cases more with
    | nil =>
      obtain rfl := List.mem_singleton.mp h
      exact ⟨first, List.mem_cons_self, (isSuffix_trimStart first).isInfix⟩
    | cons next more =>
      rcases List.mem_cons.mp h with rfl | h
      · exact ⟨first, List.mem_cons_self, isInfix_trim first⟩
      · obtain ⟨whole, hwhole, hline⟩ := ih h
        exact ⟨whole, List.mem_cons_of_mem first hwhole, hline⟩

theorem exists_isInfix_of_mem_trimLines {line : List Char} {ls : List (List Char)}
    (h : line ∈ trimLines ls) : ∃ whole ∈ ls, line <:+: whole := by
  unfold trimLines at h
  split at h
  next => cases h
  next whole => exact ⟨whole, List.mem_cons_self, List.mem_singleton.mp h ▸ List.infix_refl _⟩
  next first more _ =>
    rcases List.mem_cons.mp h with rfl | h
    · exact ⟨first, List.mem_cons_self, (isPrefix_trimEnd first).isInfix⟩
    · obtain ⟨whole, hwhole, hline⟩ := exists_isInfix_of_mem_trimFollowing h
      exact ⟨whole, List.mem_cons_of_mem first hwhole, hline⟩

/-- Collapsing brings no character into a text but spaces, and leaves no line break in it. -/
theorem mem_of_mem_collapse {c : Char} {run : List Char} (hc : c ∈ collapse run) :
    c = ' ' ∨ (c ∈ run ∧ c ≠ '\n') := by
  refine (mem_of_mem_intercalate hc).imp_right ?_
  rintro ⟨line, hline, hmem⟩
  obtain ⟨whole, hwhole, hinfix⟩ :=
    exists_isInfix_of_mem_trimLines (List.mem_filter.mp hline).1
  obtain ⟨piece, hpiece, rfl⟩ := List.mem_map.mp hwhole
  have hdrop : c ∈ dropReturn piece := hinfix.subset hmem
  have hpieceMem : c ∈ piece := (isPrefix_dropReturn piece).subset hdrop
  refine ⟨mem_of_mem_pieces hpiece hpieceMem, ?_⟩
  rintro rfl
  exact not_mem_of_mem_pieces piece hpiece hpieceMem

theorem settledRun_escape_collapse {run : List Char} (hrun : ∀ c ∈ run, c ≠ '\r' ∧ c ≠ '\x7b') :
    SettledRun (Html.escape (collapse run)) := by
  refine ⟨Html.safe_escape _, fun c hc => ?_⟩
  rcases Html.mem_of_mem_escape hc with hc | hc
  · rcases mem_of_mem_collapse hc with rfl | ⟨hc, hbreak⟩
    · decide
    · exact ⟨hbreak, hrun c hc⟩
  · have hne : ∀ d, Html.isReferenceChar d = false → c ≠ d := by
      rintro d hd rfl
      exact absurd (hc.symm.trans hd) nofun
    exact ⟨hne _ (by decide), hne _ (by decide), hne _ (by decide)⟩

theorem SettledRun.append {run more : List Char} (hrun : SettledRun run) (hmore : SettledRun more) :
    SettledRun (run ++ more) :=
  ⟨hrun.safe.append hmore.safe, List.forall_mem_append.mpr ⟨hrun.ne, hmore.ne⟩⟩

theorem SettledRun.collapse_eq {run : List Char} (h : SettledRun run) : collapse run = run := by
  have hline : lines run = [run] := by
    have hbreak : '\n' ∉ run := fun hmem => (h.ne _ hmem).1 rfl
    have hreturn : run.getLast? ≠ some '\r' := fun hlast =>
      (h.ne _ (List.mem_of_getLast? hlast)).2.1 rfl
    rw [lines_of_not_mem hbreak, dropReturn, if_neg hreturn]
  rw [collapse, hline]
  cases run <;> simp [trimLines]

theorem SettledRun.html_text {run : List Char} (h : SettledRun run) (depth : Nat) :
    (Node.text run).html depth = .ok run := by
  rw [Node.html_text_eq_ok_iff, h.collapse_eq, Html.escape_of_safe h.safe]

def BeginsInText : List Node → Prop
  | .text _ :: _ => True
  | _ => False

/-- Nodes and the text that they are written as. Text runs do not touch, and nothing is inside a
void element. -/
inductive Settled : List Node → List Char → Prop
  | nil : Settled [] []
  | text {run s : List Char} {ns : List Node} (hne : run ≠ []) (hrun : SettledRun run)
      (hbegin : ¬BeginsInText ns) (h : Settled ns s) : Settled (.text run :: ns) (run ++ s)
  | void {name s : List Char} {es : List SpelledAttribute} {ns : List Node}
      (hname : IsTagName name ∧ isVoid name = true) (hes : ∀ e ∈ es, e.Settled)
      (h : Settled ns s) :
      Settled (.element name (es.flatMap SpelledAttribute.written) [] :: ns)
        (openingText name es ++ s)
  | element {name inner s : List Char} {es : List SpelledAttribute} {children ns : List Node}
      (hname : IsTagName name ∧ isVoid name = false) (hes : ∀ e ∈ es, e.Settled)
      (hinner : Settled children inner) (h : Settled ns s) :
      Settled (.element name (es.flatMap SpelledAttribute.written) children :: ns)
        (openingText name es ++ (inner ++ (closingTag name ++ s)))

def spelling (e : SpelledAttribute) : WrittenAttribute :=
  e.value.elim (.bare e.name) (.quoted e.name '"')

theorem written_spelling (e : SpelledAttribute) : ' ' :: (spelling e).written = e.written := by
  obtain ⟨name, _ | value⟩ := e <;>
    simp [spelling, WrittenAttribute.written, SpelledAttribute.written]

theorem wellFormed_spelling {e : SpelledAttribute} (h : e.Settled) : (spelling e).WellFormed := by
  obtain ⟨name, value⟩ := e
  cases value with
  | none => exact h.name
  | some value =>
    obtain ⟨-, hsafe⟩ := h.value value rfl
    have hne {d : Char} (hd : Html.isMarkupChar d = true) : ∀ c ∈ value, c ≠ d := fun c hc =>
      Html.ne_of_not_isMarkupChar (hsafe.not_isMarkupChar c hc) hd
    exact ⟨h.name, .inl rfl, fun c hc => ⟨hne (by decide) c hc, hne (by decide) c hc⟩⟩

def settledTag (name : List Char) (es : List SpelledAttribute) : WrittenTag :=
  ⟨name, es.map fun e => ([' '], spelling e), []⟩

variable {name : List Char} {es : List SpelledAttribute}

theorem attributeText_settledTag : (settledTag name es).attributeText =
    es.flatMap SpelledAttribute.written := by
  simp [settledTag, WrittenTag.attributeText, List.flatMap_map, written_spelling]

theorem openingText_eq : openingText name es = '<' :: (settledTag name es).body ++ ['>'] := by
  rw [openingText, WrittenTag.body, attributeText_settledTag]
  simp [settledTag]

theorem wellFormed_settledTag (hname : IsTagName name) (hes : ∀ e ∈ es, e.Settled) :
    (settledTag name es).WellFormed := by
  refine ⟨hname, ?_, by simp [settledTag]⟩
  intro a ha
  obtain ⟨e, he, rfl⟩ := List.mem_map.mp ha
  have hblank : ∀ c ∈ [' '], isAsciiBlank c := by decide
  exact ⟨by simp, hblank, wellFormed_spelling (hes e he)⟩

/-- Whether the search for the closing tag of `tag` goes over a text, whatever follows, and stands
inside `k` more elements behind it. -/
def Deepens (tag p : List Char) (k : Nat) : Prop :=
  ∀ depth s, readContent? tag depth (p ++ s) = prepend p (readContent? tag (depth + k) s)

variable {tag p q : List Char} {k l : Nat}

theorem Passes.deepens (h : Passes tag p) : Deepens tag p 0 := h

theorem Deepens.append (hp : Deepens tag p k) (hq : Deepens tag q l) :
    Deepens tag (p ++ q) (k + l) := by
  intro depth s
  rw [List.append_assoc, hp, hq, prepend_prepend, Nat.add_assoc]

/-- No closing tag of the sought name is left open to the search. -/
theorem Deepens.content?_eq_none (h : Deepens tag p k) : content? tag p = none := by
  have hend := h 0 []
  rwa [List.append_nil, readContent?, prepend, Option.map_none] at hend

theorem deepens_openingText (hname : IsTagName name) (hes : ∀ e ∈ es, e.Settled)
    (htag : IsSoughtName tag) :
    Deepens tag (openingText name es) (if tag = name then 1 else 0) := by
  intro depth s
  have ht := wellFormed_settledTag hname hes
  have hassoc : openingText name es ++ s = '<' :: (settledTag name es).body ++ '>' :: s := by
    simp [openingText_eq]
  rw [hassoc, ht.isTag.readContent?_append htag, openingText_eq, ht.selfCloses_body]
  change prepend _ (readContent? tag
    (if tag = name ∧ false = false then depth + 1 else depth) s) = _
  by_cases heq : tag = name <;> simp [heq]

/-- An element leaves the search where it was, once its content does so for its own name. -/
theorem deepens_element {inner : List Char} (hname : IsTagName name) (hes : ∀ e ∈ es, e.Settled)
    (htag : IsSoughtName tag) (hinner : Deepens tag inner k) (hk : tag = name → k = 0) :
    Deepens tag (openingText name es ++ (inner ++ closingTag name)) k := by
  have hopening := deepens_openingText hname hes htag
  by_cases heq : tag = name
  · subst heq
    obtain rfl := hk rfl
    intro depth s
    have hassoc : openingText tag es ++ (inner ++ closingTag tag) ++ s =
        openingText tag es ++ (inner ++ (closingTag tag ++ s)) := by simp
    rw [hassoc, hopening, hinner, readContent?_closing, if_pos rfl, if_neg (by omega)]
    simp [prepend, Function.comp_def]
  · have hclosing := (passes_closingTag_of_ne htag (.inr hname) heq).deepens
    rw [if_neg heq] at hopening
    simpa using hopening.append (hinner.append hclosing)

namespace Settled
variable {ns : List Node} {s : List Char}

/-- Only void elements are left open. -/
theorem exists_deepens (h : Settled ns s) (htag : IsSoughtName tag) :
    ∃ k, Deepens tag s k ∧ (isVoid tag = false → k = 0) := by
  induction h with
  | nil => exact ⟨0, (passes_of_ne (by simp) tag).deepens, fun _ => rfl⟩
  | text _ hrun _ _ ih =>
    obtain ⟨k, hk, hzero⟩ := ih
    have hpass := passes_of_ne (fun c hc => Html.ne_of_not_isMarkupChar
      (hrun.safe.not_isMarkupChar c hc) (by decide)) tag
    exact ⟨0 + k, hpass.deepens.append hk, fun hvoid => by rw [hzero hvoid]⟩
  | void hname hes _ ih =>
    obtain ⟨k, hk, hzero⟩ := ih
    refine ⟨_, (deepens_openingText hname.1 hes htag).append hk, fun hvoid => ?_⟩
    rw [if_neg, hzero hvoid]
    rintro rfl
    exact absurd (hvoid.symm.trans hname.2) nofun
  | element hname hes _ _ ihinner ih =>
    obtain ⟨k, hk, hzero⟩ := ihinner
    obtain ⟨l, hl, hzero'⟩ := ih
    have hself := deepens_element hname.1 hes htag hk fun heq => hzero (heq ▸ hname.2)
    refine ⟨k + l, by simpa using hself.append hl, fun hvoid => ?_⟩
    rw [hzero hvoid, hzero' hvoid]

/-- The search for a closing tag passes over settled text. -/
theorem passes (h : Settled ns s) (htag : IsSoughtName tag) (hvoid : isVoid tag = false) :
    Passes tag s := by
  obtain ⟨k, hk, hzero⟩ := h.exists_deepens htag
  obtain rfl := hzero hvoid
  exact hk

theorem content?_eq_none (h : Settled ns s) (htag : IsSoughtName tag) : content? tag s = none := by
  obtain ⟨k, hk, -⟩ := h.exists_deepens htag
  exact hk.content?_eq_none

theorem stopsText (h : Settled ns s) (hbegin : ¬BeginsInText ns) : StopsText s := by
  cases h with
  | nil => exact fun c hc => by simp at hc
  | text => exact absurd trivial hbegin
  | void | element =>
    rintro c ⟨rfl⟩
    exact .inl rfl

end Settled

theorem Token.element?_unclosed {t : WrittenTag} (ht : t.WellFormed) {s : List Char}
    (hs : content? t.name s = none) :
    element? (t.body ++ '>' :: s) = some (element t.name t.attributeText [], s) := by
  have hname : tagName? (t.body ++ '>' :: s) = some t.name := by
    rw [WrittenTag.body, List.append_assoc]
    exact tagName?_append ht.isTagName (ht.endsName (.inl rfl) s)
  rw [element?_of_content?_eq_none hname (ht.inTag_body.tagBody?_close s) ht.selfCloses_body hs,
    WrittenTag.body, List.drop_left]

namespace Settled
variable {ns : List Node} {s : List Char}

/-- Settled markup is read as its nodes. The tag of a void element is read alone, since no closing
tag of its name follows it. -/
theorem parse_eq (h : Settled ns s) : Node.parse s = ns := by
  induction h with
  | nil => exact Node.parse_nil
  | @text run s ns hne hrun hbegin h ih =>
    have hplain : ∀ c ∈ run, c ≠ '<' ∧ c ≠ '\x7b' := fun c hc =>
      ⟨Html.ne_of_not_isMarkupChar (hrun.safe.not_isMarkupChar c hc) (by decide),
        (hrun.ne c hc).2.2⟩
    rw [Node.parse_of_next? (Token.next?_text hne hplain (h.stopsText hbegin)), ih]
    rfl
  | @void name s es ns hname hes h ih =>
    have ht := wellFormed_settledTag hname.1 hes
    have hnext := Token.next?_of_element? <|
      Token.element?_unclosed ht (h.content?_eq_none (.inr hname.1))
    have hassoc : openingText name es ++ s =
        '<' :: ((settledTag name es).body ++ '>' :: s) := by simp [openingText_eq]
    rw [hassoc, Node.parse_of_next? hnext, ih, attributeText_settledTag, Token.content,
      Node.parse_nil]
    rfl
  | @element name inner s es children ns hname hes hinner h ihinner ih =>
    have ht := wellFormed_settledTag hname.1 hes
    have hnext := Token.next?_of_element? <|
      Token.element?_open ht (hinner.passes (.inr hname.1) hname.2) s
    have hassoc : openingText name es ++ (inner ++ (closingTag name ++ s)) =
        '<' :: ((settledTag name es).body ++ '>' :: inner ++ closingTag name ++ s) := by
      simp [openingText_eq]
    rw [hassoc]
    change Node.parse ('<' :: ((settledTag name es).body ++ '>' :: inner ++
      closingTag (settledTag name es).name ++ s)) = _
    rw [Node.parse_of_next? hnext, ih, attributeText_settledTag, Token.content, ihinner]
    rfl

end Settled

mutual

/-- How deep elements and fragments are nested in a node. A container that is shown counts as the
element that it is shown as. -/
def Node.nesting : Node → Nat
  | .element _ _ children => nestingOfNodes children + 1
  | .fragment children => nestingOfNodes children + 1
  | .container expression => if isComment expression then 0 else 1
  | .text _ => 0

def nestingOfNodes : List Node → Nat
  | [] => 0
  | node :: more => max node.nesting (nestingOfNodes more)

end

theorem htmlOfNodes_cons_eq_ok_iff_of {depth : Nat} {node : Node} {more : List Node} {p q : Prop}
    {first rest : List Char} (hnode : ∀ out, node.html depth = .ok out ↔ p ∧ out = first)
    (hmore : ∀ out, htmlOfNodes depth more = .ok out ↔ q ∧ out = rest) (out : List Char) :
    htmlOfNodes depth (node :: more) = .ok out ↔ (p ∧ q) ∧ out = first ++ rest := by
  rw [htmlOfNodes_cons_eq_ok_iff]
  constructor
  · rintro ⟨_, _, ha, hb, rfl⟩
    obtain ⟨hp, rfl⟩ := (hnode _).mp ha
    obtain ⟨hq, rfl⟩ := (hmore _).mp hb
    exact ⟨⟨hp, hq⟩, rfl⟩
  · rintro ⟨⟨hp, hq⟩, rfl⟩
    exact ⟨first, rest, (hnode _).mpr ⟨hp, rfl⟩, (hmore _).mpr ⟨hq, rfl⟩, rfl⟩

/-- Settled markup is the HTML of its nodes, wherever nodes may be nested that deep. -/
theorem Settled.htmlOfNodes_eq_ok_iff {ns : List Node} {s : List Char} (h : Settled ns s)
    (depth : Nat) (out : List Char) : htmlOfNodes depth ns = .ok out ↔
      Forest.Fits depth (nestingOfNodes ns) ∧ out = s := by
  induction h generalizing depth out with
  | nil => simp [htmlOfNodes, nestingOfNodes, Forest.Fits, pure, Except.pure, eq_comm]
  | @text run s ns _ hrun _ _ ih =>
    have hnode : ∀ out, (Node.text run).html depth = .ok out ↔ True ∧ out = run := by
      simp [hrun.html_text, eq_comm]
    rw [htmlOfNodes_cons_eq_ok_iff_of hnode (ih depth), nestingOfNodes, Node.nesting,
      Nat.zero_max, true_and]
  | @void name s es ns hname hes _ ih =>
    have hnode : ∀ out, (Node.element name (es.flatMap SpelledAttribute.written) []).html depth =
        .ok out ↔ (depth < maxDepth ∧ Forest.Fits (depth + 1) 0) ∧ out = openingText name es := by
      intro out
      simp [Node.html_element_eq_ok_iff, htmlOfNodes, pure, Except.pure, openingText, Forest.Fits,
        hname.2, attributesHtml_written hes]
    rw [htmlOfNodes_cons_eq_ok_iff_of hnode (ih depth), nestingOfNodes, Node.nesting,
      nestingOfNodes, Forest.fits_max_succ]
  | @element name inner s es children ns hname hes _ _ ihinner ih =>
    have hnode : ∀ out, (Node.element name (es.flatMap SpelledAttribute.written) children).html
        depth = .ok out ↔ (depth < maxDepth ∧ Forest.Fits (depth + 1) (nestingOfNodes children)) ∧
          out = openingText name es ++ (inner ++ closingTag name) := by
      intro out
      simp [Node.html_element_eq_ok_iff, ihinner, openingText, hname.2, attributesHtml_written hes,
        and_assoc]
    rw [htmlOfNodes_cons_eq_ok_iff_of hnode (ih depth), nestingOfNodes, Node.nesting,
      Forest.fits_max_succ]
    simp

end StaticPreview.Markup
