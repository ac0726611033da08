import StaticPreview.Proofs.Markup.Settled

/-! # Rendering what was rendered

What is rendered is settled: read again, it has the nodes that were rendered, as far as they are
seen in HTML. Rendered again it stays the same, unless a placeholder is nested too deep in it: the
first time a container may stand where no element may, but the placeholder is an element.
-/
namespace StaticPreview.Markup
open Html (SpelledAttribute openingText)
open Text

def withText (run : List Char) : List Node → List Node
  | .text more :: ns => .text (run ++ more) :: ns
  | ns => if run = [] then ns else .text run :: ns

def placeholderNode : Node :=
  .element "span".toList
    " class=\"sf-dynamic\" style=\"color: #9ca3af; font-style: italic\"".toList
    [.text "[dynamic]".toList]

mutual

/-- The nodes that the HTML of a node is read as, and the nodes `behind` it. Void tags leave their
content behind them, and fragments leave it in their place. -/
def Node.settle (behind : List Node) : Node → List Node
  | .element name attributes children =>
    if isVoid name then
      .element name (attributesHtml attributes) [] :: settleNodes behind children
    else .element name (attributesHtml attributes) (settleNodes [] children) :: behind
  | .fragment children => settleNodes behind children
  | .container expression => if isComment expression then behind else placeholderNode :: behind
  | .text run => withText (Html.escape (collapse run)) behind

def settleNodes (behind : List Node) : List Node → List Node
  | [] => behind
  | node :: more => node.settle (settleNodes behind more)

end

variable {ns : List Node} {s : List Char}

theorem Settled.withText {run : List Char} (hrun : SettledRun run) (h : Settled ns s) :
    Settled (withText run ns) (run ++ s) := by
  have hbefore (hbegin : ¬BeginsInText ns) :
      Settled (if run = [] then ns else .text run :: ns) (run ++ s) := by
    split
    next hnil =>
      subst hnil
      exact h
    next hne => exact .text hne hrun hbegin h
  cases h with
  | text hne hmore hbegin hrest =>
    rw [← List.append_assoc]
    exact .text (by simp [hne]) (hrun.append hmore) hbegin hrest
  | nil => exact hbefore id
  | void => exact hbefore id
  | element => exact hbefore id

def placeholderAttributes : List SpelledAttribute :=
  [⟨"class".toList, some "sf-dynamic".toList⟩,
    ⟨"style".toList, some "color: #9ca3af; font-style: italic".toList⟩]

theorem settled_placeholderAttributes : ∀ e ∈ placeholderAttributes, e.Settled := by
  simp only [placeholderAttributes, List.forall_mem_cons]
  refine ⟨⟨by decide, by decide, ?_⟩, ⟨by decide, by decide, ?_⟩, by simp⟩ <;>
  · rintro value ⟨rfl⟩
    exact ⟨by decide, by decide⟩

theorem Settled.placeholder (h : Settled ns s) :
    Settled (placeholderNode :: ns) (placeholder ++ s) := by
  have hname : IsTagName "span".toList ∧ isVoid "span".toList = false := by decide
  have hrun : SettledRun "[dynamic]".toList := ⟨by decide, by decide⟩
  have hinner : Settled [.text "[dynamic]".toList] ("[dynamic]".toList ++ []) :=
    .text (by decide) hrun id .nil
  have hattributes : " class=\"sf-dynamic\" style=\"color: #9ca3af; font-style: italic\"".toList =
      placeholderAttributes.flatMap SpelledAttribute.written := Text.toList_literal rfl
  have hopening :
      "<span class=\"sf-dynamic\" style=\"color: #9ca3af; font-style: italic\">".toList =
        openingText "span".toList placeholderAttributes := Text.toList_literal rfl
  have hclosing : "[dynamic]</span>".toList = "[dynamic]".toList ++ closingTag "span".toList := rfl
  have hall := Settled.element hname settled_placeholderAttributes hinner h
  unfold placeholderNode Markup.placeholder
  rw [String.toList_append, hattributes, hopening, hclosing]
  simpa only [List.append_assoc, List.nil_append] using hall

/-- The HTML of a node is settled if that of all inside of it is. -/
theorem Token.settled_html {t : Token} (ht : t.Named)
    (hrun : ∀ run, t = .text run → ∀ c ∈ run, c ≠ '\r' ∧ c ≠ '\x7b')
    {children : List Node} {depth : Nat} {out : List Char}
    (hchildren : ∀ inner, htmlOfNodes (depth + 1) children = .ok inner → ∀ {ns s}, Settled ns s →
      Settled (settleNodes ns children) (inner ++ s))
    (h : (t.node children).html depth = .ok out) (hs : Settled ns s) :
    Settled ((t.node children).settle ns) (out ++ s) := by
  cases t with
  | element name attributes content =>
    obtain ⟨-, inner, hinner, rfl⟩ := Node.html_element_eq_ok_iff.mp h
    have hattributes : ∀ e ∈ emitted attributes, e.Settled := settled_of_mem_emitted
    rw [Token.node, Node.settle]
    cases hvoid : isVoid name with
    | true =>
      have hall := Settled.void ⟨ht, hvoid⟩ hattributes (hchildren inner hinner hs)
      simpa [attributesHtml_eq, openingText] using hall
    | false =>
      have hall := Settled.element ⟨ht, hvoid⟩ hattributes (hchildren inner hinner .nil) hs
      simpa [attributesHtml_eq, openingText] using hall
  | fragment content =>
    exact hchildren out (Node.html_fragment_eq_ok_iff.mp h).2 hs
  | container expression =>
    obtain rfl := Node.html_container_eq_ok_iff.mp h
    rw [Token.node, Node.settle]
    split
    · exact hs
    · exact hs.placeholder
  | text run =>
    obtain rfl := Node.html_text_eq_ok_iff.mp h
    exact hs.withText (settledRun_escape_collapse (hrun run rfl))

/-- What is rendered of a text inside any number of elements is settled, and so it is before
settled markup. -/
theorem settled_of_htmlOfNodes_parse {f : List Char} (hf : '\r' ∉ f) {depth : Nat}
    {out : List Char} (h : htmlOfNodes depth (Node.parse f) = .ok out) (hs : Settled ns s) :
    Settled (settleNodes ns (Node.parse f)) (out ++ s) := by
  refine rendered_induction (P := fun nodes out =>
    ∀ {ns s}, Settled ns s → Settled (settleNodes ns nodes) (out ++ s)) id ?_ h hs
  intro t children depth first more rest ht hrun hchildren hfirst hmore ns s hs
  have hreturn : ∀ run, t = .text run → ∀ c ∈ run, c ≠ '\r' ∧ c ≠ '\x7b' := by
    intro run heq c hc
    obtain ⟨hmem, hbrace⟩ := hrun run heq c hc
    refine ⟨?_, hbrace⟩
    rintro rfl
    exact hf hmem
  rw [List.append_assoc]
  exact Token.settled_html ht hreturn (fun inner hinner _ _ => hchildren inner hinner) hfirst
    (hmore hs)

theorem nestingOfNodes_withText (run : List Char) (ns : List Node) :
    nestingOfNodes (withText run ns) = nestingOfNodes ns := by
  unfold withText
  split
  next => simp [nestingOfNodes, Node.nesting]
  next => split <;> simp [nestingOfNodes, Node.nesting]

mutual

theorem Node.nesting_settle_le (behind : List Node) (node : Node) :
    nestingOfNodes (node.settle behind) ≤ max node.nesting (nestingOfNodes behind) := by
  cases node with
  | element name attributes children =>
    have hinside := nesting_settleNodes_le [] children
    have hbehind := nesting_settleNodes_le behind children
    rw [Node.settle]
    split <;> simp only [nestingOfNodes, Node.nesting] at hinside ⊢ <;> omega
  | fragment children =>
    have hbehind := nesting_settleNodes_le behind children
    rw [Node.settle, Node.nesting]
    omega
  | container expression =>
    rw [Node.settle, Node.nesting]
    split <;> simp [placeholderNode, nestingOfNodes, Node.nesting]
  | text run =>
    rw [Node.settle, nestingOfNodes_withText]
    exact Nat.le_max_right _ _

theorem nesting_settleNodes_le (behind ns : List Node) :
    nestingOfNodes (settleNodes behind ns) ≤ max (nestingOfNodes ns) (nestingOfNodes behind) := by
  cases ns with
  | nil => exact Nat.le_max_right _ _
  | cons node more =>
    have hnode := Node.nesting_settle_le (settleNodes behind more) node
    have hmore := nesting_settleNodes_le behind more
    rw [settleNodes, nestingOfNodes]
    omega

end

mutual

/-- Whether an element may stand wherever a container is shown in a node inside `depth` elements
and fragments. -/
def Node.hasRoom (depth : Nat) : Node → Bool
  | .element _ _ children => hasRoomOfNodes (depth + 1) children
  | .fragment children => hasRoomOfNodes (depth + 1) children
  | .container expression => isComment expression || decide (depth < maxDepth)
  | .text _ => true

def hasRoomOfNodes (depth : Nat) : List Node → Bool
  | [] => true
  | node :: more => node.hasRoom depth && hasRoomOfNodes depth more

end

mutual

theorem Node.fits_nesting {node : Node} {depth : Nat} {out : List Char}
    (h : node.html depth = .ok out) (hroom : node.hasRoom depth) :
    Forest.Fits depth node.nesting := by
  cases node with
  | element name attributes children =>
    obtain ⟨hdepth, inner, hinner, -⟩ := Node.html_element_eq_ok_iff.mp h
    exact Forest.fits_succ.mpr ⟨hdepth, fits_nestingOfNodes hinner hroom⟩
  | fragment children =>
    obtain ⟨hdepth, hinner⟩ := Node.html_fragment_eq_ok_iff.mp h
    exact Forest.fits_succ.mpr ⟨hdepth, fits_nestingOfNodes hinner hroom⟩
  | container expression =>
    rw [Node.nesting]
    split
    · exact .inl rfl
    next hshown =>
      rw [Node.hasRoom, Bool.or_eq_true, or_iff_right hshown, decide_eq_true_iff] at hroom
      exact .inr hroom
  | text run => exact .inl rfl

theorem fits_nestingOfNodes {ns : List Node} {depth : Nat} {out : List Char}
    (h : htmlOfNodes depth ns = .ok out) (hroom : hasRoomOfNodes depth ns) :
    Forest.Fits depth (nestingOfNodes ns) := by
  cases ns with
  | nil => exact .inl rfl
  | cons node more =>
    obtain ⟨_, _, hfirst, hmore, -⟩ := htmlOfNodes_cons_eq_ok_iff.mp h
    obtain ⟨hnode, hbehind⟩ := Bool.and_eq_true_iff.mp hroom
    exact Forest.fits_max.mpr ⟨Node.fits_nesting hfirst hnode, fits_nestingOfNodes hmore hbehind⟩

end

theorem Settled.render_eq_ok_iff (h : Settled ns s) (out : List Char) :
    render s = .ok out ↔ nestingOfNodes ns ≤ maxDepth ∧ out = s := by
  rw [render, h.parse_eq, h.htmlOfNodes_eq_ok_iff, Forest.fits_zero_iff]

/-- What is rendered is read as the settled nodes, which are nested no deeper than the nodes that
were rendered. It is rendered as itself exactly where that is not too deep, and so it is whenever an
element may stand wherever a container was shown. -/
theorem parse_rendered {f h : List Char} (hf : '\r' ∉ f) (hrender : render f = .ok h) :
    Node.parse h = settleNodes [] (Node.parse f) ∧
      nestingOfNodes (Node.parse h) ≤ nestingOfNodes (Node.parse f) ∧
      (∀ out, render h = .ok out ↔ nestingOfNodes (Node.parse h) ≤ maxDepth ∧ out = h) ∧
      (hasRoomOfNodes 0 (Node.parse f) → render h = .ok h) := by
  have hsettled : Settled (settleNodes [] (Node.parse f)) h := by
    simpa using settled_of_htmlOfNodes_parse hf hrender .nil
  have hnesting : nestingOfNodes (settleNodes [] (Node.parse f)) ≤
      nestingOfNodes (Node.parse f) := by
    simpa [nestingOfNodes] using nesting_settleNodes_le [] (Node.parse f)
  rw [hsettled.parse_eq]
  refine ⟨rfl, hnesting, hsettled.render_eq_ok_iff, fun hroom => ?_⟩
  have hfits := Forest.fits_zero_iff.mp (fits_nestingOfNodes hrender hroom)
  exact (hsettled.render_eq_ok_iff h).mpr ⟨Nat.le_trans hnesting hfits, rfl⟩

/-- A fragment with a void element that holds a container. -/
def mixedList : List Char :=
  "<><p>1 < 2</p><hr>\x7bn\x7d</hr></>".toList

def mixedListHtml : List Char :=
  "<p>1 &lt; 2</p><hr>".toList ++ placeholder

theorem render_mixedListHtml :
    '\r' ∉ mixedList ∧ render mixedList = .ok mixedListHtml ∧
      hasRoomOfNodes 0 (Node.parse mixedList) ∧ render mixedListHtml = .ok mixedListHtml := by
  have hreturn : '\r' ∉ mixedList := by decide
  have hrender : render mixedList = .ok mixedListHtml := eq_ok_of_toOption (by decide +kernel)
  have hroom : hasRoomOfNodes 0 (Node.parse mixedList) := by decide +kernel
  obtain ⟨-, -, -, hagain⟩ := parse_rendered hreturn hrender
  exact ⟨hreturn, hrender, hroom, hagain hroom⟩

def italics (n : Nat) (inner : List Char) : List Char :=
  match n with
  | 0 => inner
  | n + 1 => "<i>".toList ++ italics n inner ++ closingTag ['i']

def italicContainer : Nat → Forest
  | 0 => .container ['x'] .nil
  | n + 1 => .element ⟨['i'], [], []⟩ (italicContainer n) .nil

theorem wellFormed_italicContainer (n : Nat) : (italicContainer n).WellFormed := by
  induction n with
  | zero => exact ⟨by decide, trivial⟩
  | succ n ih => exact ⟨⟨⟨by decide, by simp, by simp⟩, by decide⟩, ih, trivial⟩

theorem written_italicContainer (n : Nat) :
    (italicContainer n).written = italics n "\x7bx\x7d".toList := by
  induction n with
  | zero => rfl
  | succ n ih => simp [italicContainer, Forest.written, italics, ih, WrittenTag.body,
      WrittenTag.attributeText]

theorem html_italicContainer (n : Nat) : (italicContainer n).html = italics n placeholder := by
  induction n with
  | zero =>
    have hshown : isComment ['x'] = false := by decide
    simp [italicContainer, Forest.html, italics, hshown]
  | succ n ih =>
    have hopening : Forest.openingHtml ⟨['i'], [], []⟩ = "<i>".toList := by decide +kernel
    simp [italicContainer, Forest.html, italics, ih, hopening]

theorem height_italicContainer (n : Nat) : (italicContainer n).height = n := by
  induction n with
  | zero => rfl
  | succ n ih => simp [italicContainer, Forest.height, ih]

theorem exists_settled_italics (n : Nat) :
    ∃ ns, Settled ns (italics n placeholder) ∧ nestingOfNodes ns = n + 1 := by
  induction n with
  | zero =>
    refine ⟨[placeholderNode], ?_, rfl⟩
    simpa [italics] using Settled.nil.placeholder
  | succ n ih =>
    obtain ⟨ns, hns, hnesting⟩ := ih
    have hname : IsTagName ['i'] ∧ isVoid ['i'] = false := by decide
    have hnode := @Settled.element _ _ _ [] _ _ hname (by simp) hns .nil
    refine ⟨_, by simpa [italics, openingText] using hnode, ?_⟩
    simp [nestingOfNodes, Node.nesting, hnesting]

theorem mem_of_mem_italics {c : Char} {inner : List Char} {n : Nat} (hc : c ∈ italics n inner) :
    c ∈ inner ∨ c ∈ closingTag ['i'] := by
  have hopening : ∀ c ∈ "<i>".toList, c ∈ closingTag ['i'] := by decide
  induction n with
  | zero => exact .inl hc
  | succ n ih =>
    rw [italics, List.mem_append, List.mem_append] at hc
    rcases hc with (hc | hc) | hc
    · exact .inr (hopening c hc)
    · exact ih hc
    · exact .inr hc

/-- A container inside as many elements as may be nested is shown as an element, which is one too
many when it is rendered again. -/
theorem render_italics :
    '\r' ∉ italics 256 "\x7bx\x7d".toList ∧
      render (italics 256 "\x7bx\x7d".toList) = .ok (italics 256 placeholder) ∧
      render (italics 256 placeholder) ≠ .ok (italics 256 placeholder) := by
  refine ⟨fun hc => absurd (mem_of_mem_italics hc) (by decide), ?_, fun hagain => ?_⟩
  · have hfits : (italicContainer 256).height ≤ maxDepth := by
      rw [height_italicContainer]
      decide
    have hnil : render [] = .ok [] := by
      rw [render, Node.parse_nil]
      rfl
    have hrender := (render_eq_ok_iff (wellFormed_italicContainer 256) (b := [])
      (fun _ c hc => by simp at hc) _).mpr ⟨hfits, [], hnil, rfl⟩
    simpa [written_italicContainer, html_italicContainer] using hrender
  · obtain ⟨ns, hns, hnesting⟩ := exists_settled_italics 256
    obtain ⟨hfits, -⟩ := (hns.render_eq_ok_iff _).mp hagain
    rw [hnesting] at hfits
    exact absurd hfits (by decide)

end StaticPreview.Markup
