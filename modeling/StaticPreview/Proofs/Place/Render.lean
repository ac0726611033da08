import StaticPreview.Markup.Render
import StaticPreview.Proofs.Markup.Written
import StaticPreview.Proofs.Place.Attribute
import StaticPreview.Proofs.Place.TextRun
import StaticPreview.Proofs.Place.Token

/-! # Rendering by places

A text is rendered token by token, each from the place where the one before it ends. The content of
an element or a fragment is a text of its own, with places of its own.
-/
namespace StaticPreview.Place
open Text Markup

def assignmentHtml (name value : List Char) : Checked (List Char) := do
  return ' ' :: name ++ '=' :: '"' :: (← escapeText value) ++ ['"']

def attributeHtml (a : Attribute) : Checked (List Char) :=
  if a.isHandler then return []
  else
    match a.value with
    | .absent => return ' ' :: a.name
    | .literal text => assignmentHtml (htmlName a.name) text
    | .expression text =>
      if a.name = "style".toList ∧ isObject text then
        match inlineStyle? text with
        | some css => assignmentHtml "style".toList css
        | none => return []
      else assignmentHtml (htmlName a.name) text

def attributesHtml (s : List Char) : Checked (List Char) := do
  return (← (← attributesOf s).mapM attributeHtml).flatten

theorem assignmentHtml_eq (name value : List Char) :
    assignmentHtml name value = .ok (Attribute.assignment name value) := by
  rw [assignmentHtml, escapeText_eq]
  rfl

theorem attributeHtml_eq (a : Attribute) : attributeHtml a = .ok a.html := by
  rw [attributeHtml, Attribute.html]
  split
  · rfl
  · cases a.value with
    | absent => rfl
    | literal text => exact assignmentHtml_eq _ _
    | expression text =>
      dsimp only
      split
      · cases inlineStyle? text with
        | none => rfl
        | some css => exact assignmentHtml_eq _ _
      · exact assignmentHtml_eq _ _

theorem attributesHtml_eq (s : List Char) : attributesHtml s = .ok (Markup.attributesHtml s) := by
  have hall : (Attribute.parse s).mapM attributeHtml =
      .ok ((Attribute.parse s).map Attribute.html) := by
    rw [funext attributeHtml_eq]
    exact List.mapM_pure
  simp only [attributesHtml, attributesOf_eq, ok_bind, hall, Markup.attributesHtml,
    List.flatMap_def]
  rfl

abbrev Rendering := Checked (Except Anomaly (List Char))

def emit (inner : List Char → Rendering) (depth : Nat) : Token → Rendering
  | .element name attributes content =>
    if maxDepth ≤ depth then return .error (.elementTooDeep name)
    else do
      let opening := '<' :: name ++ (← attributesHtml attributes) ++ ['>']
      match ← inner content with
      | .error anomaly => return .error anomaly
      | .ok html => return .ok (opening ++ html ++ if isVoid name then [] else closingTag name)
  | .fragment content =>
    if maxDepth ≤ depth then return .error .fragmentTooDeep
    else inner content
  | .container expression => return .ok (if isComment expression then [] else placeholder)
  | .text run => do
    match ← collapseRun run with
    | some text => return .ok (← escapeText text)
    | none => return .ok []

def renderTurn (inner : List Char → Rendering) (depth : Nat) (span : List Char)
    (state : Nat × List Char) :
    Checked (Turn (Nat × List Char) (Except Anomaly (List Char))) := do
  let (place, out) := state
  if place < width span then
    let (token, stop) ← tokenAt span place
    match ← emit inner depth token with
    | .ok html => return .next (stop, out ++ html)
    | .error anomaly => return .done (.error anomaly)
  else return .done (.ok out)

/-- Renders a text inside `depth` elements and fragments, with at most `levels` levels in it. -/
def renderSpan : (levels : Nat) → (depth : Nat) → (span : List Char) → Rendering
  | 0, _, _ => .error .endless
  | levels + 1, depth, span =>
    loop (renderTurn (renderSpan levels (depth + 1)) depth span) (width span + 1) (0, [])

def render (fragment : List Char) : Rendering :=
  renderSpan (width fragment + 1) 0 fragment

theorem width_content_lt {content rest s : List Char} (h : Token.Covers content rest s) :
    width content < width s := by
  obtain ⟨opening, closing, hne, rfl⟩ := h
  have hpos := width_pos hne
  simp only [width_append]
  omega

theorem width_rest_lt {content rest s : List Char} (h : Token.Covers content rest s) :
    width rest < width s := by
  obtain ⟨opening, closing, hne, happend⟩ := h
  exact width_lt_of_append happend (by simp [hne])

/-- A token is emitted as its node is, if its content is rendered as its nodes are. -/
theorem emit_eq {inner : List Char → Rendering} {depth : Nat} {t : Token}
    (h : inner t.content = .ok (htmlOfNodes (depth + 1) (Node.parse t.content))) :
    emit inner depth t = .ok ((t.node (Node.parse t.content)).html depth) := by
  cases t with
  | element name attributes content =>
    rw [Token.content] at h
    rw [emit, Token.node, Node.html, attributesHtml_eq, Token.content, h]
    split
    · rfl
    · cases htmlOfNodes (depth + 1) (Node.parse content) with
      | error anomaly => rfl
      | ok html =>
        have hopening : '<' :: name ++ Markup.attributesHtml attributes ++ ['>'] ++ html =
            '<' :: name ++ Markup.attributesHtml attributes ++ '>' :: html := by simp
        simp only [ok_bind, hopening]
        rfl
  | fragment content =>
    rw [emit, Token.node, Node.html]
    split
    · rfl
    · exact h
  | container expression => rfl
  | text run =>
    simp only [emit, collapseRun_eq, ok_bind, Token.node, Node.html]
    by_cases hnil : collapse run = []
    · rw [if_pos hnil, hnil]
      rfl
    · rw [if_neg hnil]
      simp only [escapeText_eq, ok_bind]
      rfl

section
variable {inner : List Char → Rendering} {depth : Nat} {s r : List Char}

theorem renderTurn_end (out : List Char) :
    renderTurn inner depth s (restPlace s [], out) = .ok (.done (.ok out)) := by
  simp [renderTurn]

variable (hinner : ∀ x, width x < width s →
  inner x = .ok (htmlOfNodes (depth + 1) (Node.parse x)))
include hinner

/-- One turn of the rendering takes one token. -/
theorem renderTurn_token (h : r <:+ s) {t : Token} {rest : List Char}
    (hr : Token.next? r = some (t, rest)) (out : List Char) :
    renderTurn inner depth s (restPlace s r, out) =
      .ok (match (t.node (Node.parse t.content)).html depth with
        | .ok html => .next (restPlace s rest, out ++ html)
        | .error anomaly => .done (.error anomaly)) := by
  have hcovers := Token.covers_of_next? hr
  have hlt : width t.content < width s :=
    Nat.lt_of_lt_of_le (width_content_lt hcovers) (width_le_of_isSuffix h)
  have hplace := restPlace_lt h hcovers.ne_nil
  simp only [renderTurn, if_pos hplace, tokenAt_eq h hr, ok_bind, emit_eq (hinner t.content hlt)]
  cases (t.node (Node.parse t.content)).html depth <;> rfl

/-- The tokens of a text are rendered one after the other, up to the first anomaly. -/
theorem renderTurn_yields (h : r <:+ s) (out : List Char) :
    Yields (renderTurn inner depth s) (width r) (restPlace s r, out)
      ((htmlOfNodes depth (Node.parse r)).map (out ++ ·)) := by
  fun_induction Node.parse r generalizing out with
  | case1 r hr =>
    obtain rfl := Token.next?_eq_none_iff.mp hr
    refine .of_done ?_
    rw [renderTurn_end]
    simp [htmlOfNodes, Except.map, pure, Except.pure]
  | case2 r t rest hr _ _ ih =>
    have hturn := renderTurn_token hinner h hr out
    have hcovers := Token.covers_of_next? hr
    rw [htmlOfNodes]
    cases hhtml : (t.node (Node.parse t.content)).html depth with
    | error anomaly =>
      rw [hhtml] at hturn
      exact .of_done hturn
    | ok html =>
      rw [hhtml] at hturn
      have hrest := ih (hcovers.isSuffix.trans h) (out ++ html)
      have hresult : (htmlOfNodes depth (Node.parse rest)).map (out ++ html ++ ·) =
          ((htmlOfNodes depth (Node.parse rest)).map (html ++ ·)).map (out ++ ·) := by
        cases htmlOfNodes depth (Node.parse rest) <;> simp [Except.map]
      rw [hresult] at hrest
      exact .of_next hturn hrest (width_rest_lt hcovers)

end

theorem renderSpan_eq {levels : Nat} {s : List Char} (h : width s < levels) (depth : Nat) :
    renderSpan levels depth s = .ok (htmlOfNodes depth (Node.parse s)) := by
  induction levels generalizing s depth with
  | zero => exact absurd h (Nat.not_lt_zero _)
  | succ levels ih =>
    have hinner : ∀ x, width x < width s →
        renderSpan levels (depth + 1) x = .ok (htmlOfNodes (depth + 1) (Node.parse x)) :=
      fun x hx => ih (Nat.lt_of_lt_of_le hx (Nat.le_of_lt_succ h)) (depth + 1)
    have hyields := renderTurn_yields hinner (List.suffix_refl s) []
    rw [restPlace_self] at hyields
    rw [renderSpan, hyields _ (Nat.lt_succ_self _)]
    cases htmlOfNodes depth (Node.parse s) <;> rfl

theorem render_eq (s : List Char) : render s = .ok (Markup.render s) :=
  renderSpan_eq (Nat.lt_succ_self _) 0

end StaticPreview.Place
