import StaticPreview.Markup.AttributeHtml
import StaticPreview.Markup.Node
import StaticPreview.Markup.TextRun

/-! # Rendering markup as HTML

Elements and fragments may be nested 256 deep. A container shows a placeholder in place of its
expression, and shows nothing when the expression is a comment.
-/
namespace StaticPreview.Markup

inductive Anomaly where
  | elementTooDeep (name : List Char)
  | fragmentTooDeep
  deriving DecidableEq, Repr

def maxDepth : Nat := 256

def Anomaly.message : Anomaly → List Char
  | elementTooDeep name =>
    "elements nested deeper than 256 levels at <".toList ++ name ++ ['>']
  | fragmentTooDeep => "fragments nested deeper than 256 levels".toList

def voidElements : List (List Char) :=
  ["area", "base", "br", "col", "embed", "hr", "img", "input", "link", "meta", "source", "track",
    "wbr"].map String.toList

def isVoid (name : List Char) : Bool :=
  voidElements.contains name

def placeholder : List Char :=
  ("<span class=\"sf-dynamic\" style=\"color: #9ca3af; font-style: italic\">" ++
    "[dynamic]</span>").toList

/-- An expression that begins a comment and ends one. -/
def isComment (expression : List Char) : Bool :=
  let s := Text.trim expression
  ['/', '*'].isPrefixOf s && ['*', '/'].isSuffixOf s

mutual

def Node.html (depth : Nat) : Node → Except Anomaly (List Char)
  | .element name attributes children =>
    if maxDepth ≤ depth then .error (.elementTooDeep name)
    else do
      let inner ← htmlOfNodes (depth + 1) children
      return '<' :: name ++ attributesHtml attributes ++ '>' :: inner ++
        (if isVoid name then [] else closingTag name)
  | .fragment children =>
    if maxDepth ≤ depth then .error .fragmentTooDeep
    else htmlOfNodes (depth + 1) children
  | .container expression => return if isComment expression then [] else placeholder
  | .text run => return Html.escape (collapse run)

/-- The HTML of consecutive nodes; the first anomaly in the order of the text ends it. -/
def htmlOfNodes (depth : Nat) : List Node → Except Anomaly (List Char)
  | [] => return []
  | node :: more => do
    let first ← node.html depth
    let rest ← htmlOfNodes depth more
    return first ++ rest

end

/-- An element has HTML if it is not nested too deep and all inside of it has HTML. -/
theorem Node.html_element_eq_ok_iff {name attributes out : List Char} {children : List Node}
    {depth : Nat} : (Node.element name attributes children).html depth = .ok out ↔
      depth < maxDepth ∧ ∃ inner, htmlOfNodes (depth + 1) children = .ok inner ∧
        out = '<' :: name ++ attributesHtml attributes ++ '>' :: inner ++
          (if isVoid name then [] else closingTag name) := by
  rw [Node.html]
  split
  next h => simp [Nat.not_lt.mpr h]
  next h =>
    cases htmlOfNodes (depth + 1) children with
    | error e => simp [bind, Except.bind]
    | ok inner =>
      constructor
      · intro hout
        exact ⟨Nat.not_le.mp h, inner, rfl, (Except.ok.inj hout).symm⟩
      · rintro ⟨-, _, hinner, rfl⟩
        obtain rfl := Except.ok.inj hinner
        rfl

theorem Node.html_fragment_eq_ok_iff {out : List Char} {children : List Node} {depth : Nat} :
    (Node.fragment children).html depth = .ok out ↔
      depth < maxDepth ∧ htmlOfNodes (depth + 1) children = .ok out := by
  rw [Node.html]
  split
  next h => simp [Nat.not_lt.mpr h]
  next h => simp [Nat.not_le.mp h]

theorem Node.html_container_eq_ok_iff {expression out : List Char} {depth : Nat} :
    (Node.container expression).html depth = .ok out ↔
      out = if isComment expression then [] else placeholder := by
  rw [Node.html]
  exact ⟨fun h => (Except.ok.inj h).symm, fun h => congrArg Except.ok h.symm⟩

theorem Node.html_text_eq_ok_iff {run out : List Char} {depth : Nat} :
    (Node.text run).html depth = .ok out ↔ out = Html.escape (collapse run) := by
  rw [Node.html]
  exact ⟨fun h => (Except.ok.inj h).symm, fun h => congrArg Except.ok h.symm⟩

/-- Consecutive nodes have HTML if each of them has, and it is written side by side. -/
theorem htmlOfNodes_cons_eq_ok_iff {depth : Nat} {node : Node} {more : List Node}
    {out : List Char} : htmlOfNodes depth (node :: more) = .ok out ↔
      ∃ first rest, node.html depth = .ok first ∧ htmlOfNodes depth more = .ok rest ∧
        out = first ++ rest := by
  rw [htmlOfNodes]
  cases node.html depth with
  | error e => simp [bind, Except.bind]
  | ok first =>
    cases htmlOfNodes depth more with
    | error e => simp [bind, Except.bind]
    | ok rest => simp [bind, Except.bind, pure, Except.pure, eq_comm]

def render (s : List Char) : Except Anomaly (List Char) :=
  htmlOfNodes 0 (Node.parse s)

end StaticPreview.Markup
