import StaticPreview.Conversion
import StaticPreview.Proofs.Html.Safe
import StaticPreview.Proofs.Markup.Reading

/-! # Balanced HTML

A text is balanced when it is a sequence of safe text runs, void elements, and elements whose
closing tag follows their balanced content. Whatever source is shown, what stands at the root of
its document is balanced: the rendered markup as well as either notice.
-/
namespace StaticPreview.Markup

inductive SafeAttributes : List Char → Prop
  | nil : SafeAttributes []
  | bare {name rest : List Char} (hname : IsAttributeName name) (hrest : SafeAttributes rest) :
      SafeAttributes (' ' :: name ++ rest)
  | assigned {name value rest : List Char} (hname : IsAttributeName name)
      (hvalue : Html.Safe value) (hrest : SafeAttributes rest) :
      SafeAttributes (' ' :: name ++ '=' :: '"' :: value ++ '"' :: rest)

def openingTag (name attributes : List Char) : List Char :=
  '<' :: name ++ attributes ++ ['>']

inductive Balanced : List Char → Prop
  | nil : Balanced []
  | text {run rest : List Char} (hrun : Html.Safe run) (hrest : Balanced rest) :
      Balanced (run ++ rest)
  | void {name attributes rest : List Char} (hname : isVoid name)
      (hattributes : SafeAttributes attributes) (hrest : Balanced rest) :
      Balanced (openingTag name attributes ++ rest)
  | element {name attributes inner rest : List Char} (hname : IsTagName name)
      (hvoid : isVoid name = false) (hattributes : SafeAttributes attributes)
      (hinner : Balanced inner) (hrest : Balanced rest) :
      Balanced (openingTag name attributes ++ inner ++ closingTag name ++ rest)

theorem SafeAttributes.append {a b : List Char} (ha : SafeAttributes a) (hb : SafeAttributes b) :
    SafeAttributes (a ++ b) := by
  induction ha with
  | nil => exact hb
  | bare hname _ ih => simpa using SafeAttributes.bare hname ih
  | assigned hname hvalue _ ih => simpa using SafeAttributes.assigned hname hvalue ih

theorem Balanced.append {a b : List Char} (ha : Balanced a) (hb : Balanced b) :
    Balanced (a ++ b) := by
  induction ha with
  | nil => exact hb
  | text hrun _ ih => simpa using Balanced.text hrun ih
  | void hname hattributes _ ih => simpa using Balanced.void hname hattributes ih
  | element hname hvoid hattributes hinner _ _ ih =>
    simpa using Balanced.element hname hvoid hattributes hinner ih

theorem Balanced.of_safe {s : List Char} (hs : Html.Safe s) : Balanced s := by
  simpa using Balanced.text hs .nil

def Encloses (a b : List Char) : Prop :=
  ∀ inner, Balanced inner → Balanced (a ++ inner ++ b)

theorem Encloses.comp {a b c d : List Char} (hab : Encloses a b) (hcd : Encloses c d) :
    Encloses (a ++ c) (d ++ b) := by
  intro inner hinner
  simpa using hab _ (hcd inner hinner)

theorem Encloses.congr {a b c d : List Char} (h : Encloses a b) (hc : c = a) (hd : d = b) :
    Encloses c d := hc ▸ hd ▸ h

/-- Two enclosed texts, one behind the other, inside an enclosure. -/
theorem Encloses.both {o k a b c d : List Char} (hok : Encloses o k) (hab : Encloses a b)
    (hcd : Encloses c d) {l m r : List Char} (hl : l = o ++ a) (hm : m = b ++ c) (hr : r = d ++ k)
    {s t : List Char} (hs : Balanced s) (ht : Balanced t) :
    Balanced (l ++ s ++ m ++ t ++ r) := by
  subst hl hm hr
  simpa using hok _ ((hab s hs).append (hcd t ht))

theorem Balanced.encloses {a b : List Char} (ha : Balanced a) (hb : Balanced b) :
    Encloses a b := fun _ hinner => (ha.append hinner).append hb

theorem encloses_tags (name attributes : List Char) (hname : IsTagName name ∧ isVoid name = false)
    (hattributes : SafeAttributes attributes) :
    Encloses (openingTag name attributes) (closingTag name) := by
  intro inner hinner
  simpa using Balanced.element hname.1 hname.2 hattributes hinner .nil

theorem safeAttributes_assignment {name : List Char} (hname : IsAttributeName name)
    (value : List Char) : SafeAttributes (Attribute.assignment name value) :=
  .assigned hname (Html.safe_escape value) .nil

theorem IsAttributeName.htmlName {name : List Char} (h : IsAttributeName name) :
    IsAttributeName (htmlName name) := by
  unfold Markup.htmlName
  split
  · decide
  · split
    · decide
    · exact h

theorem safeAttributes_html {a : Attribute} (ha : IsAttributeName a.name) :
    SafeAttributes a.html := by
  unfold Attribute.html
  split
  · exact .nil
  · split
    next => simpa using SafeAttributes.bare ha .nil
    next text _ => exact safeAttributes_assignment ha.htmlName text
    next text _ =>
      split
      next hstyle =>
        cases inlineStyle? text with
        | none => exact .nil
        | some css => exact safeAttributes_assignment (hstyle.1 ▸ ha) css
      next => exact safeAttributes_assignment ha.htmlName text

theorem safeAttributes_attributesHtml (s : List Char) : SafeAttributes (attributesHtml s) := by
  have hall : ∀ a ∈ Attribute.parse s, IsAttributeName a.name := fun a ha =>
    isAttributeName_of_mem_parse ha
  unfold attributesHtml
  generalize Attribute.parse s = attributes at hall
  induction attributes with
  | nil => exact .nil
  | cons a more ih =>
    rw [List.flatMap_cons]
    exact (safeAttributes_html (hall a List.mem_cons_self)).append
      (ih fun b hb => hall b (List.mem_cons_of_mem a hb))

set_option maxRecDepth 4096 in
theorem balanced_placeholder : Balanced placeholder := by
  have hclass : IsAttributeName "class".toList := by decide
  have hstyle : IsAttributeName "style".toList := by decide
  have hopening :
      "<span class=\"sf-dynamic\" style=\"color: #9ca3af; font-style: italic\">".toList =
        openingTag "span".toList (Attribute.assignment "class".toList "sf-dynamic".toList ++
          Attribute.assignment "style".toList "color: #9ca3af; font-style: italic".toList) :=
    Text.toList_literal rfl
  have hclosing : "[dynamic]</span>".toList = "[dynamic]".toList ++ closingTag "span".toList := rfl
  unfold placeholder
  rw [String.toList_append, hopening, hclosing, ← List.append_assoc]
  exact encloses_tags "span".toList _ (by decide)
    ((safeAttributes_assignment hclass _).append (safeAttributes_assignment hstyle _))
    "[dynamic]".toList (.of_safe (by decide))

/-- An element around balanced markup is balanced, also when it is void and has no closing tag. -/
theorem balanced_html_element {name attributes inner : List Char} (hname : IsTagName name)
    (hinner : Balanced inner) :
    Balanced ('<' :: name ++ attributesHtml attributes ++ '>' :: inner ++
      (if isVoid name then [] else closingTag name)) := by
  have hattributes := safeAttributes_attributesHtml attributes
  cases hvoid : isVoid name with
  | true => simpa [openingTag] using Balanced.void hvoid hattributes hinner
  | false => simpa [openingTag] using encloses_tags name _ ⟨hname, hvoid⟩ hattributes inner hinner

/-- The HTML of a node is balanced if that of all inside of it is. -/
theorem Token.balanced_of_html_node {t : Token} (ht : t.Named) {children : List Node} {depth : Nat}
    {out : List Char}
    (hchildren : ∀ inner, htmlOfNodes (depth + 1) children = .ok inner → Balanced inner)
    (h : (t.node children).html depth = .ok out) : Balanced out := by
  cases t with
  | element name attributes content =>
    obtain ⟨-, inner, hinner, rfl⟩ := Node.html_element_eq_ok_iff.mp h
    exact balanced_html_element ht (hchildren inner hinner)
  | fragment content => exact hchildren out (Node.html_fragment_eq_ok_iff.mp h).2
  | container expression =>
    rw [Token.node, Node.html] at h
    obtain rfl := Except.ok.inj h
    split
    · exact .nil
    · exact balanced_placeholder
  | text run =>
    rw [Token.node, Node.html] at h
    obtain rfl := Except.ok.inj h
    exact .of_safe (Html.safe_escape _)

/-- What is rendered of a text inside any number of elements is balanced. -/
theorem balanced_of_htmlOfNodes_parse {s : List Char} {depth : Nat} {out : List Char}
    (h : htmlOfNodes depth (Node.parse s) = .ok out) : Balanced out := by
  refine rendered_induction (P := fun _ out => Balanced out) .nil ?_ h
  intro t children depth first more rest ht _ hchildren hfirst hmore
  exact (Token.balanced_of_html_node ht hchildren hfirst).append hmore

end StaticPreview.Markup
