import Mathlib.Data.List.Basic
import StaticPreview.Proofs.Html.Texts
import StaticPreview.Proofs.Markup.Balanced

/-! # Event handlers

A browser takes an attribute for an event handler by the first two letters of its name, whether they
are capitals or not. A name that is written with two small letters is left out of the HTML; with a
capital among them it stays.
-/
namespace StaticPreview
open Markup Text

namespace Html

def isHandlerName (name : List Char) : Bool :=
  ['o', 'n'].isPrefixOf name

def Tag.handlers : Tag → List (List Char)
  | opening _ attributes => (attributes.map Prod.fst).filter isHandlerName
  | _ => []

/-- The names of the event handlers in the tags of a text. -/
def handlers (s : List Char) : List (List Char) :=
  (tags s).flatMap Tag.handlers

structure HasHandlers (s : List Char) (names : List (List Char)) : Prop where
  whole : Whole s
  handlers : handlers s = names

theorem HasHandlers.append {a b : List Char} {names more : List (List Char)}
    (ha : HasHandlers a names) (hb : HasHandlers b more) :
    HasHandlers (a ++ b) (names ++ more) := by
  refine ⟨ha.whole.append hb.whole, ?_⟩
  rw [← ha.handlers, ← hb.handlers, Html.handlers, tags_append ha.whole, List.flatMap_append]
  rfl

theorem Tagged.hasHandlers {s : List Char} {ts : List Tag} (h : Tagged s ts) :
    HasHandlers s (ts.flatMap Tag.handlers) :=
  ⟨h.whole, by rw [handlers, h.tags]⟩

theorem hasHandlers_nil : HasHandlers [] [] :=
  (tagged_plain (by simp)).hasHandlers

theorem hasHandlers_opening {name : List Char} (hname : IsName name) {as : List SpelledAttribute}
    (has : ∀ a ∈ as, a.WellFormed) :
    HasHandlers (openingText name as) ((as.map fun a => small a.name).filter isHandlerName) := by
  have h := (tagged_opening hname has).hasHandlers
  rw [List.flatMap_singleton, Tag.handlers, List.map_map] at h
  exact h

theorem hasHandlers_closing {name : List Char} (hname : IsName name) :
    HasHandlers (closingText name) [] :=
  (tagged_closing hname).hasHandlers

theorem hasHandlers_escape (s : List Char) : HasHandlers (escape s) [] :=
  (tagged_plain (ne_of_mem_escape rfl)).hasHandlers

theorem hasHandlers_literal {s : List Char} (h : Item.char '<' ∉ read s ∧ handlers s = []) :
    HasHandlers (String.ofList s).toList [] := by
  rw [String.toList_ofList]
  exact ⟨whole_of_read h.1, h.2⟩

end Html

namespace Markup

def Attribute.emitted? (a : Attribute) : Option Html.SpelledAttribute :=
  if a.isHandler then none
  else
    match a.value with
    | .absent => some ⟨a.name, none⟩
    | .literal text => some ⟨htmlName a.name, some (Html.escape text)⟩
    | .expression text =>
      if a.name = "style".toList ∧ isObject text then
        (inlineStyle? text).map fun css => ⟨"style".toList, some (Html.escape css)⟩
      else some ⟨htmlName a.name, some (Html.escape text)⟩

theorem Attribute.html_eq (a : Attribute) :
    a.html = a.emitted?.toList.flatMap Html.SpelledAttribute.written := by
  have hassignment (name value : List Char) : Attribute.assignment name value =
      Html.SpelledAttribute.written ⟨name, some (Html.escape value)⟩ := by
    simp [Attribute.assignment, Html.SpelledAttribute.written]
  rw [Attribute.html, Attribute.emitted?]
  split
  · rfl
  · cases a.value with
    | absent => simp [Html.SpelledAttribute.written]
    | literal text => simp [hassignment]
    | expression text =>
      dsimp only
      split
      · cases inlineStyle? text with
        | none => rfl
        | some css => simp [hassignment]
      · simp [hassignment]

def emitted (s : List Char) : List Html.SpelledAttribute :=
  (Attribute.parse s).filterMap Attribute.emitted?

/-- The HTML of attributes spells the attributes that are emitted, and so a browser reads these. -/
theorem attributesHtml_eq (s : List Char) :
    attributesHtml s = (emitted s).flatMap Html.SpelledAttribute.written := by
  rw [attributesHtml, emitted, List.filterMap_eq_flatMap_toList, List.flatMap_assoc]
  exact congrArg (fun f => List.flatMap f _) (funext Attribute.html_eq)

theorem not_isAsciiBlank_of_isNameChar {c : Char} (h : Attribute.isNameChar c) :
    isAsciiBlank c = false := by
  have hblank := not_isBlank_of_isNameChar h
  rw [← Bool.not_eq_true] at hblank ⊢
  exact mt isBlank_of_isAsciiBlank hblank

theorem IsAttributeName.not_endsAttributeName {name : List Char} (h : IsAttributeName name) :
    ∀ c ∈ name, Html.endsAttributeName c = false := by
  intro c hc
  have hchar := h.isNameChar c hc
  have hblank := not_isAsciiBlank_of_isNameChar hchar
  have hne : ∀ d, Attribute.isNameChar d = false → c ≠ d := fun d hd => ne_of_isNameChar hchar hd
  simp [Html.endsAttributeName, Html.endsTagName, hblank, hne '/' (by decide),
    hne '>' (by decide), hne '=' (by decide)]

theorem wellFormed_bare {name : List Char} (h : IsAttributeName name) :
    Html.SpelledAttribute.WellFormed ⟨name, none⟩ :=
  ⟨h.ne_nil, h.not_endsAttributeName, by simp⟩

theorem wellFormed_escape {name : List Char} (h : IsAttributeName name) (text : List Char) :
    Html.SpelledAttribute.WellFormed ⟨name, some (Html.escape text)⟩ := by
  refine ⟨h.ne_nil, h.not_endsAttributeName, ?_⟩
  rintro value ⟨rfl⟩
  exact Html.ne_of_mem_escape rfl

theorem wellFormed_of_emitted? {a : Attribute} (ha : IsAttributeName a.name)
    {e : Html.SpelledAttribute} (h : a.emitted? = some e) : e.WellFormed := by
  rw [Attribute.emitted?] at h
  split at h
  · cases h
  · split at h
    next =>
      obtain rfl := Option.some.inj h
      exact wellFormed_bare ha
    next text _ =>
      obtain rfl := Option.some.inj h
      exact wellFormed_escape ha.htmlName text
    next text _ =>
      split at h
      · obtain ⟨css, -, rfl⟩ := Option.map_eq_some_iff.mp h
        exact wellFormed_escape (by decide) css
      · obtain rfl := Option.some.inj h
        exact wellFormed_escape ha.htmlName text

theorem wellFormed_of_mem_emitted {s : List Char} : ∀ e ∈ emitted s, e.WellFormed := by
  intro e he
  obtain ⟨a, ha, hemitted⟩ := List.mem_filterMap.mp he
  exact wellFormed_of_emitted? (isAttributeName_of_mem_parse ha) hemitted

/-- Whether an attribute is an event handler for a browser, and not by the way it is written. -/
def Attribute.isMissed (a : Attribute) : Bool :=
  Html.isHandlerName (Html.small a.name) && !a.isHandler

/-- The names of the event handlers that stay, in small letters. -/
def missed (as : List Attribute) : List (List Char) :=
  (as.filter Attribute.isMissed).map fun a => Html.small a.name

theorem not_isHandlerName_htmlName {name : List Char} (h : htmlName name ≠ name) :
    Html.isHandlerName (Html.small name) = false ∧
      Html.isHandlerName (Html.small (htmlName name)) = false := by
  rw [htmlName] at h ⊢
  split at h
  next hclass =>
    subst hclass
    exact ⟨by decide, by decide⟩
  next hclass =>
    split at h
    next hfor =>
      subst hfor
      exact ⟨by decide, by decide⟩
    next => exact absurd rfl h

theorem emitted?_cases (a : Attribute) :
    (a.emitted? = none ∧ a.isMissed = false) ∨
      ∃ e, a.emitted? = some e ∧ a.isHandler = false ∧
        (e.name = a.name ∨ e.name = htmlName a.name) := by
  rw [Attribute.emitted?]
  cases hhandler : a.isHandler with
  | true => exact .inl ⟨rfl, by simp [Attribute.isMissed, hhandler]⟩
  | false =>
    rw [if_neg (by simp)]
    cases a.value with
    | absent => exact .inr ⟨_, rfl, rfl, .inl rfl⟩
    | literal text => exact .inr ⟨_, rfl, rfl, .inr rfl⟩
    | expression text =>
      dsimp only
      split
      next hstyle =>
        cases inlineStyle? text with
        | none =>
          refine .inl ⟨rfl, ?_⟩
          have hname : Html.isHandlerName (Html.small "style".toList) = false := by decide
          rw [Attribute.isMissed, hstyle.1, hname, Bool.false_and]
        | some css => exact .inr ⟨_, rfl, rfl, .inl hstyle.1.symm⟩
      next => exact .inr ⟨_, rfl, rfl, .inr rfl⟩

theorem filter_emitted? (a : Attribute) :
    (a.emitted?.toList.map fun e => Html.small e.name).filter Html.isHandlerName =
      missed [a] := by
  rcases emitted?_cases a with ⟨hnone, hmissed⟩ | ⟨e, he, hhandler, hname⟩
  · simp [hnone, missed, hmissed]
  · have hsame : Html.isHandlerName (Html.small e.name) = Html.isHandlerName (Html.small a.name) ∧
        (Html.isHandlerName (Html.small a.name) → e.name = a.name) := by
      rcases hname with hname | hname
      · rw [hname]
        exact ⟨rfl, fun _ => rfl⟩
      · rw [hname]
        by_cases heq : htmlName a.name = a.name
        · rw [heq]
          exact ⟨rfl, fun _ => rfl⟩
        · obtain ⟨hbefore, hafter⟩ := not_isHandlerName_htmlName heq
          exact ⟨hafter.trans hbefore.symm, fun h => absurd h (by simp [hbefore])⟩
    rw [he, missed]
    cases hkind : Html.isHandlerName (Html.small a.name) with
    | true => simp [Attribute.isMissed, hhandler, hsame.2 hkind, hkind]
    | false => simp [Attribute.isMissed, hsame.1, hkind]

theorem missed_append (as bs : List Attribute) : missed (as ++ bs) = missed as ++ missed bs := by
  rw [missed, List.filter_append, List.map_append]
  rfl

theorem filter_emitted (s : List Char) :
    ((emitted s).map fun e => Html.small e.name).filter Html.isHandlerName =
      missed (Attribute.parse s) := by
  rw [emitted]
  induction Attribute.parse s with
  | nil => rfl
  | cons a more ih =>
    have hone : [a].filterMap Attribute.emitted? = a.emitted?.toList := by
      cases h : a.emitted? <;> simp [h]
    rw [← List.singleton_append, List.filterMap_append, List.map_append, List.filter_append, ih,
      missed_append, ← filter_emitted? a, hone]

mutual

def Node.attributes : Node → List Attribute
  | .element _ attributes children => Attribute.parse attributes ++ attributesOfNodes children
  | .fragment children => attributesOfNodes children
  | .container _ => []
  | .text _ => []

def attributesOfNodes : List Node → List Attribute
  | [] => []
  | node :: more => node.attributes ++ attributesOfNodes more

end

theorem IsTagName.isName {name : List Char} (h : IsTagName name) : Html.IsName name := by
  cases name with
  | nil => exact h.elim
  | cons c r =>
    refine ⟨h.1, fun d hd => ?_⟩
    have hchar := isNameChar_attribute (h.2 d hd)
    simp [Html.endsTagName, not_isAsciiBlank_of_isNameChar hchar,
      ne_of_isNameChar hchar (d := '/') (by decide), ne_of_isNameChar hchar (d := '>') (by decide)]

theorem hasHandlers_placeholder : Html.HasHandlers placeholder [] := by
  unfold placeholder
  rw [String.toList_append]
  exact (Html.hasHandlers_literal (by decide +kernel)).append
    (Html.hasHandlers_literal (by decide +kernel))

theorem hasHandlers_element {name inner : List Char} (hname : IsTagName name)
    (attributes : List Char) {names : List (List Char)} (hinner : Html.HasHandlers inner names) :
    Html.HasHandlers ('<' :: name ++ attributesHtml attributes ++ '>' :: inner ++
        (if isVoid name then [] else closingTag name))
      (missed (Attribute.parse attributes) ++ names) := by
  have hopening : Html.HasHandlers (Html.openingText name (emitted attributes))
      (missed (Attribute.parse attributes)) := by
    rw [← filter_emitted]
    exact Html.hasHandlers_opening hname.isName wellFormed_of_mem_emitted
  have hclosing : Html.HasHandlers (if isVoid name then [] else closingTag name) [] := by
    split
    · exact Html.hasHandlers_nil
    · exact Html.hasHandlers_closing hname.isName
  have hout : '<' :: name ++ attributesHtml attributes ++ '>' :: inner ++
      (if isVoid name then [] else closingTag name) =
      Html.openingText name (emitted attributes) ++
        (inner ++ if isVoid name then [] else closingTag name) := by
    simp [Html.openingText, attributesHtml_eq]
  have hall := hopening.append (hinner.append hclosing)
  rwa [List.append_nil, ← hout] at hall

/-- A node leaves the event handlers that are missed in it and in all inside of it. -/
theorem Token.hasHandlers_html {t : Token} (ht : t.Named) {children : List Node} {depth : Nat}
    {out : List Char}
    (hchildren : ∀ inner, htmlOfNodes (depth + 1) children = .ok inner →
      Html.HasHandlers inner (missed (attributesOfNodes children)))
    (h : (t.node children).html depth = .ok out) :
    Html.HasHandlers out (missed (t.node children).attributes) := by
  cases t with
  | element name attributes content =>
    obtain ⟨-, inner, hinner, rfl⟩ := Node.html_element_eq_ok_iff.mp h
    rw [Token.node, Node.attributes, missed_append]
    exact hasHandlers_element ht attributes (hchildren inner hinner)
  | fragment content => exact hchildren out (Node.html_fragment_eq_ok_iff.mp h).2
  | container expression =>
    obtain rfl := Node.html_container_eq_ok_iff.mp h
    split
    · exact Html.hasHandlers_nil
    · exact hasHandlers_placeholder
  | text run =>
    obtain rfl := Node.html_text_eq_ok_iff.mp h
    exact Html.hasHandlers_escape _

/-- The event handlers in what is rendered are those that are missed in the markup. -/
theorem hasHandlers_of_htmlOfNodes_parse {s : List Char} {depth : Nat} {out : List Char}
    (h : htmlOfNodes depth (Node.parse s) = .ok out) :
    Html.HasHandlers out (missed (attributesOfNodes (Node.parse s))) := by
  refine rendered_induction (P := fun nodes out =>
    Html.HasHandlers out (missed (attributesOfNodes nodes))) Html.hasHandlers_nil ?_ h
  intro t children depth first more rest ht _ hchildren hfirst hmore
  have hall := (Token.hasHandlers_html ht hchildren hfirst).append hmore
  rwa [← missed_append] at hall

end Markup
end StaticPreview
