import StaticPreview.Proofs.Markup.Forest
import StaticPreview.Proofs.Markup.Token

/-! # Recovering the tree of well-formed markup

Reading a well-formed forest gives back its nodes, and goes on with whatever follows it. Its HTML
is therefore that of the same tree, and it fails only where the forest is too deep or what follows
fails.
-/
namespace StaticPreview.Markup
open Text

namespace Forest

def nodes : Forest → List Node
  | nil => []
  | text run more => .text run :: more.nodes
  | container expression more => .container expression :: more.nodes
  | fragment inner more => .fragment inner.nodes :: more.nodes
  | element tag inner more => .element tag.name tag.attributeText inner.nodes :: more.nodes
  | closed tag more => .element tag.name tag.attributeText [] :: more.nodes

def height : Forest → Nat
  | nil => 0
  | text _ more => more.height
  | container _ more => more.height
  | fragment inner more => max (inner.height + 1) more.height
  | element _ inner more => max (inner.height + 1) more.height
  | closed _ more => max 1 more.height

def openingHtml (tag : WrittenTag) : List Char :=
  '<' :: tag.name ++ attributesHtml tag.attributeText ++ ['>']

def html : Forest → List Char
  | nil => []
  | text run more => Html.escape (collapse run) ++ more.html
  | container expression more =>
    (if isComment expression then [] else placeholder) ++ more.html
  | fragment inner more => inner.html ++ more.html
  | element tag inner more =>
    openingHtml tag ++ inner.html ++ closingTag tag.name ++ more.html
  | closed tag more =>
    openingHtml tag ++ (if isVoid tag.name then [] else closingTag tag.name) ++ more.html

def EndsInText : Forest → Prop
  | nil => False
  | text _ nil => True
  | text _ more => more.EndsInText
  | container _ more => more.EndsInText
  | fragment _ more => more.EndsInText
  | element _ _ more => more.EndsInText
  | closed _ more => more.EndsInText

end Forest

def StopsText (s : List Char) : Prop :=
  ∀ c ∈ s.head?, c = '<' ∨ c = '\x7b'

namespace Token

theorem next?_text {run : List Char} (hne : run ≠ [])
    (hrun : ∀ c ∈ run, c ≠ '<' ∧ c ≠ '\x7b') {s : List Char} (hs : StopsText s) :
    next? (run ++ s) = some (text run, s) := by
  cases run with
  | nil => exact absurd rfl hne
  | cons c r =>
    obtain ⟨hopen, hbrace⟩ := hrun c List.mem_cons_self
    have hplain : ∀ d ∈ r, (d != '<' && d != '\x7b') = true := by
      intro d hd
      simpa using hrun d (List.mem_cons_of_mem c hd)
    have hnext : next? (c :: (r ++ s)) = some (textFrom c (r ++ s)) := by
      unfold next?
      split <;> simp_all
    rw [List.cons_append, hnext, textFrom, List.takeWhile_append_of_pos hplain,
      List.dropWhile_append_of_pos hplain]
    cases s with
    | nil => simp
    | cons d t => rcases hs d rfl with rfl | rfl <;> simp

theorem content?_append {name inner : List Char} (hinner : Passes name inner) (s : List Char) :
    content? name (inner ++ closingTag name ++ s) = some (inner, s) := by
  rw [content?, List.append_assoc, hinner, readContent?_closing]
  simp

theorem next?_fragment {inner : List Char} (hinner : Passes [] inner) (s : List Char) :
    next? ('<' :: '>' :: inner ++ closingTag [] ++ s) = some (fragment inner, s) := by
  have h := content?_append hinner s
  simp only [List.cons_append] at h ⊢
  rw [next?, h]

theorem next?_of_element? {s rest : List Char} {t : Token} (h : element? s = some (t, rest)) :
    next? ('<' :: s) = some (t, rest) := by
  cases s with
  | nil => simp [element?, tagName?] at h
  | cons c r =>
    have hc : c ≠ '>' := by
      rintro rfl
      have hname : tagName? ('>' :: r) = none := rfl
      simp [element?, hname] at h
    simp [next?, hc, h]

/-- The element of a well-formed tag ends at its own closing tag. -/
theorem element?_open {t : WrittenTag} (ht : t.WellFormed) {inner : List Char}
    (hinner : Passes t.name inner) (s : List Char) :
    element? (t.body ++ '>' :: inner ++ closingTag t.name ++ s) =
      some (element t.name t.attributeText inner, s) := by
  have hassoc : t.body ++ '>' :: inner ++ closingTag t.name ++ s =
      t.body ++ '>' :: (inner ++ closingTag t.name ++ s) := by simp
  have hname : tagName? (t.body ++ '>' :: (inner ++ closingTag t.name ++ s)) = some t.name := by
    rw [WrittenTag.body, List.append_assoc]
    exact tagName?_append ht.isTagName (ht.endsName (.inl rfl) _)
  rw [hassoc, element?_of_content? hname (ht.inTag_body.tagBody?_close _) ht.selfCloses_body
    (content?_append hinner s), WrittenTag.body, List.drop_left]

theorem element?_closed {t : WrittenTag} (ht : t.WellFormed) (s : List Char) :
    element? (t.body ++ '/' :: '>' :: s) = some (element t.name t.attributeText [], s) := by
  have hassoc : t.body ++ '/' :: '>' :: s = t.body ++ ['/'] ++ '>' :: s := by simp
  have hname : tagName? (t.body ++ '/' :: '>' :: s) = some t.name := by
    rw [WrittenTag.body, List.append_assoc]
    exact tagName?_append ht.isTagName (ht.endsName (.inr rfl) _)
  rw [hassoc] at hname ⊢
  rw [element?_of_selfCloses hname (ht.isTag_slash.inTag.tagBody?_close s) (selfCloses_slash _),
    openBody_slash, WrittenTag.body, List.drop_left]

end Token

namespace Forest

theorem stopsText_written {t : Forest} (ht : t.WellFormed) (hbegin : ¬t.BeginsInText)
    {b : List Char} (hb : t = nil → StopsText b) : StopsText (t.written ++ b) := by
  cases t with
  | nil => exact hb rfl
  | text run more => exact absurd trivial hbegin
  | container expression more =>
    rintro c ⟨rfl⟩
    exact .inr rfl
  | fragment inner more =>
    rintro c ⟨rfl⟩
    exact .inl rfl
  | element tag inner more =>
    rintro c ⟨rfl⟩
    exact .inl rfl
  | closed tag more =>
    rintro c ⟨rfl⟩
    exact .inl rfl

/-- Reading a well-formed forest gives its nodes and goes on with what follows. The induction is
on the forest: the content of each element is a forest again, with nothing behind it. -/
theorem parse_written_append {t : Forest} (ht : t.WellFormed) {b : List Char}
    (hb : t.EndsInText → StopsText b) :
    Node.parse (t.written ++ b) = t.nodes ++ Node.parse b := by
  have hnil : StopsText [] := fun c hc => by simp at hc
  induction t generalizing b with
  | nil => rfl
  | text run more ih =>
    obtain ⟨⟨hne, hrun⟩, hbegin, hmore⟩ := ht
    have hends : more.EndsInText → StopsText b := by
      intro hends
      cases more <;> first | exact hends.elim | exact hb hends
    have hstop := stopsText_written hmore hbegin fun hmore => hb (by subst hmore; trivial)
    rw [written, List.append_assoc, Node.parse_of_next? (Token.next?_text hne hrun hstop),
      ih hmore hends]
    rfl
  | container expression more ih =>
    obtain ⟨hexpression, hmore⟩ := ht
    have hnext := Token.next?_container (fun c hc => (hexpression c hc).1) (more.written ++ b)
    have hassoc : (container expression more).written ++ b =
        '\x7b' :: expression ++ '\x7d' :: (more.written ++ b) := by simp [written]
    rw [hassoc, Node.parse_of_next? hnext, ih hmore hb]
    rfl
  | fragment inner more ihinner ih =>
    obtain ⟨hinner, hmore⟩ := ht
    have hnext := Token.next?_fragment (hinner.passes (.inl rfl)) (more.written ++ b)
    have hparse := ihinner hinner fun _ => hnil
    simp only [List.append_nil, Node.parse_nil] at hparse
    rw [written, List.append_assoc, Node.parse_of_next? hnext, ih hmore hb, Token.content, hparse]
    rfl
  | element t inner more ihinner ih =>
    obtain ⟨⟨ht, -⟩, hinner, hmore⟩ := ht
    have hnext := Token.next?_of_element? <| Token.element?_open ht
      (hinner.passes (.inr ht.isTagName)) (more.written ++ b)
    have hassoc : (element t inner more).written ++ b =
        '<' :: (t.body ++ '>' :: inner.written ++ closingTag t.name ++ (more.written ++ b)) := by
      simp [written]
    have hparse := ihinner hinner fun _ => hnil
    simp only [List.append_nil, Node.parse_nil] at hparse
    rw [hassoc, Node.parse_of_next? hnext, ih hmore hb, Token.content, hparse]
    rfl
  | closed t more ih =>
    obtain ⟨ht, hmore⟩ := ht
    have hnext := Token.next?_of_element? (Token.element?_closed ht (more.written ++ b))
    have hassoc : (closed t more).written ++ b =
        '<' :: (t.body ++ '/' :: '>' :: (more.written ++ b)) := by simp [written]
    rw [hassoc, Node.parse_of_next? hnext, ih hmore hb, Token.content, Node.parse_nil]
    rfl

/-- Whether nodes nested `height` deep can stand inside `depth` elements and fragments. -/
def Fits (depth height : Nat) : Prop :=
  height = 0 ∨ depth + height ≤ maxDepth

theorem fits_zero_iff {height : Nat} : Fits 0 height ↔ height ≤ maxDepth := by
  unfold Fits
  omega

theorem fits_succ {depth height : Nat} :
    Fits depth (height + 1) ↔ depth < maxDepth ∧ Fits (depth + 1) height := by
  unfold Fits
  omega

theorem fits_max {depth a b : Nat} : Fits depth (max a b) ↔ Fits depth a ∧ Fits depth b := by
  unfold Fits
  omega

theorem fits_max_succ {depth inner more : Nat} :
    Fits depth (max (inner + 1) more) ↔
      (depth < maxDepth ∧ Fits (depth + 1) inner) ∧ Fits depth more := by
  rw [fits_max, fits_succ]

private theorem htmlOfNodes_cons_eq_ok {depth : Nat} {node : Node} {nodes more : List Node}
    {p q : Prop} {first rest : List Char}
    (hnode : ∀ out, node.html depth = .ok out ↔ p ∧ out = first)
    (hnodes : ∀ out, htmlOfNodes depth (nodes ++ more) = .ok out ↔
      q ∧ ∃ last, htmlOfNodes depth more = .ok last ∧ out = rest ++ last) (out : List Char) :
    htmlOfNodes depth (node :: nodes ++ more) = .ok out ↔
      (p ∧ q) ∧ ∃ last, htmlOfNodes depth more = .ok last ∧ out = first ++ rest ++ last := by
  rw [List.cons_append, htmlOfNodes_cons_eq_ok_iff]
  constructor
  · rintro ⟨a, b, ha, hb, rfl⟩
    obtain ⟨hp, rfl⟩ := (hnode a).mp ha
    obtain ⟨hq, last, hlast, rfl⟩ := (hnodes b).mp hb
    exact ⟨⟨hp, hq⟩, last, hlast, by simp⟩
  · rintro ⟨⟨hp, hq⟩, last, hlast, rfl⟩
    exact ⟨first, rest ++ last, (hnode _).mpr ⟨hp, rfl⟩, (hnodes _).mpr ⟨hq, last, hlast, rfl⟩,
      by simp⟩

/-- The HTML of the nodes of a forest, and how deep they may stand. -/
theorem htmlOfNodes_nodes_append {t : Forest} (ht : t.WellFormed) (depth : Nat)
    (more : List Node) (out : List Char) :
    htmlOfNodes depth (t.nodes ++ more) = .ok out ↔
      Fits depth t.height ∧ ∃ last, htmlOfNodes depth more = .ok last ∧ out = t.html ++ last := by
  -- The nodes inside an element have nothing behind them.
  have alone {inner : Forest} {depth : Nat} (h : ∀ more out,
      htmlOfNodes depth (inner.nodes ++ more) = .ok out ↔ Fits depth inner.height ∧
        ∃ last, htmlOfNodes depth more = .ok last ∧ out = inner.html ++ last) (out : List Char) :
      htmlOfNodes depth inner.nodes = .ok out ↔ Fits depth inner.height ∧ out = inner.html := by
    have hinner := h [] out
    simp only [List.append_nil] at hinner
    rw [hinner]
    simp [htmlOfNodes, pure, Except.pure]
  induction t generalizing depth more out with
  | nil => simp [nodes, height, html, Fits]
  | text run rest ih =>
    have hnode : ∀ out, (Node.text run).html depth = .ok out ↔
        True ∧ out = Html.escape (collapse run) := by
      simp [Node.html_text_eq_ok_iff]
    simpa [nodes, height, html] using
      htmlOfNodes_cons_eq_ok hnode (ih ht.2.2 depth more) out
  | container expression rest ih =>
    have hnode : ∀ out, (Node.container expression).html depth = .ok out ↔
        True ∧ out = if isComment expression then [] else placeholder := by
      simp [Node.html_container_eq_ok_iff]
    simpa [nodes, height, html] using
      htmlOfNodes_cons_eq_ok hnode (ih ht.2 depth more) out
  | fragment inner rest ihinner ih =>
    have hinner := alone (ihinner ht.1 (depth + 1))
    have hnode : ∀ out, (Node.fragment inner.nodes).html depth = .ok out ↔
        (depth < maxDepth ∧ Fits (depth + 1) inner.height) ∧ out = inner.html := by
      intro out
      rw [Node.html_fragment_eq_ok_iff, hinner, and_assoc]
    rw [height, fits_max_succ]
    simpa [nodes, html] using htmlOfNodes_cons_eq_ok hnode (ih ht.2 depth more) out
  | element tag inner rest ihinner ih =>
    obtain ⟨⟨-, hvoid⟩, hin, hrest⟩ := ht
    have hinner := alone (ihinner hin (depth + 1))
    have hnode : ∀ out, (Node.element tag.name tag.attributeText inner.nodes).html depth = .ok out ↔
        (depth < maxDepth ∧ Fits (depth + 1) inner.height) ∧
          out = openingHtml tag ++ inner.html ++ closingTag tag.name := by
      intro out
      simp [Node.html_element_eq_ok_iff, hinner, hvoid, openingHtml, and_assoc]
    rw [height, fits_max_succ]
    simpa [nodes, html] using htmlOfNodes_cons_eq_ok hnode (ih hrest depth more) out
  | closed tag rest ih =>
    have hnode : ∀ out, (Node.element tag.name tag.attributeText []).html depth = .ok out ↔
        (depth < maxDepth ∧ Fits (depth + 1) 0) ∧
          out = openingHtml tag ++ if isVoid tag.name then [] else closingTag tag.name := by
      intro out
      simp [Node.html_element_eq_ok_iff, htmlOfNodes, pure, Except.pure, openingHtml, Fits]
    rw [height, ← Nat.zero_add 1, fits_max_succ]
    simpa [nodes, html] using htmlOfNodes_cons_eq_ok hnode (ih ht.2 depth more) out

end Forest

/-- Rendering fails on such a text just if the forest is nested too deep or the rest fails. -/
theorem render_eq_ok_iff {t : Forest} (ht : t.WellFormed) {b : List Char}
    (hb : t.EndsInText → StopsText b) (out : List Char) :
    render (t.written ++ b) = .ok out ↔
      t.height ≤ maxDepth ∧ ∃ last, render b = .ok last ∧ out = t.html ++ last := by
  rw [render, Forest.parse_written_append ht hb, Forest.htmlOfNodes_nodes_append ht,
    Forest.fits_zero_iff]
  rfl

theorem eq_ok_of_toOption {α β : Type} {x : Except α β} {a : β} (h : x.toOption = some a) :
    x = .ok a := by
  cases x with
  | error e => cases h
  | ok b => exact congrArg Except.ok (Option.some.inj h)

theorem exists_error_iff {α β : Type} (x : Except α β) :
    (∃ e, x = .error e) ↔ ¬∃ a, x = .ok a := by
  cases x <;> simp

/-- What is rendered of well-formed markup and of any text behind it: the same tree in HTML, and
what is rendered of that text alone. -/
theorem render_written_append {t : Forest} (ht : t.WellFormed) {b : List Char}
    (hb : t.EndsInText → StopsText b) :
    ((∃ e, render (t.written ++ b) = .error e) ↔
      maxDepth < t.height ∨ ∃ e, render b = .error e) ∧
    ∀ h, t.height ≤ maxDepth → render b = .ok h →
      render (t.written ++ b) = .ok (t.html ++ h) := by
  have hok := render_eq_ok_iff ht hb
  constructor
  · rw [exists_error_iff, exists_error_iff]
    constructor
    · intro herror
      by_cases hdeep : maxDepth < t.height
      · exact .inl hdeep
      · right
        rintro ⟨last, hlast⟩
        exact herror ⟨_, (hok _).mpr ⟨Nat.not_lt.mp hdeep, last, hlast, rfl⟩⟩
    · rintro (hdeep | herror) ⟨out, hout⟩
      · exact absurd ((hok out).mp hout).1 (Nat.not_le.mpr hdeep)
      · obtain ⟨-, last, hlast, -⟩ := (hok out).mp hout
        exact herror ⟨last, hlast⟩
  · intro h hheight hrest
    exact (hok _).mpr ⟨hheight, h, hrest, rfl⟩

/-- A section with a section and a fragment inside it, and marks of tags inside its attributes. -/
def nestedSections : Forest :=
  .element ⟨"section".toList,
      [([' '], .quoted "title".toList '"' "a > b".toList),
        (['\n'], .expression "key".toList "'\x7d'".toList), ([' '], .spread "x".toList)], [' ']⟩
    (.closed ⟨"section".toList, [], []⟩ <|
      .text "Hi ".toList <| .container "n".toList <| .fragment .nil .nil)
    .nil

theorem wellFormed_nestedSections : nestedSections.WellFormed := by
  have hbrace : LiteralText '\'' ['\x7d'] := .plain (by decide) (by decide) .nil
  have hkey : GroupText "'\x7d'".toList := .literal (by decide) hbrace .nil
  have hspread : GroupText "x".toList := .plain (by decide) (by decide) (by decide) .nil
  have hsection : WrittenTag.WellFormed ⟨"section".toList, [], []⟩ :=
    ⟨by decide, by simp, by simp⟩
  refine ⟨⟨⟨by decide, ?_, by decide⟩, by decide⟩, ⟨hsection, ?_⟩, trivial⟩
  · intro a ha
    simp only [List.mem_cons, List.not_mem_nil, or_false] at ha
    rcases ha with rfl | rfl | rfl
    · exact ⟨by decide, by decide, by decide, .inl rfl, by decide⟩
    · exact ⟨by decide, by decide, by decide, hkey, by decide⟩
    · exact ⟨by decide, by decide, hspread, by decide⟩
  · exact ⟨by decide, id, by decide, trivial, trivial⟩

theorem render_nestedSections :
    nestedSections.WellFormed ∧ (nestedSections.EndsInText → StopsText "</section><i".toList) ∧
      render (nestedSections.written ++ "</section><i".toList) =
        .ok (nestedSections.html ++ "&lt;/section&gt;&lt;i".toList) := by
  have hb : nestedSections.EndsInText → StopsText "</section><i".toList := False.elim
  have hrest : render "</section><i".toList = .ok "&lt;/section&gt;&lt;i".toList :=
    eq_ok_of_toOption (by decide +kernel)
  exact ⟨wellFormed_nestedSections, hb,
    (render_written_append wellFormed_nestedSections hb).2 _ (by decide) hrest⟩

end StaticPreview.Markup
