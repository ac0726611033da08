import StaticPreview.Markup.AttributeHtml
import StaticPreview.Markup.Node
import StaticPreview.Proofs.Markup.Group
import StaticPreview.Proofs.Markup.Name
import StaticPreview.Proofs.Text.Trim

/-! # Well-formed tags

A written tag has a name, attributes with blanks before each, and possibly blanks behind the last.
Its body is read as a whole, its name and its attributes are told apart, and it closes itself only
by a slash of its own.
-/
namespace StaticPreview.Markup
open Text

inductive WrittenAttribute where
  | bare (name : List Char)
  | quoted (name : List Char) (mark : Char) (text : List Char)
  | expression (name text : List Char)
  | spread (text : List Char)

namespace WrittenAttribute

def written : WrittenAttribute → List Char
  | bare name => name
  | quoted name mark text => name ++ '=' :: mark :: text ++ [mark]
  | expression name text => name ++ '=' :: '\x7b' :: text ++ ['\x7d']
  | spread text => '\x7b' :: '.' :: '.' :: '.' :: text ++ ['\x7d']

def WellFormed : WrittenAttribute → Prop
  | bare name => IsAttributeName name
  | quoted name mark text =>
    IsAttributeName name ∧ (mark = '"' ∨ mark = '\'') ∧ ∀ c ∈ text, c ≠ mark ∧ c ≠ '<'
  | expression name text => IsAttributeName name ∧ GroupText text ∧ ∀ c ∈ text, c ≠ '<'
  | spread text => GroupText text ∧ ∀ c ∈ text, c ≠ '<'

end WrittenAttribute

structure WrittenTag where
  name : List Char
  /-- Each attribute with the blanks before it. -/
  attributes : List (List Char × WrittenAttribute)
  /-- The blanks behind the last attribute. -/
  gap : List Char

namespace WrittenTag

def attributeText (t : WrittenTag) : List Char :=
  t.attributes.flatMap (fun a => a.1 ++ a.2.written) ++ t.gap

def body (t : WrittenTag) : List Char :=
  t.name ++ t.attributeText

structure WellFormed (t : WrittenTag) : Prop where
  isTagName : IsTagName t.name
  attributes : ∀ a ∈ t.attributes,
    a.1 ≠ [] ∧ (∀ c ∈ a.1, isAsciiBlank c) ∧ a.2.WellFormed
  gap : ∀ c ∈ t.gap, isAsciiBlank c

end WrittenTag

/-- Whether the reading of a tag passes over a text, whatever follows. -/
def PassedInTag (p : List Char) : Prop :=
  ∀ s, tagBody? (p ++ s) = prepend p (tagBody? s)

theorem PassedInTag.nil : PassedInTag [] := fun s => by simp

theorem PassedInTag.append {p q : List Char} (hp : PassedInTag p) (hq : PassedInTag q) :
    PassedInTag (p ++ q) := by
  intro s
  rw [List.append_assoc, hp, hq, prepend_prepend]

theorem passedInTag_of_plain {p : List Char} (hp : ∀ c ∈ p, isPlain c) : PassedInTag p := by
  induction p with
  | nil => exact .nil
  | cons c r ih =>
    intro s
    rw [List.cons_append, tagBody?_plain (hp c List.mem_cons_self),
      ih (fun d hd => hp d (List.mem_cons_of_mem c hd)) s]
    simp [prepend, Function.comp_def]

theorem isPlain_of_isNameChar {c : Char} (h : Attribute.isNameChar c) : isPlain c := by
  have hne : ∀ d, Attribute.isNameChar d = false → (c != d) = true := fun d hd =>
    bne_iff_ne.mpr (ne_of_isNameChar h hd)
  simp [isPlain, hne '"' (by decide), hne '\'' (by decide), hne '\x7b' (by decide),
    hne '>' (by decide)]

theorem ne_of_isBlank {c d : Char} (h : isBlank c) (hd : isBlank d = false) : c ≠ d := by
  rintro rfl
  simp [h] at hd

theorem isPlain_of_isBlank {c : Char} (h : isBlank c) : isPlain c := by
  have hne : ∀ d, isBlank d = false → (c != d) = true := fun d hd =>
    bne_iff_ne.mpr (ne_of_isBlank h hd)
  simp [isPlain, hne '"' (by decide), hne '\'' (by decide), hne '\x7b' (by decide),
    hne '>' (by decide)]

theorem passedInTag_quoted {mark : Char} (hmark : mark = '"' ∨ mark = '\'') {text : List Char}
    (htext : ∀ c ∈ text, c ≠ mark) : PassedInTag (mark :: text ++ [mark]) := by
  intro s
  have hassoc : mark :: text ++ [mark] ++ s = mark :: (text ++ mark :: s) := by simp
  rw [hassoc, tagBody?_quoted hmark (cut?_append htext s)]
  simp [prepend]

theorem passedInTag_group {text : List Char} (htext : GroupText text) :
    PassedInTag ('\x7b' :: text ++ ['\x7d']) := by
  intro s
  have hassoc : '\x7b' :: text ++ ['\x7d'] ++ s = '\x7b' :: (text ++ '\x7d' :: s) := by simp
  rw [hassoc, tagBody?_group (htext.group?_append s)]
  rfl

/-- The body of a tag ends at the closing angle bracket behind what is passed over. -/
theorem PassedInTag.tagBody?_close {p : List Char} (hp : PassedInTag p) (s : List Char) :
    tagBody? (p ++ '>' :: s) = some (p, s) := by
  rw [hp, Markup.tagBody?_close]
  simp

/-- Whether a text can stand in a tag: the reading of the tag passes over it, whatever follows,
and it holds no opening angle bracket. -/
structure InTag (p : List Char) : Prop where
  tagBody?_append : ∀ s, tagBody? (p ++ s) = prepend p (tagBody? s)
  ne_opening : ∀ c ∈ p, c ≠ '<'

theorem InTag.nil : InTag [] := ⟨PassedInTag.nil, by simp⟩

theorem InTag.append {p q : List Char} (hp : InTag p) (hq : InTag q) : InTag (p ++ q) :=
  ⟨PassedInTag.append hp.1 hq.1, List.forall_mem_append.mpr ⟨hp.2, hq.2⟩⟩

theorem inTag_of_plain {p : List Char} (hp : ∀ c ∈ p, isPlain c ∧ c ≠ '<') : InTag p :=
  ⟨passedInTag_of_plain fun c hc => (hp c hc).1, fun c hc => (hp c hc).2⟩

theorem inTag_name {name : List Char} (h : ∀ c ∈ name, Attribute.isNameChar c) : InTag name :=
  inTag_of_plain fun c hc =>
    ⟨isPlain_of_isNameChar (h c hc), ne_of_isNameChar (h c hc) (by decide)⟩

theorem inTag_blanks {gap : List Char} (h : ∀ c ∈ gap, isAsciiBlank c) : InTag gap :=
  inTag_of_plain fun c hc =>
    have hblank := isBlank_of_isAsciiBlank (h c hc)
    ⟨isPlain_of_isBlank hblank, ne_of_isBlank hblank (by decide)⟩

theorem inTag_quoted {mark : Char} (hmark : mark = '"' ∨ mark = '\'') {text : List Char}
    (htext : ∀ c ∈ text, c ≠ mark ∧ c ≠ '<') : InTag (mark :: text ++ [mark]) := by
  refine ⟨passedInTag_quoted hmark fun c hc => (htext c hc).1, ?_⟩
  have hne : mark ≠ '<' := by
    rintro rfl
    exact absurd hmark (by decide)
  intro c hc
  simp only [List.cons_append, List.mem_cons, List.mem_append, List.not_mem_nil, or_false] at hc
  rcases hc with rfl | hc | rfl
  · exact hne
  · exact (htext c hc).2
  · exact hne

theorem inTag_group {text : List Char} (htext : GroupText text) (hopen : ∀ c ∈ text, c ≠ '<') :
    InTag ('\x7b' :: text ++ ['\x7d']) := by
  refine ⟨passedInTag_group htext, ?_⟩
  intro c hc
  simp only [List.cons_append, List.mem_cons, List.mem_append, List.not_mem_nil, or_false] at hc
  rcases hc with rfl | hc | rfl
  · decide
  · exact hopen c hc
  · decide

theorem InTag.tagBody?_close {p : List Char} (hp : InTag p) (s : List Char) :
    tagBody? (p ++ '>' :: s) = some (p, s) :=
  PassedInTag.tagBody?_close hp.1 s

theorem WrittenAttribute.WellFormed.inTag {a : WrittenAttribute} (h : a.WellFormed) :
    InTag a.written := by
  have hequals : InTag ['='] := inTag_of_plain (by decide)
  cases a with
  | bare name => exact inTag_name (IsAttributeName.isNameChar h)
  | quoted name mark text =>
    obtain ⟨hname, hmark, htext⟩ := h
    have hvalue := hequals.append (inTag_quoted hmark htext)
    simpa [written] using (inTag_name hname.isNameChar).append hvalue
  | expression name text =>
    obtain ⟨hname, htext, hopen⟩ := h
    have hvalue := hequals.append (inTag_group htext hopen)
    simpa [written] using (inTag_name hname.isNameChar).append hvalue
  | spread text =>
    obtain ⟨htext, hopen⟩ := h
    exact inTag_group htext.dots (by simpa using hopen)

namespace WrittenTag

theorem WellFormed.inTag_attributeText {t : WrittenTag} (h : t.WellFormed) :
    InTag t.attributeText := by
  refine InTag.append ?_ (inTag_blanks h.gap)
  have hall := h.attributes
  generalize t.attributes = attributes at hall
  induction attributes with
  | nil => exact .nil
  | cons a more ih =>
    obtain ⟨-, hgap, ha⟩ := hall a List.mem_cons_self
    rw [List.flatMap_cons]
    exact ((inTag_blanks hgap).append ha.inTag).append
      (ih fun b hb => hall b (List.mem_cons_of_mem a hb))

theorem WellFormed.inTag_body {t : WrittenTag} (h : t.WellFormed) : InTag t.body :=
  (inTag_name fun c hc => isNameChar_attribute (h.isTagName.isNameChar c hc)).append
    h.inTag_attributeText

end WrittenTag

def EndsOpen (p : List Char) : Prop :=
  ∃ q c, p = q ++ [c] ∧ isBlank c = false ∧ c ≠ '/'

theorem EndsOpen.append {q : List Char} (hq : EndsOpen q) (p : List Char) : EndsOpen (p ++ q) := by
  obtain ⟨r, c, rfl, hc⟩ := hq
  exact ⟨p ++ r, c, by simp, hc⟩

theorem endsOpen_name {name : List Char} (hne : name ≠ [])
    (h : ∀ c ∈ name, Attribute.isNameChar c) : EndsOpen name := by
  obtain ⟨q, c, rfl⟩ := (List.eq_nil_or_concat name).resolve_left hne
  have hc := h c (by simp)
  exact ⟨q, c, by simp, not_isBlank_of_isNameChar hc, ne_of_isNameChar hc (by decide)⟩

theorem WrittenAttribute.WellFormed.endsOpen {a : WrittenAttribute} (h : a.WellFormed) :
    EndsOpen a.written := by
  cases a with
  | bare name =>
    have hname : IsAttributeName name := h
    exact endsOpen_name hname.ne_nil hname.isNameChar
  | quoted name mark text =>
    obtain ⟨-, hmark, -⟩ := h
    refine ⟨_, mark, rfl, ?_⟩
    rcases hmark with rfl | rfl <;> decide
  | expression name text => exact ⟨_, '\x7d', rfl, by decide⟩
  | spread text => exact ⟨_, '\x7d', rfl, by decide⟩

theorem EndsOpen.selfCloses_append {p gap : List Char} (hp : EndsOpen p) (hgap : AllBlank gap) :
    selfCloses (p ++ gap) = false := by
  obtain ⟨q, c, rfl, hblank, hslash⟩ := hp
  rw [selfCloses, trimEnd_append_of_blank hgap, trimEnd_concat hblank]
  simpa using hslash

theorem selfCloses_slash (p : List Char) : selfCloses (p ++ ['/']) = true := by
  rw [selfCloses, trimEnd_concat (by decide)]
  simp

theorem openBody_slash (p : List Char) : openBody (p ++ ['/']) = p := by
  rw [openBody, if_pos (selfCloses_slash p), trimEnd_concat (by decide)]
  simp

theorem openBody_append {p : List Char} (hp : EndsOpen p) (s : List Char) :
    ∃ more, openBody (p ++ s) = p ++ more := by
  obtain ⟨q, c, rfl, hblank, hslash⟩ := hp
  have htrim : trimEnd (q ++ [c] ++ s) = q ++ c :: trimEnd s := by
    rw [List.append_assoc]
    exact trimEnd_append_cons hblank q s
  rw [openBody, selfCloses, htrim]
  split
  next h =>
    have hne : trimEnd s ≠ [] := by
      intro hnil
      simp [hnil, hslash] at h
    refine ⟨(trimEnd s).dropLast, ?_⟩
    rw [List.dropLast_append_of_ne_nil (List.cons_ne_nil c _), List.dropLast_cons_of_ne_nil hne]
    simp
  next => exact ⟨s, rfl⟩

theorem exists_eq_append_of_tagName? {r name : List Char} (h : tagName? r = some name) :
    ∃ s, r = name ++ s := by
  cases r with
  | nil => simp [tagName?] at h
  | cons c r =>
    obtain ⟨-, h⟩ := Option.ite_none_right_eq_some.mp h
    obtain rfl := Option.some.inj h
    exact ⟨r.dropWhile isNameChar, by simp [List.takeWhile_append_dropWhile]⟩

theorem openBody_isPrefix (body : List Char) : openBody body <+: body := by
  rw [openBody]
  split
  · exact (List.dropLast_prefix _).trans (isPrefix_trimEnd body)
  · exact List.prefix_refl body

/-- The name of a tag stands before its attributes. -/
theorem exists_openBody_eq_append {r name body after : List Char} (hname : tagName? r = some name)
    (hbody : tagBody? r = some (body, after)) :
    ∃ attributes, openBody body = name ++ attributes := by
  have his := isTagName_of_tagName? hname
  have hchars : ∀ c ∈ name, Attribute.isNameChar c := fun c hc =>
    isNameChar_attribute (his.isNameChar c hc)
  obtain ⟨s, rfl⟩ := exists_eq_append_of_tagName? hname
  rw [(inTag_name hchars).1] at hbody
  obtain ⟨⟨body', after'⟩, -, hbody⟩ := Option.map_eq_some_iff.mp hbody
  obtain ⟨rfl, rfl⟩ := Prod.mk.inj hbody
  exact openBody_append (endsOpen_name his.ne_nil hchars) body'

/-- The slash of a tag that closes itself has only blanks behind it. -/
theorem exists_eq_openBody_append {body : List Char} (h : selfCloses body) :
    ∃ blanks, AllBlank blanks ∧ body = openBody body ++ '/' :: blanks := by
  obtain ⟨blanks, hblanks, hbody⟩ := exists_gap_trimEnd body
  have hlast : (trimEnd body).getLast? = some '/' := by simpa [selfCloses] using h
  obtain ⟨lead, hlead⟩ := List.getLast?_eq_some_iff.mp hlast
  refine ⟨blanks, hblanks, ?_⟩
  rw [openBody, if_pos h, hlead, List.dropLast_concat]
  rw [hlead] at hbody
  simpa using hbody

namespace WrittenTag

theorem WellFormed.selfCloses_body {t : WrittenTag} (h : t.WellFormed) :
    selfCloses t.body = false := by
  have hname : EndsOpen t.name := endsOpen_name h.isTagName.ne_nil fun c hc =>
    isNameChar_attribute (h.isTagName.isNameChar c hc)
  have hends : EndsOpen (t.name ++ t.attributes.flatMap fun a => a.1 ++ a.2.written) := by
    have hall := h.attributes
    generalize t.attributes = attributes at hall
    generalize t.name = lead at hname
    induction attributes generalizing lead with
    | nil => simpa using hname
    | cons a more ih =>
      obtain ⟨-, -, ha⟩ := hall a List.mem_cons_self
      rw [List.flatMap_cons, ← List.append_assoc]
      exact ih (fun b hb => hall b (List.mem_cons_of_mem a hb)) _
        ((ha.endsOpen.append a.1).append lead)
  rw [body, attributeText, ← List.append_assoc]
  exact hends.selfCloses_append fun c hc => isBlank_of_isAsciiBlank (h.gap c hc)

end WrittenTag

end StaticPreview.Markup
