import StaticPreview.Proofs.Markup.Sought
import StaticPreview.Proofs.Place.Attribute
import StaticPreview.Proofs.Place.Tag

/-! # Opening tags

A tag is read twice: once for its end, and its attributes once more. Values may hold closing angle
brackets, slashes, equals signs and the mark of the other kind of value; both readings pass over a
value as a whole, and so they part the text of the tag at the same places.
-/
namespace StaticPreview.Markup
open Text

inductive WrittenValue where
  | absent
  | quoted (before after : List Char) (mark : Char) (text : List Char)
  | expression (before after text : List Char)

namespace WrittenValue

def written : WrittenValue → List Char
  | absent => []
  | quoted before after mark text => before ++ '=' :: after ++ mark :: text ++ [mark]
  | expression before after text => before ++ '=' :: after ++ '\x7b' :: text ++ ['\x7d']

def WellFormed : WrittenValue → Prop
  | absent => True
  | quoted before after mark text =>
    AllBlank before ∧ AllBlank after ∧ (mark = '"' ∨ mark = '\'') ∧ ∀ c ∈ text, c ≠ mark
  | expression before after text => AllBlank before ∧ AllBlank after ∧ GroupText text

def value : WrittenValue → AttributeValue
  | absent => .absent
  | quoted _ _ _ text => .literal text
  | expression _ _ text => .expression text

end WrittenValue

inductive TagPart where
  | named (gap name : List Char) (value : WrittenValue)
  | spread (gap text : List Char)

namespace TagPart

def written : TagPart → List Char
  | named gap name value => gap ++ name ++ value.written
  | spread gap text => gap ++ '\x7b' :: '.' :: '.' :: '.' :: text ++ ['\x7d']

/-- Only a spread may follow what stands before it without a blank. -/
def WellFormed : TagPart → Prop
  | named gap name value =>
    (gap ≠ [] ∧ AllBlank gap) ∧ IsAttributeName name ∧ value.WellFormed
  | spread gap text => AllBlank gap ∧ GroupText text

def attribute? : TagPart → Option Attribute
  | named _ name value => some ⟨name, value.value⟩
  | spread _ _ => none

end TagPart

structure OpeningTag where
  name : List Char
  parts : List TagPart
  /-- The blanks behind the last part. -/
  gap : List Char
  closesItself : Bool

namespace OpeningTag

def attributeText (t : OpeningTag) : List Char :=
  t.parts.flatMap TagPart.written ++ t.gap

/-- What stands between the angle brackets. -/
def body (t : OpeningTag) : List Char :=
  t.name ++ t.attributeText ++ if t.closesItself then ['/'] else []

def written (t : OpeningTag) : List Char :=
  '<' :: t.body ++ ['>']

def attributes (t : OpeningTag) : List Attribute :=
  t.parts.filterMap TagPart.attribute?

structure WellFormed (t : OpeningTag) : Prop where
  isTagName : IsTagName t.name
  parts : ∀ p ∈ t.parts, p.WellFormed
  gap : AllBlank t.gap

end OpeningTag

theorem passedInTag_blanks {gap : List Char} (h : AllBlank gap) : PassedInTag gap :=
  passedInTag_of_plain fun c hc => isPlain_of_isBlank (h c hc)

theorem passedInTag_name {name : List Char} (h : ∀ c ∈ name, Attribute.isNameChar c) :
    PassedInTag name :=
  passedInTag_of_plain fun c hc => isPlain_of_isNameChar (h c hc)

theorem passedInTag_assigned {before after value : List Char} (hbefore : AllBlank before)
    (hafter : AllBlank after) (hvalue : PassedInTag value) :
    PassedInTag (before ++ '=' :: after ++ value) := by
  have hequals : PassedInTag ['='] := passedInTag_of_plain (by decide)
  have hlead := (passedInTag_blanks hbefore).append (hequals.append (passedInTag_blanks hafter))
  simpa using hlead.append hvalue

theorem WrittenValue.WellFormed.passedInTag {v : WrittenValue} (h : v.WellFormed) :
    PassedInTag v.written := by
  cases v with
  | absent => exact .nil
  | quoted before after mark text =>
    obtain ⟨hbefore, hafter, hmark, htext⟩ := h
    simpa [written] using passedInTag_assigned hbefore hafter (passedInTag_quoted hmark htext)
  | expression before after text =>
    obtain ⟨hbefore, hafter, htext⟩ := h
    simpa [written] using passedInTag_assigned hbefore hafter (passedInTag_group htext)

theorem TagPart.WellFormed.passedInTag {p : TagPart} (h : p.WellFormed) :
    PassedInTag p.written := by
  cases p with
  | named gap name value =>
    obtain ⟨⟨-, hgap⟩, hname, hvalue⟩ := h
    exact ((passedInTag_blanks hgap).append (passedInTag_name hname.isNameChar)).append
      hvalue.passedInTag
  | spread gap text =>
    obtain ⟨hgap, htext⟩ := h
    simpa [written] using (passedInTag_blanks hgap).append (passedInTag_group htext.dots)

theorem TagPart.WellFormed.endsOpen {p : TagPart} (h : p.WellFormed) : EndsOpen p.written := by
  cases p with
  | named gap name value =>
    obtain ⟨-, hname, hvalue⟩ := h
    cases value with
    | absent =>
      have hend := (endsOpen_name hname.ne_nil hname.isNameChar).append gap
      simpa [written, WrittenValue.written] using hend
    | quoted before after mark text =>
      obtain ⟨-, -, hmark, -⟩ := hvalue
      have hend : EndsOpen [mark] := ⟨[], mark, rfl, by rcases hmark with rfl | rfl <;> decide⟩
      simpa [written, WrittenValue.written] using
        hend.append (gap ++ name ++ (before ++ '=' :: after ++ mark :: text))
    | expression before after text =>
      have hend : EndsOpen ['\x7d'] := ⟨[], '\x7d', rfl, by decide⟩
      simpa [written, WrittenValue.written] using
        hend.append (gap ++ name ++ (before ++ '=' :: after ++ '\x7b' :: text))
  | spread gap text => exact ⟨_, '\x7d', rfl, by decide⟩

namespace OpeningTag
variable {t : OpeningTag}

theorem WellFormed.passedInTag_attributeText (h : t.WellFormed) :
    PassedInTag t.attributeText := by
  refine PassedInTag.append ?_ (passedInTag_blanks h.gap)
  have hall := h.parts
  generalize t.parts = parts at hall
  induction parts with
  | nil => exact .nil
  | cons p more ih =>
    rw [List.flatMap_cons]
    exact (hall p List.mem_cons_self).passedInTag.append
      (ih fun q hq => hall q (List.mem_cons_of_mem p hq))

theorem WellFormed.passedInTag_name (h : t.WellFormed) : PassedInTag t.name :=
  Markup.passedInTag_name fun c hc => isNameChar_attribute (h.isTagName.isNameChar c hc)

theorem WellFormed.passedInTag_body (h : t.WellFormed) : PassedInTag t.body := by
  refine (h.passedInTag_name.append h.passedInTag_attributeText).append ?_
  split
  · exact passedInTag_of_plain (by decide)
  · exact .nil

theorem WellFormed.selfCloses_open (h : t.WellFormed) :
    Markup.selfCloses (t.name ++ t.attributeText) = false := by
  have hname : EndsOpen t.name := endsOpen_name h.isTagName.ne_nil fun c hc =>
    isNameChar_attribute (h.isTagName.isNameChar c hc)
  have hends : EndsOpen (t.name ++ t.parts.flatMap TagPart.written) := by
    rcases t.parts.eq_nil_or_concat with hnil | ⟨init, last, hlast⟩
    · simpa [hnil] using hname
    · have hpart := h.parts last (by simp [hlast])
      rw [hlast, List.concat_eq_append, List.flatMap_append, List.flatMap_singleton,
        ← List.append_assoc]
      exact hpart.endsOpen.append _
  rw [attributeText, ← List.append_assoc]
  exact hends.selfCloses_append h.gap

theorem WellFormed.selfCloses_body (h : t.WellFormed) :
    Markup.selfCloses t.body = t.closesItself := by
  rw [body]
  cases t.closesItself with
  | true => exact selfCloses_slash _
  | false => simpa using h.selfCloses_open

theorem WellFormed.openBody_body (h : t.WellFormed) :
    openBody t.body = t.name ++ t.attributeText := by
  rw [body]
  cases t.closesItself with
  | true => exact openBody_slash _
  | false => simp [openBody, h.selfCloses_open]

end OpeningTag

theorem not_isNameChar_of_isBlank {c : Char} (h : isBlank c) : Attribute.isNameChar c = false := by
  rw [Bool.eq_false_iff]
  intro hname
  simp [not_isBlank_of_isNameChar hname] at h

def EndsAttribute (s : List Char) : Prop :=
  (∀ c ∈ s.head?, Attribute.isNameChar c = false) ∧ (skipBlank s).head? ≠ some '='

theorem EndsAttribute.of_gap {gap s : List Char} (hgap : AllBlank gap)
    (hs : (skipBlank s).head? ≠ some '=')
    (hfirst : gap = [] → ∀ c ∈ s.head?, Attribute.isNameChar c = false) :
    EndsAttribute (gap ++ s) := by
  refine ⟨?_, by rwa [skipBlank_append hgap]⟩
  cases gap with
  | nil => exact hfirst rfl
  | cons d r =>
    rintro c ⟨rfl⟩
    exact not_isNameChar_of_isBlank (hgap d List.mem_cons_self)

theorem parse_blanks_append {gap : List Char} (hgap : AllBlank gap) (s : List Char) :
    Attribute.parse (gap ++ s) = Attribute.parse s := by
  induction gap with
  | nil => rfl
  | cons c r ih =>
    have hc := hgap c List.mem_cons_self
    have hstart : ¬Attribute.isNameStart c := by
      intro hstart
      have hname := isNameChar_of_isNameStart hstart
      simp [not_isNameChar_of_isBlank hc] at hname
    rw [List.cons_append, Attribute.parse, if_neg (ne_of_isBlank hc (by decide)), if_neg hstart,
      ih fun d hd => hgap d (List.mem_cons_of_mem c hd)]

theorem parse_group_append {text : List Char} (htext : GroupText text) (s : List Char) :
    Attribute.parse ('\x7b' :: text ++ '\x7d' :: s) = Attribute.parse s := by
  have hgroup := htext.group?_append s
  rw [List.cons_append, Attribute.parse, if_pos rfl]
  split
  next group after h =>
    obtain ⟨-, rfl⟩ := Prod.mk.inj (Option.some.inj (h.symm.trans hgroup))
    rfl
  next h => simp [hgroup] at h

/-- An attribute name ends at the first character that cannot be in one. -/
theorem parse_name_append {name : List Char} (hname : IsAttributeName name) {s : List Char}
    (hs : ∀ c ∈ s.head?, Attribute.isNameChar c = false) :
    Attribute.parse (name ++ s) =
      ⟨name, (Attribute.readAssignment s).1⟩ :: Attribute.parse (Attribute.readAssignment s).2 := by
  cases name with
  | nil => exact hname.elim
  | cons c r =>
    obtain ⟨hc, hr⟩ := hname
    have hbrace : c ≠ '\x7b' := ne_of_isNameChar (isNameChar_of_isNameStart hc) (by decide)
    rw [List.cons_append, Attribute.parse, if_neg hbrace, if_pos hc]
    simp only [takeWhile_append_of_head? hr hs, dropWhile_append_of_head? hr hs]

theorem readAssignment_of_assigned {before after : List Char} (hbefore : AllBlank before)
    (hafter : AllBlank after) {c : Char} (hc : isBlank c = false) (s : List Char) :
    Attribute.readAssignment (before ++ '=' :: after ++ c :: s) =
      Attribute.readValue (c :: s) := by
  have hvalue : skipBlank (after ++ c :: s) = c :: s := by
    rw [skipBlank_append hafter, skipBlank_of_head (by simpa using hc)]
  have hequals : skipBlank (before ++ '=' :: after ++ c :: s) = '=' :: (after ++ c :: s) := by
    rw [List.append_assoc, skipBlank_append hbefore]
    rfl
  rw [Attribute.readAssignment, hequals]
  exact congrArg Attribute.readValue hvalue

theorem readValue_quoted {mark : Char} (hmark : mark = '"' ∨ mark = '\'') {text : List Char}
    (htext : ∀ c ∈ text, c ≠ mark) (s : List Char) :
    Attribute.readValue (mark :: (text ++ mark :: s)) = (.literal text, s) := by
  rw [Attribute.readValue, if_pos hmark, cut?_append htext]

theorem readValue_group {text : List Char} (htext : GroupText text) (s : List Char) :
    Attribute.readValue ('\x7b' :: (text ++ '\x7d' :: s)) = (.expression text, s) := by
  rw [Attribute.readValue, if_neg (by decide), if_pos rfl, htext.group?_append]
  simp

/-- A value is read as it is written, and what follows it is left. -/
theorem WrittenValue.WellFormed.readAssignment_append {v : WrittenValue} (h : v.WellFormed)
    {s : List Char} (hs : EndsAttribute s) :
    Attribute.readAssignment (v.written ++ s) = (v.value, s) := by
  cases v with
  | absent => exact Place.readAssignment_of_head? hs.2
  | quoted before after mark text =>
    obtain ⟨hbefore, hafter, hmark, htext⟩ := h
    have hblank : isBlank mark = false := by rcases hmark with rfl | rfl <;> decide
    have hassoc : (quoted before after mark text).written ++ s =
        before ++ '=' :: after ++ mark :: (text ++ mark :: s) := by simp [written]
    rw [hassoc, readAssignment_of_assigned hbefore hafter hblank, readValue_quoted hmark htext,
      value]
  | expression before after text =>
    obtain ⟨hbefore, hafter, htext⟩ := h
    have hassoc : (expression before after text).written ++ s =
        before ++ '=' :: after ++ '\x7b' :: (text ++ '\x7d' :: s) := by simp [written]
    rw [hassoc, readAssignment_of_assigned hbefore hafter (by decide), readValue_group htext, value]

/-- What is written of a value does not go on with the name before it. -/
theorem WrittenValue.WellFormed.not_isNameChar_head? {v : WrittenValue} (h : v.WellFormed)
    {s : List Char} (hs : EndsAttribute s) :
    ∀ c ∈ (v.written ++ s).head?, Attribute.isNameChar c = false := by
  have hassigned {before : List Char} (hbefore : AllBlank before) (r : List Char) :
      ∀ c ∈ (before ++ '=' :: r).head?, Attribute.isNameChar c = false := by
    cases before with
    | nil =>
      rintro c ⟨rfl⟩
      decide
    | cons d more =>
      rintro c ⟨rfl⟩
      exact not_isNameChar_of_isBlank (hbefore d List.mem_cons_self)
  cases v with
  | absent => exact hs.1
  | quoted before after mark text =>
    simpa [written] using hassigned h.1 (after ++ mark :: (text ++ mark :: s))
  | expression before after text =>
    simpa [written] using hassigned h.1 (after ++ '\x7b' :: (text ++ '\x7d' :: s))

theorem TagPart.WellFormed.parse_append {p : TagPart} (h : p.WellFormed) {s : List Char}
    (hs : EndsAttribute s) :
    Attribute.parse (p.written ++ s) = p.attribute?.toList ++ Attribute.parse s := by
  cases p with
  | named gap name value =>
    obtain ⟨⟨-, hgap⟩, hname, hvalue⟩ := h
    rw [written, List.append_assoc, List.append_assoc, parse_blanks_append hgap,
      parse_name_append hname (hvalue.not_isNameChar_head? hs), hvalue.readAssignment_append hs]
    rfl
  | spread gap text =>
    obtain ⟨hgap, htext⟩ := h
    have hassoc : (spread gap text).written ++ s =
        gap ++ ('\x7b' :: ('.' :: '.' :: '.' :: text) ++ '\x7d' :: s) := by simp [written]
    rw [hassoc, parse_blanks_append hgap, parse_group_append htext.dots]
    rfl

/-- Wherever a part begins, an attribute before it ends. -/
theorem TagPart.WellFormed.endsAttribute {p : TagPart} (h : p.WellFormed) (s : List Char) :
    EndsAttribute (p.written ++ s) := by
  cases p with
  | named gap name value =>
    obtain ⟨⟨hne, hgap⟩, hname, -⟩ := h
    rw [written, List.append_assoc, List.append_assoc]
    refine .of_gap hgap ?_ fun hnil => absurd hnil hne
    cases name with
    | nil => exact hname.elim
    | cons c r =>
      have hc := isNameChar_of_isNameStart hname.1
      rw [List.cons_append, skipBlank_of_head (by simpa using not_isBlank_of_isNameChar hc)]
      simpa using ne_of_isNameChar hc (by decide)
  | spread gap text =>
    obtain ⟨hgap, -⟩ := h
    have hassoc : (spread gap text).written ++ s =
        gap ++ '\x7b' :: ('.' :: '.' :: '.' :: text ++ '\x7d' :: s) := by simp [written]
    have hbrace (r : List Char) : skipBlank ('\x7b' :: r) = '\x7b' :: r :=
      skipBlank_of_head (by simp [isBlank])
    rw [hassoc]
    refine .of_gap hgap (by simp [hbrace]) fun _ => ?_
    rintro c ⟨rfl⟩
    decide

namespace OpeningTag
variable {t : OpeningTag}

theorem endsAttribute_parts {parts : List TagPart} (h : ∀ p ∈ parts, p.WellFormed) {s : List Char}
    (hs : EndsAttribute s) : EndsAttribute (parts.flatMap TagPart.written ++ s) := by
  cases parts with
  | nil => exact hs
  | cons p more =>
    rw [List.flatMap_cons, List.append_assoc]
    exact (h p List.mem_cons_self).endsAttribute _

/-- The parts of a tag are read one after the other, with any text behind them that ends them. -/
theorem parse_parts_append {parts : List TagPart} (h : ∀ p ∈ parts, p.WellFormed) {s : List Char}
    (hs : EndsAttribute s) :
    Attribute.parse (parts.flatMap TagPart.written ++ s) =
      parts.filterMap TagPart.attribute? ++ Attribute.parse s := by
  induction parts with
  | nil => rfl
  | cons p more ih =>
    obtain ⟨hp, hmore⟩ := List.forall_mem_cons.mp h
    rw [List.flatMap_cons, List.append_assoc, hp.parse_append (endsAttribute_parts hmore hs),
      ih hmore, List.filterMap_cons]
    cases p.attribute? <;> rfl

theorem WellFormed.parse_attributeText (h : t.WellFormed) :
    Attribute.parse t.attributeText = t.attributes := by
  have hgap : EndsAttribute t.gap := by
    simpa using EndsAttribute.of_gap h.gap (s := []) (by simp [skipBlank]) fun _ => by simp
  have hrest : Attribute.parse t.gap = [] := by
    simpa [Attribute.parse] using parse_blanks_append h.gap []
  rw [attributeText, parse_parts_append h.parts hgap, hrest, List.append_nil, attributes]

theorem WellFormed.tagName?_body (h : t.WellFormed) (rest : List Char) :
    tagName? (t.body ++ '>' :: rest) = some t.name := by
  have hend {c : Char} (hc : c = '/' ∨ c = '>') (s : List Char) :
      EndsAttribute (t.gap ++ c :: s) := by
    have hblank : isBlank c = false := by rcases hc with rfl | rfl <;> decide
    refine .of_gap h.gap ?_ fun _ => ?_
    · rw [skipBlank_of_head (by simpa using hblank)]
      rcases hc with rfl | rfl <;> simp
    · rintro d ⟨rfl⟩
      rcases hc with rfl | rfl <;> decide
  have hafter : EndsAttribute
      (t.attributeText ++ ((if t.closesItself then ['/'] else []) ++ '>' :: rest)) := by
    rw [attributeText, List.append_assoc]
    refine endsAttribute_parts h.parts ?_
    split
    · exact hend (.inl rfl) _
    · exact hend (.inr rfl) _
  rw [body, List.append_assoc, List.append_assoc]
  refine tagName?_append_of_head? h.isTagName fun c hc => ?_
  have hc' := hafter.1 c hc
  rw [Bool.eq_false_iff] at hc' ⊢
  exact mt isNameChar_attribute hc'

/-- Wherever a tag stands, its reading ends behind its closing angle bracket and tells whether the
tag closes itself; what that leaves between the name and the end of the attributes is read as the
attributes that were written, without the spreads. -/
theorem WellFormed.readings_written (h : t.WellFormed) (lead rest : List Char) :
    Place.tagEnd (lead ++ t.written ++ rest) (width lead) =
        .ok (some ⟨width (lead ++ t.written), width (lead ++ '<' :: t.name ++ t.attributeText),
          t.closesItself⟩) ∧
      Place.slice (lead ++ t.written ++ rest) (width (lead ++ '<' :: t.name))
        (width (lead ++ '<' :: t.name ++ t.attributeText)) = .ok t.attributeText ∧
      Place.attributesOf t.attributeText = .ok t.attributes ∧
      tagName? (t.body ++ '>' :: rest) = some t.name ∧
      tagBody? (t.body ++ '>' :: rest) = some (t.body, rest) ∧
      selfCloses t.body = t.closesItself ∧
      openBody t.body = t.name ++ t.attributeText ∧
      Attribute.parse t.attributeText = t.attributes := by
  have hwritten : lead ++ t.written ++ rest = lead ++ '<' :: (t.body ++ '>' :: rest) := by
    simp [written]
  have hbody := h.passedInTag_body.tagBody?_close rest
  have hend : Place.TagEnd.ofBody (width lead) t.body =
      ⟨width (lead ++ t.written), width (lead ++ '<' :: t.name ++ t.attributeText),
        t.closesItself⟩ := by
    have hopen : lead ++ '<' :: t.name ++ t.attributeText =
        lead ++ '<' :: (t.name ++ t.attributeText) := by simp
    rw [written, ← Place.TagEnd.stop_ofBody, Place.TagEnd.ofBody, h.openBody_body,
      h.selfCloses_body, hopen, Place.width_tag]
  refine ⟨?_, ?_, ?_, h.tagName?_body rest, hbody, h.selfCloses_body, h.openBody_body,
    h.parse_attributeText⟩
  · rw [hwritten, Place.tagEnd_append, hbody, Option.map_some, hend]
  · refine Place.slice_eq_ok_iff.mpr
      ⟨lead ++ '<' :: t.name, (if t.closesItself then ['/'] else []) ++ '>' :: rest, ?_, rfl, rfl⟩
    rw [hwritten, body]
    simp
  · rw [Place.attributesOf_eq, h.parse_attributeText]

/-- Values with closing angle brackets, slashes and braces in them, and spreads that end them. -/
def card : OpeningTag :=
  ⟨"ui:Card".toList,
    [.named [' '] "title".toList (.quoted [' '] ['\n'] '\'' "a > \"b\"/".toList),
      .named ['\t'] "onClick".toList
        (.expression [] [] "() => \x7b go(\"\x7d\") \x7d".toList),
      .spread [] "more".toList, .named [' '] "disabled".toList .absent,
      .spread [] "rest".toList],
    [' '], true⟩

theorem groupText_of_plain {p : List Char}
    (hp : ∀ c ∈ p, isQuote c = false ∧ c ≠ '\x7b' ∧ c ≠ '\x7d') : GroupText p := by
  simpa using GroupText.plain_append hp .nil

theorem groupText_call : GroupText "() => \x7b go(\"\x7d\") \x7d".toList := by
  have hbrace : LiteralText '"' ['\x7d'] := .plain (by decide) (by decide) .nil
  have hcall : GroupText (" go(".toList ++ ('"' :: ['\x7d'] ++ '"' :: ") ".toList)) :=
    .plain_append (by decide) (.literal (by decide) hbrace (groupText_of_plain (by decide)))
  exact .plain_append (p := "() => ".toList) (by decide) (.group hcall .nil)

theorem wellFormed_card : card.WellFormed := by
  refine ⟨by decide, ?_, by decide⟩
  refine List.forall_mem_cons.mpr ⟨?_, List.forall_mem_cons.mpr ⟨?_, List.forall_mem_cons.mpr
    ⟨?_, List.forall_mem_cons.mpr ⟨?_, List.forall_mem_singleton.mpr ?_⟩⟩⟩⟩
  · exact ⟨⟨by decide, by decide⟩, by decide, by decide, by decide, .inr rfl, by decide⟩
  · exact ⟨⟨by decide, by decide⟩, by decide, by decide, by decide, groupText_call⟩
  · exact ⟨by decide, groupText_of_plain (by decide)⟩
  · exact ⟨⟨by decide, by decide⟩, by decide, trivial⟩
  · exact ⟨by decide, groupText_of_plain (by decide)⟩

theorem readings_card :
    card.WellFormed ∧
      Place.tagEnd ("<>".toList ++ card.written ++ "</ui:Card>".toList) 2 =
        .ok (some ⟨87, 85, true⟩) ∧
      Attribute.parse card.attributeText =
        [⟨"title".toList, .literal "a > \"b\"/".toList⟩,
          ⟨"onClick".toList, .expression "() => \x7b go(\"\x7d\") \x7d".toList⟩,
          ⟨"disabled".toList, .absent⟩] := by
  obtain ⟨hend, -, -, -, -, -, -, hparse⟩ :=
    wellFormed_card.readings_written "<>".toList "</ui:Card>".toList
  have hplaces : (⟨width ("<>".toList ++ card.written),
      width ("<>".toList ++ '<' :: card.name ++ card.attributeText), true⟩ : Place.TagEnd) =
      ⟨87, 85, true⟩ := by decide
  exact ⟨wellFormed_card, hend.trans (congrArg (fun e => Except.ok (some e)) hplaces), hparse⟩

end OpeningTag

end StaticPreview.Markup
