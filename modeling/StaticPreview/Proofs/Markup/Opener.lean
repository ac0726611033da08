import StaticPreview.Proofs.Markup.OpeningTag
import StaticPreview.Proofs.Markup.Token

/-! # Opening tags for the reader and for the search

An opening tag is recognised twice: where elements are read, and where the closing tag of an
element around it is sought. What the search takes for a tag of its name is read as one, or never
ends. Where a blank, a closing angle bracket or a slash ends the name of a tag the search misses
nothing: there the two differ on tags that never end alone, which are text for the reader and lead
the search a level deeper.
-/
namespace StaticPreview.Markup
open Text

/-- What an opening angle bracket is to a search for a closing tag. A tag comes with the text that
is passed over and the text where the search goes on. -/
inductive Bracket where
  | closing (after : List Char)
  | opening (passed after : List Char)
  | selfClosing (passed after : List Char)
  | other
  deriving DecidableEq, Repr

namespace Bracket

def sighted (tag s : List Char) : Bracket :=
  match after? (closingTag tag) ('<' :: s) with
  | some after => closing after
  | none =>
    if opensTag tag ('<' :: s) then
      match tagBody? s with
      | some (body, after) =>
        if selfCloses body then selfClosing ('<' :: body ++ ['>']) after
        else opening ('<' :: body ++ ['>']) after
      | none => opening ['<'] s
    else other

def goOn (tag : List Char) (depth : Nat) (s : List Char) :
    Bracket → Option (List Char × List Char)
  | closing after =>
    if depth = 0 then some ([], after)
    else prepend (closingTag tag) (readContent? tag (depth - 1) after)
  | opening passed after => prepend passed (readContent? tag (depth + 1) after)
  | selfClosing passed after => prepend passed (readContent? tag depth after)
  | other => prepend ['<'] (readContent? tag depth s)

def isOpening : Bracket → Bool
  | opening _ _ => true
  | _ => false

def isSelfClosing : Bracket → Bool
  | selfClosing _ _ => true
  | _ => false

section
variable {tag s : List Char} (hclose : after? (closingTag tag) ('<' :: s) = none)
include hclose

theorem sighted_tag (hopen : opensTag tag ('<' :: s)) {body after : List Char}
    (hbody : tagBody? s = some (body, after)) :
    sighted tag s =
      if selfCloses body then selfClosing ('<' :: body ++ ['>']) after
      else opening ('<' :: body ++ ['>']) after := by
  simp [sighted, hclose, hopen, hbody]

theorem sighted_unended (hopen : opensTag tag ('<' :: s)) (hbody : tagBody? s = none) :
    sighted tag s = opening ['<'] s := by
  simp [sighted, hclose, hopen, hbody]

theorem sighted_other (hopen : ¬opensTag tag ('<' :: s)) : sighted tag s = other := by
  simp [sighted, hclose, hopen]

end

end Bracket

/-- A search goes on as the bracket that it comes to tells. -/
theorem readContent?_bracket (tag : List Char) (depth : Nat) (s : List Char) :
    readContent? tag depth ('<' :: s) = (Bracket.sighted tag s).goOn tag depth s := by
  rw [readContent?, if_pos rfl]
  split
  next after hclose =>
    have hsighted : Bracket.sighted tag s = .closing after := by simp [Bracket.sighted, hclose]
    rw [hsighted]
    rfl
  next hclose =>
    split
    next hopen =>
      split
      next body after hbody =>
        rw [Bracket.sighted_tag hclose hopen hbody]
        cases selfCloses body <;> simp [Bracket.goOn, prepend]
      next hbody =>
        rw [Bracket.sighted_unended hclose hopen hbody]
        rfl
    next hopen =>
      rw [Bracket.sighted_other hclose hopen]
      rfl

/-- Whether the text behind an opening angle bracket is read as an element of this name, by a tag
that closes itself or by one that does not. -/
def ReadsElement (name : List Char) (closesItself : Bool) (s : List Char) : Prop :=
  ∃ attributes content rest body after,
    Token.element? s = some (.element name attributes content, rest) ∧
      tagBody? s = some (body, after) ∧ selfCloses body = closesItself

/-- Whether a tag of this name begins behind an opening angle bracket and nothing ends it. -/
def NeverEnds (name s : List Char) : Prop :=
  tagName? s = some name ∧ tagBody? s = none

def NameEnds (s : List Char) : Prop :=
  ∃ name rest, tagName? s = some name ∧ s = name ++ rest ∧ EndsName rest

theorem readsElement_iff {name s : List Char} {closesItself : Bool} :
    ReadsElement name closesItself s ↔
      tagName? s = some name ∧
        ∃ body after, tagBody? s = some (body, after) ∧ selfCloses body = closesItself := by
  constructor
  · rintro ⟨attributes, content, rest, body, after, helement, hbody, hself⟩
    refine ⟨?_, body, after, hbody, hself⟩
    cases hname : tagName? s with
    | none => simp [Token.element?, hname] at helement
    | some name' =>
      rw [Token.element?, hname, hbody] at helement
      dsimp only at helement
      split at helement
      · simp_all
      · split at helement <;> simp_all
  · rintro ⟨hname, body, after, hbody, hself⟩
    cases hclosing : selfCloses body with
    | true =>
      exact ⟨_, _, _, body, after, Token.element?_of_selfCloses hname hbody hclosing, hbody, hself⟩
    | false =>
      cases hcontent : content? name after with
      | none =>
        exact ⟨_, _, _, body, after,
          Token.element?_of_content?_eq_none hname hbody hclosing hcontent, hbody, hself⟩
      | some p =>
        exact ⟨_, _, _, body, after, Token.element?_of_content? hname hbody hclosing hcontent,
          hbody, hself⟩

/-- Where a tag has an end, an element is read there just if the tag closes itself as is said. -/
theorem readsElement_of_tagBody? {name s body after : List Char} {closesItself : Bool}
    (hname : tagName? s = some name) (hbody : tagBody? s = some (body, after)) :
    ReadsElement name closesItself s ↔ selfCloses body = closesItself := by
  rw [readsElement_iff]
  constructor
  · rintro ⟨-, body', after', hbody', hself⟩
    obtain ⟨rfl, rfl⟩ := Prod.mk.inj (Option.some.inj (hbody.symm.trans hbody'))
    exact hself
  · intro hself
    exact ⟨hname, body, after, hbody, hself⟩

/-- Wherever a well-formed tag ends, an element of its name is read. -/
theorem OpeningTag.WellFormed.readsElement {t : OpeningTag} (h : t.WellFormed)
    (rest : List Char) : ReadsElement t.name t.closesItself (t.body ++ '>' :: rest) :=
  (readsElement_of_tagBody? (h.tagName?_body rest)
    (h.passedInTag_body.tagBody?_close rest)).mpr h.selfCloses_body

variable {tag : List Char} (htag : IsTagName tag)
include htag

/-- What the search takes for a tag of its name begins with that name for the reader as well, and
is no closing tag. -/
theorem tagName?_of_opensTag {s : List Char} (h : opensTag tag ('<' :: s)) :
    tagName? s = some tag ∧ NameEnds s ∧ after? (closingTag tag) ('<' :: s) = none := by
  rw [opensTag_of_ne_nil htag.ne_nil] at h
  split at h
  next c r hafter =>
    have hs := after?_eq_some_iff.mp hafter
    have hends : EndsName (c :: r) := ⟨c, r, rfl, by simpa [or_assoc] using h⟩
    have hname : tagName? s = some tag := hs ▸ tagName?_append htag hends
    refine ⟨hname, ⟨tag, c :: r, hname, hs.symm, hends⟩, ?_⟩
    cases tag with
    | nil => exact htag.elim
    | cons d t =>
      subst hs
      exact after?_closingTag_of_ne (ne_of_isNameChar
        (isNameChar_attribute (isNameChar_of_isAlpha htag.1)) (by decide)) _ _
  next => cases h

theorem opensTag_of_nameEnds {s : List Char} (hname : tagName? s = some tag) (hends : NameEnds s) :
    opensTag tag ('<' :: s) := by
  obtain ⟨name, rest, hname', rfl, hrest⟩ := hends
  obtain rfl := Option.some.inj (hname.symm.trans hname')
  rw [opensTag_append (.inr htag) htag hrest, decide_eq_true rfl]

omit htag in
theorem sighted_of_not_opensTag {s : List Char} (h : ¬opensTag tag ('<' :: s)) :
    (Bracket.sighted tag s).isOpening = false ∧ (Bracket.sighted tag s).isSelfClosing = false := by
  rw [Bracket.sighted]
  split
  · exact ⟨rfl, rfl⟩
  · rw [if_neg h]
    exact ⟨rfl, rfl⟩

theorem isOpening_sighted_iff {s : List Char} :
    (Bracket.sighted tag s).isOpening ↔
      opensTag tag ('<' :: s) ∧ (ReadsElement tag false s ∨ NeverEnds tag s) := by
  by_cases hopen : opensTag tag ('<' :: s)
  · obtain ⟨hname, -, hclose⟩ := tagName?_of_opensTag htag hopen
    cases hbody : tagBody? s with
    | none =>
      rw [Bracket.sighted_unended hclose hopen hbody]
      simp [Bracket.isOpening, hopen, NeverEnds, hname, hbody]
    | some p =>
      rw [Bracket.sighted_tag hclose hopen hbody, readsElement_of_tagBody? hname hbody]
      cases selfCloses p.1 <;> simp [Bracket.isOpening, hopen, NeverEnds, hbody]
  · simp [(sighted_of_not_opensTag hopen).1, hopen]

theorem isSelfClosing_sighted_iff {s : List Char} :
    (Bracket.sighted tag s).isSelfClosing ↔
      opensTag tag ('<' :: s) ∧ ReadsElement tag true s := by
  by_cases hopen : opensTag tag ('<' :: s)
  · obtain ⟨hname, -, hclose⟩ := tagName?_of_opensTag htag hopen
    cases hbody : tagBody? s with
    | none =>
      rw [Bracket.sighted_unended hclose hopen hbody]
      simp [Bracket.isSelfClosing, readsElement_iff, hbody]
    | some p =>
      rw [Bracket.sighted_tag hclose hopen hbody, readsElement_of_tagBody? hname hbody]
      cases selfCloses p.1 <;> simp [Bracket.isSelfClosing, hopen]
  · simp [(sighted_of_not_opensTag hopen).2, hopen]

/-- A search goes on as the bracket that it comes to tells. What leads it a level deeper is read as
an element whose tag does not close itself, or never ends, and what it passes over as closing itself
is read so. Where the name ends as the search has it, it misses nothing of this. -/
theorem sighted_readsElement (s : List Char) :
    (∀ depth, readContent? tag depth ('<' :: s) = (Bracket.sighted tag s).goOn tag depth s) ∧
      ((Bracket.sighted tag s).isOpening → ReadsElement tag false s ∨ NeverEnds tag s) ∧
      ((Bracket.sighted tag s).isSelfClosing → ReadsElement tag true s) ∧
      (NameEnds s →
        ((Bracket.sighted tag s).isOpening ↔ ReadsElement tag false s ∨ NeverEnds tag s) ∧
        ((Bracket.sighted tag s).isSelfClosing ↔ ReadsElement tag true s)) := by
  refine ⟨fun depth => readContent?_bracket tag depth s,
    fun h => ((isOpening_sighted_iff htag).mp h).2,
    fun h => ((isSelfClosing_sighted_iff htag).mp h).2, fun hends => ⟨?_, ?_⟩⟩
  · rw [isOpening_sighted_iff htag]
    refine ⟨fun h => h.2, fun h => ⟨opensTag_of_nameEnds htag ?_ hends, h⟩⟩
    rcases h with h | h
    · exact (readsElement_iff.mp h).1
    · exact h.1
  · rw [isSelfClosing_sighted_iff htag]
    exact ⟨fun h => h.2, fun h =>
      ⟨opensTag_of_nameEnds htag (readsElement_iff.mp h).1 hends, h⟩⟩

omit htag in
theorem sighted_card :
    IsTagName OpeningTag.card.name ∧ NameEnds (OpeningTag.card.body ++ ['>']) ∧
      (Bracket.sighted OpeningTag.card.name (OpeningTag.card.body ++ ['>'])).isSelfClosing := by
  have hcard := OpeningTag.wellFormed_card
  have hbody : OpeningTag.card.body ++ ['>'] =
      OpeningTag.card.name ++ (OpeningTag.card.attributeText ++ ['/', '>']) := by
    rw [OpeningTag.body, List.append_assoc, List.append_assoc]
    rfl
  have hends : NameEnds (OpeningTag.card.body ++ ['>']) :=
    ⟨_, _, hcard.tagName?_body [], hbody, ' ', _, rfl, .inl (by decide)⟩
  exact ⟨hcard.isTagName, hends,
    ((sighted_readsElement hcard.isTagName _).2.2.2 hends).2.mpr (hcard.readsElement [])⟩

/-- A tag with a spread right behind its name. -/
def spreadTag : OpeningTag :=
  ⟨"div".toList, [.spread [] ['p']], [], false⟩

omit htag in
theorem wellFormed_spreadTag : spreadTag.WellFormed := by
  refine ⟨by decide, List.forall_mem_singleton.mpr ?_, by decide⟩
  exact ⟨by decide, OpeningTag.groupText_of_plain (by decide)⟩

omit htag in
/-- A spread right behind the name hides a tag from the search, but not from the reader; a tag that
never ends is none for the reader, but leads the search a level deeper. -/
theorem sighted_spread :
    ¬((Bracket.sighted "div".toList "div\x7b...p\x7d>x</div>".toList).isOpening ↔
        ReadsElement "div".toList false "div\x7b...p\x7d>x</div>".toList) ∧
      ¬((Bracket.sighted "div".toList "div a=\"x</div>".toList).isOpening ↔
        ReadsElement "div".toList false "div a=\"x</div>".toList) := by
  have hread : ReadsElement "div".toList false "div\x7b...p\x7d>x</div>".toList :=
    wellFormed_spreadTag.readsElement "x</div>".toList
  have hunended : tagBody? "div a=\"x</div>".toList = none := by decide +kernel
  constructor
  · intro h
    have hopening := ((isOpening_sighted_iff (by decide)).mp (h.mpr hread)).1
    exact absurd hopening (by decide)
  · intro h
    have hname : IsTagName "div".toList := by decide
    have hopening := (isOpening_sighted_iff hname).mpr ⟨by decide, .inr ⟨by decide, hunended⟩⟩
    obtain ⟨-, body, after, hended, -⟩ := readsElement_iff.mp (h.mp hopening)
    exact absurd (hunended.symm.trans hended) nofun

end StaticPreview.Markup
