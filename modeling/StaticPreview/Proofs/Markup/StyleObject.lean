import StaticPreview.Proofs.Markup.Declaration
import StaticPreview.Proofs.Markup.Group

/-! # Style objects as they are written

An object is a list of entries, each with a literal or some other text as its value. The literals
are what the style is made of. A value of another form stays out of it unless the search for
declarations comes upon a label and a mark there.
-/
namespace StaticPreview.Markup
open Text

inductive StyleValue where
  | literal (mark : Char) (text : List Char)
  | other (text : List Char)

namespace StyleValue

def written : StyleValue → List Char
  | literal mark text => mark :: text ++ [mark]
  | other text => text

def WellFormed : StyleValue → Prop
  | literal mark text => IsMark mark ∧ mark ∉ text
  | other _ => True

instance : DecidablePred WellFormed
  | literal mark text => inferInstanceAs (Decidable (IsMark mark ∧ mark ∉ text))
  | other _ => .isTrue trivial

/-- Whether a value is a literal or has no quotation marks, as no number has. -/
def Plain : StyleValue → Prop
  | literal _ _ => True
  | other text => ∀ c ∈ text, ¬IsMark c

instance : DecidablePred Plain
  | literal _ _ => .isTrue trivial
  | other text => inferInstanceAs (Decidable (∀ c ∈ text, ¬IsMark c))

end StyleValue

structure StyleEntry where
  gap : List Char
  label : Label
  value : StyleValue
  behind : List Char

namespace StyleEntry

def text (e : StyleEntry) : List Char :=
  e.label.written ++ e.value.written

def written (e : StyleEntry) : List Char :=
  e.gap ++ e.text ++ e.behind

theorem length_text_pos (e : StyleEntry) : 0 < e.text.length := by
  simp only [text, Label.written, List.length_append, List.length_cons]
  omega

structure WellFormed (e : StyleEntry) : Prop where
  gap : AllBlank e.gap
  label : e.label.WellFormed
  value : e.value.WellFormed
  behind : AllBlank e.behind

instance : DecidablePred WellFormed := fun e =>
  decidable_of_iff (AllBlank e.gap ∧ e.label.WellFormed ∧ e.value.WellFormed ∧ AllBlank e.behind)
    ⟨fun ⟨hgap, hlabel, hvalue, hbehind⟩ => ⟨hgap, hlabel, hvalue, hbehind⟩,
      fun h => ⟨h.gap, h.label, h.value, h.behind⟩⟩

def pair? (e : StyleEntry) : Option (List Char × List Char) :=
  match e.value with
  | .literal _ text => some (e.label.key, text)
  | .other _ => none

end StyleEntry

/-- What stands behind an entry: the entries after it, with a comma before each, and the end of the
object. -/
def textBehind (closing : List Char) (more : List StyleEntry) : List Char :=
  more.flatMap (fun e => ',' :: e.written) ++ closing

/-- The declarations of the literals, each with the text of the object from its key on. -/
def declaredIn (closing : List Char) : List StyleEntry → List (List Char × Declaration)
  | [] => []
  | e :: more =>
    match e.value with
    | .literal _ text =>
      (e.text ++ (e.behind ++ textBehind closing more),
        ⟨Declaration.propertyOf e.label.key, text⟩) :: declaredIn closing more
    | .other _ => declaredIn closing more

/-- Whether no declaration begins in an entry whose value is not a literal. Its label with the
value may be one, or there may be a label and a mark inside of the value. -/
def QuietIn (closing : List Char) : List StyleEntry → Prop
  | [] => True
  | e :: more =>
    (∀ text, e.value = .other text →
      ¬Declaration.Announces (e.behind ++ textBehind closing more) e.text) ∧ QuietIn closing more

structure StyleObject where
  entries : List StyleEntry
  /-- The blanks in front of the closing brace, and the comma after the last entry, if any. -/
  tail : List Char

namespace StyleObject

def closing (o : StyleObject) : List Char :=
  o.tail ++ ['\x7d']

def written (o : StyleObject) : List Char :=
  match o.entries with
  | [] => '\x7b' :: o.closing
  | e :: more => '\x7b' :: e.written ++ textBehind o.closing more

structure WellFormed (o : StyleObject) : Prop where
  entries : ∀ e ∈ o.entries, e.WellFormed
  tail : ∀ c ∈ o.tail, isBlank c ∨ c = ','

instance : DecidablePred WellFormed := fun o =>
  decidable_of_iff ((∀ e ∈ o.entries, e.WellFormed) ∧ ∀ c ∈ o.tail, isBlank c ∨ c = ',')
    ⟨fun h => ⟨h.1, h.2⟩, fun h => ⟨h.entries, h.tail⟩⟩

def declared (o : StyleObject) : List (List Char × Declaration) :=
  declaredIn o.closing o.entries

def Quiet (o : StyleObject) : Prop :=
  QuietIn o.closing o.entries

/-- The keys with a literal, and the literals. -/
def pairs (o : StyleObject) : List (List Char × List Char) :=
  o.entries.filterMap StyleEntry.pair?

end StyleObject

def declarationText (p : List Char × List Char) : List Char :=
  Declaration.propertyOf p.1 ++ [':', ' '] ++ p.2

theorem css_pair (p : List Char × List Char) :
    Declaration.css ⟨Declaration.propertyOf p.1, p.2⟩ = declarationText p := rfl

def style? (pairs : List (List Char × List Char)) : Option (List Char) :=
  if pairs = [] then none else some ([';', ' '].intercalate (pairs.map declarationText))

theorem endsValue_blanks_append {gap rest : List Char} (hgap : AllBlank gap)
    (h : Declaration.EndsValue rest) : Declaration.EndsValue (gap ++ rest) := by
  obtain ⟨gap', c, more, hgap', hc, rfl⟩ := h
  exact ⟨gap ++ gap', c, more, List.forall_mem_append.mpr ⟨hgap, hgap'⟩, hc, by simp⟩

theorem endsValue_closing {tail : List Char} (h : ∀ c ∈ tail, isBlank c ∨ c = ',') :
    Declaration.EndsValue (tail ++ ['\x7d']) := by
  induction tail with
  | nil => exact ⟨[], '\x7d', [], nofun, .inr rfl, rfl⟩
  | cons c tail ih =>
    obtain ⟨hc, htail⟩ := List.forall_mem_cons.mp h
    rcases hc with hc | rfl
    · have hgap : AllBlank [c] := by simpa [AllBlank] using hc
      exact @endsValue_blanks_append [c] _ hgap (ih htail)
    · exact ⟨[], ',', tail ++ ['\x7d'], nofun, .inl rfl, rfl⟩

theorem endsValue_textBehind {closing : List Char} (h : Declaration.EndsValue closing)
    (more : List StyleEntry) : Declaration.EndsValue (textBehind closing more) := by
  cases more with
  | nil => exact h
  | cons e more =>
    exact ⟨[], ',', e.written ++ textBehind closing more, nofun, .inl rfl, by simp [textBehind]⟩

open Declaration

theorem sites_entry_append {e : StyleEntry} (h : e.WellFormed) (rest : List Char) :
    sites (e.written ++ rest) = sites (e.text ++ (e.behind ++ rest)) := by
  rw [StyleEntry.written, List.append_assoc, List.append_assoc, sites_blanks_append h.gap]

theorem sites_textBehind_cons (closing : List Char) {e : StyleEntry} (h : e.WellFormed)
    (more : List StyleEntry) : sites (textBehind closing (e :: more)) =
      sites (e.text ++ (e.behind ++ textBehind closing more)) := by
  have hcomma : textBehind closing (e :: more) =
      [','] ++ (e.written ++ textBehind closing more) := by
    simp [textBehind]
  rw [hcomma, sites_append_of_not_isKeyStart (by decide), sites_entry_append h]

/-- An entry with a literal is a declaration. -/
theorem sites_literal_entry {e : StyleEntry} (h : e.WellFormed) {mark : Char} {text : List Char}
    (hvalue : e.value = .literal mark text) (rest : List Char) :
    sites (e.text ++ (e.behind ++ rest)) =
      (e.text ++ (e.behind ++ rest), ⟨propertyOf e.label.key, text⟩) :: sites rest := by
  have hwell := h.value
  rw [hvalue] at hwell
  obtain ⟨hmark, htext⟩ := hwell
  have hwritten : e.text ++ (e.behind ++ rest) =
      e.label.written ++ mark :: (text ++ mark :: (e.behind ++ rest)) := by
    simp [StyleEntry.text, hvalue, StyleValue.written]
  rw [hwritten, sites_literal_append h.label hmark htext, sites_blanks_append h.behind]

theorem isSuffix_of_mem_declaredIn {closing : List Char} {entries : List StyleEntry}
    {p : List Char × Declaration} (hp : p ∈ declaredIn closing entries) :
    p.1 <:+ textBehind closing entries := by
  induction entries with
  | nil => cases hp
  | cons e more ih =>
    have hcons : textBehind closing (e :: more) =
        (',' :: e.gap) ++ (e.text ++ (e.behind ++ textBehind closing more)) := by
      simp [textBehind, StyleEntry.written]
    have hmore : textBehind closing more <:+ textBehind closing (e :: more) :=
      ⟨',' :: e.written, by simp [textBehind]⟩
    rw [declaredIn] at hp
    split at hp
    · rcases List.mem_cons.mp hp with rfl | hp
      · rw [hcons]
        exact List.suffix_append _ _
      · exact (ih hp).trans hmore
    · exact (ih hp).trans hmore

theorem sites_closing {tail : List Char} (h : ∀ c ∈ tail, isBlank c ∨ c = ',') :
    sites (tail ++ ['\x7d']) = [] := by
  have htail : ∀ c ∈ tail, isKeyStart c = false := by
    intro c hc
    rcases h c hc with hblank | rfl
    · exact not_isKeyStart_of_isBlank hblank
    · decide
  rw [sites_append_of_not_isKeyStart htail, sites_cons_of_none (by decide), sites_nil]

section
variable {closing : List Char} (hend : EndsValue closing)
include hend

/-- Where nothing but literals announces a declaration, the literals are what is found. -/
theorem sites_textBehind_of_quiet (hclosing : sites closing = []) {entries : List StyleEntry}
    (h : ∀ e ∈ entries, e.WellFormed) (hquiet : QuietIn closing entries) :
    sites (textBehind closing entries) = declaredIn closing entries := by
  induction entries with
  | nil => exact hclosing
  | cons e more ih =>
    obtain ⟨he, hmore⟩ := List.forall_mem_cons.mp h
    obtain ⟨hannounces, hquiet⟩ := hquiet
    have hrest := endsValue_blanks_append he.behind (endsValue_textBehind hend more)
    rw [sites_textBehind_cons closing he, declaredIn]
    cases hvalue : e.value with
    | literal mark text => rw [sites_literal_entry he hvalue, ih hmore hquiet]
    | other text =>
      rw [sites_append_of_not_announces hrest (hannounces text hvalue),
        sites_blanks_append he.behind, ih hmore hquiet]

/-- A declaration that begins in another value is found at a place where no literal is declared. -/
theorem quietIn_of_sites_subset {entries : List StyleEntry} (h : ∀ e ∈ entries, e.WellFormed)
    (hsites : ∀ p ∈ sites (textBehind closing entries), p ∈ declaredIn closing entries) :
    QuietIn closing entries := by
  induction entries with
  | nil => trivial
  | cons e more ih =>
    obtain ⟨he, hmore⟩ := List.forall_mem_cons.mp h
    have hrest := endsValue_blanks_append he.behind (endsValue_textBehind hend more)
    rw [sites_textBehind_cons closing he, declaredIn] at hsites
    cases hvalue : e.value with
    | literal mark text =>
      rw [sites_literal_entry he hvalue] at hsites
      simp only [hvalue] at hsites
      refine ⟨by simp [hvalue], ih hmore fun p hp => ?_⟩
      rcases List.mem_cons.mp (hsites p (List.mem_cons_of_mem _ hp)) with rfl | hdeclared
      · have hlength := (isSuffix_of_mem_sites hp).length_le
        have hpos := e.length_text_pos
        simp only [List.length_append] at hlength
        omega
      · exact hdeclared
    | other text =>
      simp only [hvalue] at hsites
      have hannounces : ¬Announces (e.behind ++ textBehind closing more) e.text := by
        intro hannounces
        obtain ⟨p, hp, hlength⟩ := exists_mem_sites_of_announces hrest hannounces
        have hle := (isSuffix_of_mem_declaredIn (hsites p hp)).length_le
        rw [List.length_append] at hlength
        omega
      refine ⟨fun _ _ => hannounces, ih hmore ?_⟩
      rwa [sites_append_of_not_announces hrest hannounces, sites_blanks_append he.behind] at hsites

end

theorem map_snd_declaredIn (closing : List Char) (entries : List StyleEntry) :
    (declaredIn closing entries).map Prod.snd =
      (entries.filterMap StyleEntry.pair?).map fun p => ⟨propertyOf p.1, p.2⟩ := by
  induction entries with
  | nil => rfl
  | cons e more ih =>
    rw [declaredIn, List.filterMap_cons, StyleEntry.pair?]
    cases e.value with
    | literal mark text => simp only [List.map_cons, ih]
    | other text => exact ih

/-- A value without quotation marks has no literal. -/
theorem quietIn_of_plain {closing : List Char} {entries : List StyleEntry}
    (h : ∀ e ∈ entries, e.WellFormed) (hplain : ∀ e ∈ entries, e.value.Plain) :
    QuietIn closing entries := by
  induction entries with
  | nil => trivial
  | cons e more ih =>
    obtain ⟨he, hmore⟩ := List.forall_mem_cons.mp h
    obtain ⟨hvalue, hplain⟩ := List.forall_mem_cons.mp hplain
    refine ⟨fun text htext => not_announces_of_not_isMark ?_, ih hmore hplain⟩
    rw [htext] at hvalue
    intro c hc
    rw [StyleEntry.text, htext] at hc
    rcases List.mem_append.mp hc with hc | hc
    · exact not_isMark_of_mem_label he.label hc
    · exact hvalue c hc

namespace StyleObject
variable {o : StyleObject}

/-- The search passes over the opening brace as it does over a comma. -/
theorem sites_written (h : o.WellFormed) :
    sites o.written = sites (textBehind o.closing o.entries) := by
  have hentries := h.entries
  rw [written]
  cases hlist : o.entries with
  | nil => exact sites_cons_of_none (by rfl)
  | cons e more =>
    have he : e.WellFormed := hentries e (by simp [hlist])
    rw [sites_textBehind_cons o.closing he, ← sites_entry_append he]
    exact sites_cons_of_none (by rfl)

theorem sites_of_quiet (h : o.WellFormed) (hquiet : o.Quiet) : sites o.written = o.declared := by
  rw [sites_written h]
  exact sites_textBehind_of_quiet (endsValue_closing h.tail) (sites_closing h.tail) h.entries hquiet

theorem inlineStyle?_of_quiet (h : o.WellFormed) (hquiet : o.Quiet) :
    inlineStyle? o.written = style? o.pairs := by
  have hparse : parse o.written = o.pairs.map fun p => ⟨propertyOf p.1, p.2⟩ := by
    rw [parse_eq, sites_of_quiet h hquiet, declared, map_snd_declaredIn]
    rfl
  rw [inlineStyle?, hparse, style?]
  cases o.pairs with
  | nil => rfl
  | cons p more => simp [css_pair, Function.comp_def]

/-- In an object of literals and of values without quotation marks, the declarations are found at
the keys of the literals and nowhere else, and the style is made of these pairs, in order. -/
theorem inlineStyle?_of_plain (h : o.WellFormed) (hplain : ∀ e ∈ o.entries, e.value.Plain) :
    sites o.written = o.declared ∧ inlineStyle? o.written = style? o.pairs := by
  have hquiet : o.Quiet := quietIn_of_plain h.entries hplain
  exact ⟨sites_of_quiet h hquiet, inlineStyle?_of_quiet h hquiet⟩

/-- A number, a literal that holds pairs, and the key of a vendor. -/
def panel : StyleObject :=
  ⟨[⟨[' '], ⟨"padding".toList, [], [' ']⟩, .other "8.5e1".toList, []⟩,
    ⟨[' '], ⟨"content".toList, [], [' ']⟩, .literal '"' "a: 'b', c".toList, []⟩,
    ⟨['\n'], ⟨"msTransform".toList, [' '], []⟩, .literal '\'' "none".toList, [' ']⟩], []⟩

theorem inlineStyle?_panel :
    panel.WellFormed ∧ (∀ e ∈ panel.entries, e.value.Plain) ∧
      inlineStyle? "\x7b padding: 8.5e1, content: \"a: 'b', c\",\nmsTransform :'none' \x7d".toList =
        some "content: a: 'b', c; -ms-transform: none".toList := by
  have hwell : panel.WellFormed := by decide
  have hplain : ∀ e ∈ panel.entries, e.value.Plain := by decide
  have hpairs : style? panel.pairs = some "content: a: 'b', c; -ms-transform: none".toList := by
    decide
  have hwritten : panel.written =
      "\x7b padding: 8.5e1, content: \"a: 'b', c\",\nmsTransform :'none' \x7d".toList := by decide
  obtain ⟨-, hstyle⟩ := inlineStyle?_of_plain hwell hplain
  rw [hwritten, hpairs] at hstyle
  exact ⟨hwell, hplain, hstyle⟩

/-- Each declaration that is found stands at a key whose value is a literal, and is that key with
that literal, if and only if no declaration begins in an entry of another kind. The style then is
made of the keys with a literal, in order. -/
theorem sites_subset_declared_iff (h : o.WellFormed) :
    parse o.written = (sites o.written).map Prod.snd ∧
      ((∀ p ∈ sites o.written, p ∈ o.declared) ↔ o.Quiet) ∧
      (o.Quiet → inlineStyle? o.written = style? o.pairs) := by
  refine ⟨parse_eq o.written, ⟨fun hsites => ?_, fun hquiet p hp => ?_⟩, inlineStyle?_of_quiet h⟩
  · rw [sites_written h] at hsites
    exact quietIn_of_sites_subset (endsValue_closing h.tail) h.entries hsites
  · rwa [sites_of_quiet h hquiet] at hp

/-- A call with literals in it, which none of its labels announces. -/
def shade : StyleObject :=
  ⟨[⟨[' '], ⟨"margin".toList, [], [' ']⟩, .other "pick(\"x\", 'y')".toList, []⟩,
    ⟨[' '], ⟨"color".toList, [], [' ']⟩, .literal '\'' "red".toList, []⟩], [',', ' ']⟩

theorem inlineStyle?_shade :
    shade.WellFormed ∧ (∀ p ∈ sites shade.written, p ∈ shade.declared) ∧ shade.Quiet ∧
      inlineStyle? "\x7b margin: pick(\"x\", 'y'), color: 'red', \x7d".toList =
        some "color: red".toList := by
  have hwell : shade.WellFormed := by decide
  have hsites : sites shade.written = shade.declared := by decide +kernel
  have hpairs : style? shade.pairs = some "color: red".toList := by decide
  have hwritten : shade.written =
      "\x7b margin: pick(\"x\", 'y'), color: 'red', \x7d".toList := by decide
  obtain ⟨-, hiff, hstyle⟩ := sites_subset_declared_iff hwell
  have hsubset : ∀ p ∈ sites shade.written, p ∈ shade.declared := fun p hp => by rwa [hsites] at hp
  have hquiet := hiff.mp hsubset
  rw [hwritten, hpairs] at hstyle
  exact ⟨hwell, hsubset, hquiet, hstyle hquiet⟩

def choice : StyleObject :=
  ⟨[⟨[' '], ⟨"color".toList, [], [' ']⟩, .other "active ? on : 'red'".toList, [' ']⟩], []⟩

/-- The name before the colon is taken for a key. -/
theorem inlineStyle?_choice :
    choice.WellFormed ∧ GroupText "active ? on : 'red'".toList ∧ choice.declared = [] ∧
      inlineStyle? "\x7b color: active ? on : 'red' \x7d".toList = some "on: red".toList ∧
      ¬ ∀ p ∈ sites choice.written, p ∈ choice.declared := by
  have hwell : choice.WellFormed := by decide
  have hred : LiteralText '\'' ['r', 'e', 'd'] := .of_plain (by decide)
  have hvalue : GroupText ("active ? on : ".toList ++ ('\'' :: ['r', 'e', 'd'] ++ ['\''])) :=
    .plain_append (by decide) (.literal (by decide) hred .nil)
  have hsites : sites choice.written =
      [("on : 'red' \x7d".toList, ⟨"on".toList, "red".toList⟩)] := by decide +kernel
  refine ⟨hwell, hvalue, rfl, by decide +kernel, fun h => ?_⟩
  rw [hsites] at h
  exact List.not_mem_nil (h _ List.mem_cons_self)

end StyleObject

end StaticPreview.Markup
