import StaticPreview.Json.Record
import StaticPreview.Proofs.Json.Strings

/-! # Values that are read again

A value is written on one line or with a line for each of its parts. Either text is a value with
blanks between its parts, and every such text is read as the value, whatever goes on behind it.
Numbers are written as they are given and may be anything, so there are none in the values here.
-/
namespace StaticPreview.Json
open Text Reader

namespace Value
variable {σ τ : Type}

mutual

def map (f : σ → τ) : Value σ → Value τ
  | null => null
  | boolean b => boolean b
  | number literal => number literal
  | string s => string (f s)
  | array items => array (mapItems f items)
  | object fields => object (mapFields f fields)

def mapItems (f : σ → τ) : List (Value σ) → List (Value τ)
  | [] => []
  | v :: more => v.map f :: mapItems f more

def mapFields (f : σ → τ) : List (σ × Value σ) → List (τ × Value τ)
  | [] => []
  | (name, v) :: more => (f name, v.map f) :: mapFields f more

end

mutual

def Numberless : Value σ → Prop
  | number _ => False
  | array items => NumberlessItems items
  | object fields => NumberlessFields fields
  | _ => True

def NumberlessItems : List (Value σ) → Prop
  | [] => True
  | v :: more => v.Numberless ∧ NumberlessItems more

def NumberlessFields : List (σ × Value σ) → Prop
  | [] => True
  | (_, v) :: more => v.Numberless ∧ NumberlessFields more

end

theorem mapItems_eq (f : σ → τ) (items : List (Value σ)) :
    mapItems f items = items.map (map f) := by
  induction items with
  | nil => rfl
  | cons v more ih => rw [mapItems, ih, List.map_cons]

theorem mapFields_eq (f : σ → τ) (fields : List (σ × Value σ)) :
    mapFields f fields = fields.map fun field => (f field.1, field.2.map f) := by
  induction fields with
  | nil => rfl
  | cons field more ih => rw [mapFields, ih, List.map_cons]

/-- Whether something that holds of the parts of a value without numbers holds of the value. -/
structure Inductive (p : Value σ → Prop) : Prop where
  null : p null
  boolean : ∀ b, p (boolean b)
  string : ∀ s, p (string s)
  array : ∀ items, (∀ v ∈ items, p v) → p (array items)
  object : ∀ fields, (∀ f ∈ fields, p f.2) → p (object fields)

mutual

theorem Inductive.holds {p : Value σ → Prop} (hp : Inductive p) :
    (v : Value σ) → v.Numberless → p v
  | .null, _ => hp.null
  | .boolean b, _ => hp.boolean b
  | .string s, _ => hp.string s
  | .array items, h => hp.array items (hp.holds_items items h)
  | .object fields, h => hp.object fields (hp.holds_fields fields h)

theorem Inductive.holds_items {p : Value σ → Prop} (hp : Inductive p) :
    (items : List (Value σ)) → NumberlessItems items → ∀ v ∈ items, p v
  | [], _ => by simp
  | v :: more, h => List.forall_mem_cons.mpr ⟨hp.holds v h.1, hp.holds_items more h.2⟩

theorem Inductive.holds_fields {p : Value σ → Prop} (hp : Inductive p) :
    (fields : List (σ × Value σ)) → NumberlessFields fields → ∀ f ∈ fields, p f.2
  | [], _ => by simp
  | (_, v) :: more, h => List.forall_mem_cons.mpr ⟨hp.holds v h.1, hp.holds_fields more h.2⟩

end

end Value

/-- A value in an array or behind the name of a field: its text and the blanks around it. -/
structure Part where
  before : List Char
  text : List Char
  after : List Char
  value : Value (List Char)

structure FieldPart where
  before : List Char
  name : List Char
  part : Part

def IsBlank (s : List Char) : Prop :=
  ∀ c ∈ s, isSpace c

theorem isBlank_nil : IsBlank [] := by simp [IsBlank]

theorem isBlank_lineStart (depth : Nat) : IsBlank (Value.lineStart depth) := by
  rw [Value.lineStart]
  refine List.forall_mem_cons.mpr ⟨by decide, fun c hc => ?_⟩
  rw [List.eq_of_mem_replicate hc]
  decide

namespace Part

def written (p : Part) : List Char :=
  p.before ++ p.text ++ p.after

def Spaced (p : Part) : Prop :=
  IsBlank p.before ∧ IsBlank p.after

end Part

namespace FieldPart

def written (p : FieldPart) : List Char :=
  p.before ++ quote p.name ++ ':' :: p.part.written

def field (p : FieldPart) : List Char × Value (List Char) :=
  (p.name, p.part.value)

def Spaced (p : FieldPart) : Prop :=
  IsBlank p.before ∧ p.part.Spaced

end FieldPart

/-- Whether a text is a value, with any blanks between its parts. -/
inductive IsText : Value (List Char) → List Char → Prop
  | null : IsText .null "null".toList
  | boolean (b : Bool) : IsText (.boolean b) (Value.boolean b).compact
  | string (s : List Char) : IsText (.string s) (quote s)
  | array (parts : List Part) (hspaced : ∀ p ∈ parts, p.Spaced)
      (htext : ∀ p ∈ parts, IsText p.value p.text) :
      IsText (.array (parts.map Part.value))
        ('[' :: separated ',' Part.written parts ++ [']'])
  | object (parts : List FieldPart) (hspaced : ∀ p ∈ parts, p.Spaced)
      (htext : ∀ p ∈ parts, IsText p.part.value p.part.text) :
      IsText (.object (parts.map FieldPart.field))
        ('\x7b' :: separated ',' FieldPart.written parts ++ ['\x7d'])

def Tight (s : List Char) : Prop :=
  ∀ c ∈ s.head?, isSpace c = false

theorem tight_nil : Tight [] := by simp [Tight]

theorem tight_cons {c : Char} (h : isSpace c = false) (s : List Char) : Tight (c :: s) := by
  rintro d ⟨rfl⟩
  exact h

theorem IsText.tight {v : Value (List Char)} {t : List Char} (h : IsText v t) (rest : List Char) :
    Tight (t ++ rest) := by
  cases h with
  | null => exact tight_cons (by decide) _
  | boolean b => cases b <;> exact tight_cons (by decide) _
  | string s => exact tight_cons (by decide) _
  | array _ _ _ => exact tight_cons (by decide) _
  | object _ _ _ => exact tight_cons (by decide) _

theorem spaces_append {blank s : List Char} (hblank : IsBlank blank) (hs : Tight s) :
    spaces (blank ++ s) = some ((), s) := by
  have hrun : takeWhile isSpace (blank ++ s) =
      some ((blank ++ s).takeWhile isSpace, (blank ++ s).dropWhile isSpace) := rfl
  rw [spaces, bind_apply, hrun, takeWhile_append_of_head? hblank hs,
    dropWhile_append_of_head? hblank hs, Option.bind_some, pure_apply]

theorem spaces_of_tight {s : List Char} (h : Tight s) : spaces s = some ((), s) :=
  spaces_append isBlank_nil h

/-- Blanks on both sides of what a reader takes are passed over. -/
theorem spaced_append {α : Type} {r : Reader α} {a : α} {before text after rest : List Char}
    (hbefore : IsBlank before) (hafter : IsBlank after)
    (htext : Tight (text ++ (after ++ rest))) (hrest : Tight rest)
    (h : r (text ++ (after ++ rest)) = some (a, after ++ rest)) :
    spaced r (before ++ text ++ after ++ rest) = some (a, rest) := by
  simp only [List.append_assoc]
  rw [spaced, bind_apply, spaces_append hbefore htext, Option.bind_some, bind_apply, h,
    Option.bind_some, bind_apply, spaces_append hafter hrest, Option.bind_some, pure_apply]

def field (r : Reader Read) : Reader (Option (List Char) × Read) := do
  let name ← spaced string
  char ':'
  return (name, ← spaced r)

/-- What is in brackets, from behind the first of them. -/
def enclosed {α : Type} (r : Reader α) (close : Char) (make : List α → Read) : Reader Read := do
  let items ← sepBy r (char ',')
  spaces
  char close
  return make items

theorem valueWithin_succ (n : Nat) : valueWithin (n + 1) =
    ((do word "null".toList; return .null) <|>
    (do word "true".toList; return .boolean true) <|>
    (do word "false".toList; return .boolean false) <|>
    Value.string <$> string <|>
    (do char '['; enclosed (spaced (valueWithin n)) ']' .array) <|>
    (do char '\x7b'; enclosed (field (valueWithin n)) '\x7d' .object) <|>
    Value.number <$> number) := rfl

theorem word_apply (w s : List Char) : word w s = (after? w s).map fun r => ((), r) := rfl

theorem valueWithin_array {n : Nat} {s : List Char} {p : Read × List Char}
    (h : enclosed (spaced (valueWithin n)) ']' .array s = some p) :
    valueWithin (n + 1) ('[' :: s) = some p := by
  rw [valueWithin_succ]
  simp [orElse_apply, bind_apply, map_apply, word_apply, after?, string, char_cons, h]

theorem valueWithin_object {n : Nat} {s : List Char} {p : Read × List Char}
    (h : enclosed (field (valueWithin n)) '\x7d' .object s = some p) :
    valueWithin (n + 1) ('\x7b' :: s) = some p := by
  rw [valueWithin_succ]
  simp [orElse_apply, bind_apply, map_apply, word_apply, after?, string, char_cons, h]

theorem valueWithin_string (n : Nat) (s rest : List Char) :
    valueWithin (n + 1) (quote s ++ rest) = some (.string (some s), rest) := by
  have hstring := string_quote s rest
  obtain ⟨t, ht⟩ : ∃ t, quote s ++ rest = '"' :: t := ⟨_, rfl⟩
  rw [ht] at hstring ⊢
  rw [valueWithin_succ]
  simp [orElse_apply, map_apply, word_apply, after?, hstring]

theorem valueWithin_null (n : Nat) (rest : List Char) :
    valueWithin (n + 1) ("null".toList ++ rest) = some (.null, rest) := by
  rw [valueWithin_succ]
  simp [orElse_apply, map_apply, word_apply, after?]

theorem valueWithin_boolean (n : Nat) (b : Bool) (rest : List Char) :
    valueWithin (n + 1) ((Value.boolean b).compact ++ rest) = some (.boolean b, rest) := by
  rw [valueWithin_succ]
  cases b <;> simp [Value.compact, orElse_apply, map_apply, word_apply, after?]

theorem valueWithin_bracket (n : Nat) (rest : List Char) : valueWithin n (']' :: rest) = none := by
  cases n with
  | zero => rfl
  | succ n =>
    rw [valueWithin_succ]
    simp [orElse_apply, bind_apply, map_apply, word_apply, after?, string, char_cons, number,
      wholeDigits, ahead, optional?, satisfy_cons, pure_apply]

theorem spaced_valueWithin_bracket (n : Nat) (rest : List Char) :
    spaced (valueWithin n) (']' :: rest) = none := by
  rw [spaced, bind_apply, spaces_of_tight (tight_cons (by decide) rest), Option.bind_some,
    bind_apply, valueWithin_bracket, Option.bind_none]

theorem field_brace (r : Reader Read) (rest : List Char) : field r ('\x7d' :: rest) = none := by
  have hstring : string ('\x7d' :: rest) = none := by
    rw [string, bind_apply, char_cons, if_neg (by decide), Option.bind_none]
  rw [field, bind_apply, spaced, bind_apply, spaces_of_tight (tight_cons (by decide) rest),
    Option.bind_some, bind_apply, hstring, Option.bind_none, Option.bind_none]

/-- Items that are each read back are read back as a list, up to the closing mark. -/
theorem enclosed_separated {α β : Type} {r : Reader β} {f : α → List Char} {g : α → β}
    {xs : List α} {close : Char} {make : List β → Read} {rest : List Char}
    (h : ∀ y ∈ xs, ∀ s, Tight s → r (f y ++ s) = some (g y, s)) (hclose : isSpace close = false)
    (hcomma : close ≠ ',') (hnone : r (close :: rest) = none) :
    enclosed r close make (separated ',' f xs ++ close :: rest) = some (make (xs.map g), rest) := by
  have htight := tight_cons hclose rest
  rw [enclosed, bind_apply,
    sepBy_separated h (fun s => tight_cons (by decide) s) htight hcomma hnone, Option.bind_some,
    bind_apply, spaces_of_tight htight, Option.bind_some, bind_apply, char_cons, if_pos rfl,
    Option.bind_some, pure_apply]

/-- Whether a text is read as a value with any bound on the levels that its length meets. -/
def ReadsAs (t : List Char) (v : Value (List Char)) : Prop :=
  ∀ n, t.length < n → ∀ rest, valueWithin n (t ++ rest) = some (v.map some, rest)

theorem Part.spaced_valueWithin {p : Part} (hspaced : p.Spaced) (htext : IsText p.value p.text)
    (hreads : ReadsAs p.text p.value) {n : Nat} (hn : p.written.length < n) {s : List Char}
    (hs : Tight s) : spaced (valueWithin n) (p.written ++ s) = some (p.value.map some, s) := by
  have hlength : p.text.length < n := by
    rw [written, List.length_append, List.length_append] at hn
    omega
  exact spaced_append hspaced.1 hspaced.2 (htext.tight _) hs (hreads n hlength _)

theorem FieldPart.field_valueWithin {p : FieldPart} (hspaced : p.Spaced)
    (htext : IsText p.part.value p.part.text) (hreads : ReadsAs p.part.text p.part.value) {n : Nat}
    (hn : p.written.length < n) {s : List Char} (hs : Tight s) :
    Json.field (valueWithin n) (p.written ++ s) =
      some ((some p.name, p.part.value.map some), s) := by
  have hlength : p.part.written.length < n := by
    rw [written, List.length_append, List.length_cons] at hn
    omega
  have hwritten : p.written ++ s =
      p.before ++ quote p.name ++ [] ++ ':' :: (p.part.written ++ s) := by
    simp [written]
  have hname : spaced string (p.before ++ quote p.name ++ [] ++ ':' :: (p.part.written ++ s)) =
      some (some p.name, ':' :: (p.part.written ++ s)) :=
    spaced_append hspaced.1 isBlank_nil (tight_cons (by decide) _) (tight_cons (by decide) _)
      (string_quote _ _)
  rw [hwritten, Json.field, bind_apply, hname, Option.bind_some, bind_apply, char_cons,
    if_pos rfl, Option.bind_some, bind_apply,
    Part.spaced_valueWithin hspaced.2 htext hreads hlength hs, Option.bind_some, pure_apply]

theorem IsText.readsAs {v : Value (List Char)} {t : List Char} (h : IsText v t) : ReadsAs t v := by
  induction h with
  | null =>
    rintro (_ | n) hn rest
    · cases hn
    · exact valueWithin_null n rest
  | boolean b =>
    rintro (_ | n) hn rest
    · cases hn
    · exact valueWithin_boolean n b rest
  | string s =>
    rintro (_ | n) hn rest
    · cases hn
    · exact valueWithin_string n s rest
  | array parts hspaced htext ih =>
    rintro (_ | n) hn rest
    · cases hn
    · rw [List.length_append, List.length_cons] at hn
      have hparts : ∀ p ∈ parts, ∀ s, Tight s →
          spaced (valueWithin n) (p.written ++ s) = some (p.value.map some, s) := by
        intro p hp s hs
        have hlength := length_le_length_separated ',' Part.written hp
        exact p.spaced_valueWithin (hspaced p hp) (htext p hp) (ih p hp) (by omega) hs
      rw [Value.map, Value.mapItems_eq, List.map_map, List.cons_append, List.cons_append,
        List.append_assoc]
      exact valueWithin_array (enclosed_separated hparts (by decide) (by decide)
        (spaced_valueWithin_bracket n rest))
  | object parts hspaced htext ih =>
    rintro (_ | n) hn rest
    · cases hn
    · rw [List.length_append, List.length_cons] at hn
      have hparts : ∀ p ∈ parts, ∀ s, Tight s → field (valueWithin n) (p.written ++ s) =
          some ((some p.name, p.part.value.map some), s) := by
        intro p hp s hs
        have hlength := length_le_length_separated ',' FieldPart.written hp
        exact p.field_valueWithin (hspaced p hp) (htext p hp) (ih p hp) (by omega) hs
      rw [Value.map, Value.mapFields_eq, List.map_map, List.cons_append, List.cons_append,
        List.append_assoc]
      exact valueWithin_object (enclosed_separated hparts (by decide) (by decide)
        (field_brace (valueWithin n) rest))

/-- The text of a value is read as the value. -/
theorem IsText.read? {v : Value (List Char)} {t : List Char} (h : IsText v t) :
    Json.read? t = some (v.map some) := by
  have htight : Tight (t ++ ([] ++ [])) := h.tight _
  have hvalue := h.readsAs (t.length + 1) (Nat.lt_succ_self _) ([] ++ [])
  have hspaced := spaced_append isBlank_nil isBlank_nil htight tight_nil hvalue
  simp only [List.nil_append, List.append_nil] at hspaced
  rw [Json.read?, readAll?, hspaced]

section
variable {α β : Type}

theorem separated_cons {f : α → List Char} {mark : Char} {x : α} {more : List α} (h : more ≠ []) :
    separated mark f (x :: more) = f x ++ mark :: separated mark f more := by
  obtain ⟨y, others, rfl⟩ := List.exists_cons_of_ne_nil h
  simp [separated]

/-- The parts that some things are, the last of them with blanks behind it. -/
def partsOf (part : List Char → α → β) (after : List Char) : List α → List β
  | [] => []
  | [x] => [part after x]
  | x :: y :: more => part [] x :: partsOf part after (y :: more)

theorem forall_mem_partsOf {part : List Char → α → β} {after : List Char} {p : β → Prop}
    {xs : List α} (h : ∀ x ∈ xs, p (part [] x) ∧ p (part after x)) :
    ∀ y ∈ partsOf part after xs, p y := by
  induction xs with
  | nil => simp [partsOf]
  | cons x more ih =>
    obtain ⟨hx, hmore⟩ := List.forall_mem_cons.mp h
    cases more with
    | nil => simpa [partsOf] using hx.2
    | cons y others => exact List.forall_mem_cons.mpr ⟨hx.1, ih hmore⟩

theorem map_partsOf {γ : Type} {part : List Char → α → β} {g : β → γ} {f : α → γ}
    (h : ∀ after x, g (part after x) = f x) (after : List Char) (xs : List α) :
    (partsOf part after xs).map g = xs.map f := by
  induction xs with
  | nil => rfl
  | cons x more ih =>
    cases more with
    | nil => rw [partsOf, List.map_singleton, List.map_singleton, h]
    | cons y others => rw [partsOf, List.map_cons, ih, h, List.map_cons (a := x)]

theorem separated_partsOf {part : List Char → α → β} {f : α → List Char} {g : β → List Char}
    (h : ∀ after x, g (part after x) = f x ++ after) (mark : Char) {after : List Char}
    {xs : List α} (hempty : xs = [] → after = []) :
    separated mark g (partsOf part after xs) = separated mark f xs ++ after := by
  induction xs with
  | nil =>
    rw [hempty rfl]
    rfl
  | cons x more ih =>
    cases more with
    | nil => simp [partsOf, separated, h]
    | cons y others =>
      have hne : partsOf part after (y :: others) ≠ [] := by cases others <;> simp [partsOf]
      rw [partsOf, separated_cons hne, ih (by simp), h, List.append_nil,
        separated_cons (List.cons_ne_nil y others), List.append_assoc, List.cons_append]

end

section
variable {text : Value (List Char) → List Char} {before gap after : List Char}

def Part.of (before : List Char) (text : Value (List Char) → List Char) (after : List Char)
    (v : Value (List Char)) : Part :=
  ⟨before, text v, after, v⟩

def FieldPart.of (before gap : List Char) (text : Value (List Char) → List Char)
    (after : List Char) (f : List Char × Value (List Char)) : FieldPart :=
  ⟨before, f.1, .of gap text after f.2⟩

def fieldText (before gap : List Char) (text : Value (List Char) → List Char)
    (f : List Char × Value (List Char)) : List Char :=
  before ++ quote f.1 ++ ':' :: (gap ++ text f.2)

variable (hbefore : IsBlank before) (hgap : IsBlank gap) (hafter : IsBlank after)
include hbefore hafter

theorem isText_array {items : List (Value (List Char))} (htext : ∀ v ∈ items, IsText v (text v))
    (hempty : items = [] → after = []) :
    IsText (.array items)
      ('[' :: separated ',' (fun v => before ++ text v) items ++ after ++ [']']) := by
  have hwritten : separated ',' Part.written (partsOf (.of before text) after items) =
      separated ',' (fun v => before ++ text v) items ++ after := by
    refine separated_partsOf (fun after v => ?_) ',' hempty
    rfl
  have hvalue (after : List Char) (v : Value (List Char)) :
      (Part.of before text after v).value = v := rfl
  have hvalues := map_partsOf hvalue after items
  rw [List.map_id'] at hvalues
  have harray := IsText.array (partsOf (.of before text) after items)
    (forall_mem_partsOf fun _ _ => ⟨⟨hbefore, isBlank_nil⟩, hbefore, hafter⟩)
    (forall_mem_partsOf fun v hv => ⟨htext v hv, htext v hv⟩)
  rwa [hwritten, hvalues] at harray

include hgap

theorem isText_object {fields : List (List Char × Value (List Char))}
    (htext : ∀ f ∈ fields, IsText f.2 (text f.2)) (hempty : fields = [] → after = []) :
    IsText (.object fields)
      ('\x7b' :: separated ',' (fieldText before gap text) fields ++ after ++ ['\x7d']) := by
  have hwritten : separated ',' FieldPart.written (partsOf (.of before gap text) after fields) =
      separated ',' (fieldText before gap text) fields ++ after := by
    refine separated_partsOf (fun after f => ?_) ',' hempty
    simp [FieldPart.of, FieldPart.written, Part.of, Part.written, fieldText]
  have hfield (after : List Char) (f : List Char × Value (List Char)) :
      (FieldPart.of before gap text after f).field = f := rfl
  have hfields := map_partsOf hfield after fields
  rw [List.map_id'] at hfields
  have hobject := IsText.object (partsOf (.of before gap text) after fields)
    (forall_mem_partsOf fun _ _ =>
      ⟨⟨hbefore, hgap, isBlank_nil⟩, hbefore, hgap, hafter⟩)
    (forall_mem_partsOf fun f hf => ⟨htext f hf, htext f hf⟩)
  rwa [hwritten, hfields] at hobject

end

namespace Value

theorem compactItems_eq (items : List (Value (List Char))) :
    compactItems items = separated ',' compact items := by
  induction items with
  | nil => rfl
  | cons v more ih =>
    cases more with
    | nil => simp [compactItems, separated]
    | cons w more => simp [compactItems, ih, separated]

theorem compactFields_eq (fields : List (List Char × Value (List Char))) :
    compactFields fields = separated ',' (fieldText [] [] compact) fields := by
  induction fields with
  | nil => rfl
  | cons field more ih =>
    cases more with
    | nil => simp [compactFields, separated, fieldText]
    | cons other more => simp [compactFields, ih, separated, fieldText]

theorem prettyItems_eq (depth : Nat) (items : List (Value (List Char))) :
    prettyItems depth items =
      separated ',' (fun v => lineStart depth ++ pretty depth v) items := by
  induction items with
  | nil => rfl
  | cons v more ih =>
    cases more with
    | nil => simp [prettyItems, separated]
    | cons w more => simp [prettyItems, ih, separated]

theorem prettyFields_eq (depth : Nat) (fields : List (List Char × Value (List Char))) :
    prettyFields depth fields =
      separated ',' (fieldText (lineStart depth) [' '] (pretty depth)) fields := by
  induction fields with
  | nil => rfl
  | cons field more ih =>
    cases more with
    | nil => simp [prettyFields, separated, fieldText]
    | cons other more => simp [prettyFields, ih, separated, fieldText]

variable {v : Value (List Char)}

theorem inductive_compact : Inductive fun v => IsText v v.compact where
  null := .null
  boolean := .boolean
  string := .string
  array items h := by
    have harray := isText_array isBlank_nil isBlank_nil h fun _ => rfl
    rw [List.append_nil] at harray
    rw [compact, compactItems_eq]
    exact harray
  object fields h := by
    have hobject := isText_object isBlank_nil isBlank_nil isBlank_nil h fun _ => rfl
    rw [List.append_nil] at hobject
    rw [compact, compactFields_eq]
    exact hobject

theorem inductive_pretty : Inductive fun v => ∀ depth, IsText v (v.pretty depth) where
  null _ := .null
  boolean b _ := by
    cases b
    · exact .boolean false
    · exact .boolean true
  string s _ := .string s
  array items h depth := by
    cases items with
    | nil => exact .array [] (by simp) (by simp)
    | cons v more =>
      rw [pretty, prettyItems_eq]
      exact isText_array (isBlank_lineStart (depth + 1)) (isBlank_lineStart depth)
        (fun w hw => h w hw (depth + 1)) (fun hnil => absurd hnil (List.cons_ne_nil v more))
  object fields h depth := by
    have hgap : IsBlank [' '] := by simp [IsBlank, isSpace]
    cases fields with
    | nil => exact .object [] (by simp) (by simp)
    | cons f more =>
      rw [pretty, prettyFields_eq]
      exact isText_object (isBlank_lineStart (depth + 1)) hgap (isBlank_lineStart depth)
        (fun g hg => h g hg (depth + 1)) (fun hnil => absurd hnil (List.cons_ne_nil f more))

theorem isText_compact (h : v.Numberless) : IsText v v.compact :=
  inductive_compact.holds v h

theorem isText_pretty (h : v.Numberless) (depth : Nat) : IsText v (v.pretty depth) :=
  inductive_pretty.holds v h depth

end Value

theorem mapM_map_eq_some {α β γ : Type} {f : β → Option γ} {g : α → β} {h : α → γ}
    (hsome : ∀ x, f (g x) = some (h x)) (xs : List α) : (xs.map g).mapM f = some (xs.map h) := by
  induction xs with
  | nil => rfl
  | cons x more ih =>
    rw [List.map_cons, List.mapM_cons, ih, hsome]
    rfl

theorem Record.ofFields?_map (fields : List (List Char × Value (List Char))) :
    ofFields? (fields.map fun f => (some f.1, f.2.map some)) =
      some ⟨fields.map fun f => (f.1, f.2.map some)⟩ := by
  have hnames : (fields.map fun f => ((some f.1 : Option (List Char)), f.2.map some)).mapM
      (fun f : Option (List Char) × Read => f.1.map fun name => (name, f.2)) =
      some (fields.map fun f => (f.1, f.2.map some)) := by
    refine mapM_map_eq_some (fun f => ?_) fields
    rfl
  rw [ofFields?, hnames, Option.map_some]

theorem string?_map (s : String) : string? ((Value.ofString s).map some) = some s := by
  rw [Value.ofString, Value.map, string?, String.ofList_toList]

theorem stringOrNull?_map (s : Option String) :
    stringOrNull? (some ((Value.ofOption s).map some)) = some s := by
  cases s with
  | none => rfl
  | some text => simp [Value.ofOption, Value.ofString, Value.map, stringOrNull?, string?]

end StaticPreview.Json
