import StaticPreview.Proofs.Text.Characters
import StaticPreview.Proofs.Text.Runs
import StaticPreview.Text.Blank
import StaticPreview.Text.Cut

/-! # Tags as a browser reads them

A text is read as characters and tags, with names in small letters and references as they stand.
Every tag is read, also where a browser reads text alone, as it does in a script. A declaration
lasts to the first closing angle bracket.
-/
namespace StaticPreview.Html
open Text

inductive Tag where
  | opening (name : List Char) (attributes : List (List Char × List Char))
  | closing (name : List Char)
  | declaration (text : List Char)
  deriving DecidableEq, Repr

inductive Item where
  | char (c : Char)
  | tag (t : Tag)
  deriving DecidableEq, Repr

def small (s : List Char) : List Char := s.map Char.toLower

def endsTagName (c : Char) : Bool :=
  isAsciiBlank c || c == '/' || c == '>'

def endsAttributeName (c : Char) : Bool :=
  endsTagName c || c == '='

def value? (s : List Char) : Option (List Char × List Char) :=
  match s.dropWhile isAsciiBlank with
  | '=' :: r =>
    match r.dropWhile isAsciiBlank with
    | [] => none
    | c :: r' =>
      if c = '"' ∨ c = '\'' then cut? c r'
      else
        let inside := fun d => !isAsciiBlank d && d != '>'
        some ((c :: r').takeWhile inside, (c :: r').dropWhile inside)
  | _ => some ([], s)

theorem length_of_value? {s value after : List Char} (h : value? s = some (value, after)) :
    after.length ≤ s.length := by
  rw [value?] at h
  split at h
  next r hr =>
    have h1 : (s.dropWhile isAsciiBlank).length ≤ s.length := (List.dropWhile_sublist _).length_le
    split at h
    next => cases h
    next c r' hr' =>
      have h2 : (r.dropWhile isAsciiBlank).length ≤ r.length := (List.dropWhile_sublist _).length_le
      rw [hr, List.length_cons] at h1
      rw [hr', List.length_cons] at h2
      split at h
      · have h3 := (length_of_cut? h).2
        omega
      · obtain ⟨-, rfl⟩ := Prod.mk.inj (Option.some.inj h)
        have h3 := (List.dropWhile_sublist (l := c :: r')
          fun d => !isAsciiBlank d && d != '>').length_le
        rw [List.length_cons] at h3
        omega
  next =>
    obtain ⟨-, rfl⟩ := Prod.mk.inj (Option.some.inj h)
    exact Nat.le_refl _

def attributes? (s : List Char) : Option (List (List Char × List Char) × List Char) :=
  match s with
  | [] => none
  | c :: r =>
    if c = '>' then some ([], r)
    else if isAsciiBlank c ∨ c = '/' then attributes? r
    else
      match h : value? (r.dropWhile (!endsAttributeName ·)) with
      | none => none
      | some (value, after) =>
        have : after.length < (c :: r).length :=
          Nat.lt_succ_of_le <|
            Nat.le_trans (length_of_value? h) (List.dropWhile_sublist _).length_le
        (attributes? after).map fun p =>
          ((small (c :: r.takeWhile (!endsAttributeName ·)), value) :: p.1, p.2)
termination_by s.length
decreasing_by all_goals simp only [List.length_cons] at *; omega

theorem attributes?_of_value? {c : Char} {r value after : List Char} (hclose : c ≠ '>')
    (hblank : ¬(isAsciiBlank c ∨ c = '/'))
    (h : value? (r.dropWhile (!endsAttributeName ·)) = some (value, after)) :
    attributes? (c :: r) = (attributes? after).map fun p =>
      ((small (c :: r.takeWhile (!endsAttributeName ·)), value) :: p.1, p.2) := by
  rw [attributes?, if_neg hclose, if_neg hblank]
  split
  next h' => simp [h] at h'
  next value' after' h' =>
    obtain ⟨rfl, rfl⟩ := Prod.mk.inj (Option.some.inj (h'.symm.trans h))
    rfl

theorem length_of_attributes? {s rest : List Char} {attributes : List (List Char × List Char)}
    (h : attributes? s = some (attributes, rest)) : rest.length < s.length := by
  fun_induction attributes? s generalizing attributes rest with
  | case1 => cases h
  | case2 r =>
    obtain ⟨-, rfl⟩ := Prod.mk.inj (Option.some.inj h)
    exact Nat.lt_succ_self _
  | case3 c r _ _ ih => exact Nat.lt_succ_of_lt (ih h)
  | case4 => cases h
  | case5 c r _ _ value after hvalue hlength ih =>
    obtain ⟨⟨more, rest'⟩, hmore, heq⟩ := Option.map_eq_some_iff.mp h
    obtain ⟨-, rfl⟩ := Prod.mk.inj heq
    exact Nat.lt_trans (ih hmore) hlength

/-- The tag that an opening angle bracket begins, and what follows the tag. -/
def tag? : List Char → Option (Tag × List Char)
  | '!' :: r => (cut? '>' r).map fun p => (.declaration p.1, p.2)
  | '/' :: c :: r =>
    if c.isAlpha then
      (attributes? (r.dropWhile (!endsTagName ·))).map fun p =>
        (.closing (small (c :: r.takeWhile (!endsTagName ·))), p.2)
    else none
  | c :: r =>
    if c.isAlpha then
      (attributes? (r.dropWhile (!endsTagName ·))).map fun p =>
        (.opening (small (c :: r.takeWhile (!endsTagName ·))) p.1, p.2)
    else none
  | [] => none

theorem tag?_of_isAlpha {c : Char} (hc : c.isAlpha) (r : List Char) :
    tag? (c :: r) = (attributes? (r.dropWhile (!endsTagName ·))).map fun p =>
      (.opening (small (c :: r.takeWhile (!endsTagName ·))) p.1, p.2) := by
  unfold tag?
  split
  next heq =>
    obtain ⟨rfl, -⟩ := List.cons.inj heq
    exact absurd hc (by decide)
  next heq =>
    obtain ⟨rfl, -⟩ := List.cons.inj heq
    exact absurd hc (by decide)
  next heq =>
    obtain ⟨rfl, rfl⟩ := List.cons.inj heq
    rw [if_pos hc]
  next heq => cases heq

theorem length_of_tag? {s rest : List Char} {t : Tag} (h : tag? s = some (t, rest)) :
    rest.length < s.length := by
  have hattributes {c : Char} {r : List Char} {f : List (List Char × List Char) → Tag}
      (h : (attributes? (r.dropWhile (!endsTagName ·))).map (fun p => (f p.1, p.2)) =
        some (t, rest)) : rest.length < (c :: r).length := by
    obtain ⟨⟨attributes, rest'⟩, hp, heq⟩ := Option.map_eq_some_iff.mp h
    obtain ⟨-, rfl⟩ := Prod.mk.inj heq
    exact Nat.lt_succ_of_lt <| Nat.lt_of_lt_of_le (length_of_attributes? hp)
      (List.dropWhile_sublist _).length_le
  unfold tag? at h
  split at h
  · obtain ⟨⟨text, rest'⟩, hcut, heq⟩ := Option.map_eq_some_iff.mp h
    obtain ⟨-, rfl⟩ := Prod.mk.inj heq
    exact Nat.lt_succ_of_lt (length_of_cut? hcut).2
  · split at h
    · exact Nat.lt_succ_of_lt (hattributes (c := ' ') (f := fun _ => .closing _) h)
    · cases h
  · split at h
    · exact hattributes h
    · cases h
  · cases h

def read (s : List Char) : List Item :=
  match s with
  | [] => []
  | c :: r =>
    if c = '<' then
      match h : tag? r with
      | some (t, rest) =>
        have := length_of_tag? h
        .tag t :: read rest
      | none => .char c :: read r
    else .char c :: read r
termination_by s.length
decreasing_by all_goals simp only [List.length_cons] at *; omega

theorem read_nil : read [] = [] := by
  rw [read]

theorem read_char {c : Char} (hc : c ≠ '<') (s : List Char) :
    read (c :: s) = .char c :: read s := by
  rw [read, if_neg hc]

theorem read_tag {s rest : List Char} {t : Tag} (h : tag? s = some (t, rest)) :
    read ('<' :: s) = .tag t :: read rest := by
  rw [read, if_pos rfl]
  split
  next t' rest' h' =>
    obtain ⟨rfl, rfl⟩ := Prod.mk.inj (Option.some.inj (h'.symm.trans h))
    rfl
  next h' => simp [h] at h'

theorem cut?_append_right {mark : Char} {s a b : List Char} (h : cut? mark s = some (a, b))
    (t : List Char) : cut? mark (s ++ t) = some (a, b ++ t) := by
  obtain ⟨ha, rfl⟩ := cut?_eq_some_iff.mp h
  exact cut?_eq_some_iff.mpr ⟨ha, by simp⟩

theorem value?_append {s value after : List Char} (h : value? s = some (value, after))
    (hafter : after.dropWhile isAsciiBlank ≠ []) (t : List Char) :
    value? (s ++ t) = some (value, after ++ t) := by
  have hne : after ≠ [] := by
    rintro rfl
    exact hafter rfl
  rw [value?] at h
  split at h
  next r hr =>
    have hs : (s ++ t).dropWhile isAsciiBlank = '=' :: (r ++ t) := by
      rw [dropWhile_append_of_ne_nil (by simp [hr]), hr, List.cons_append]
    split at h
    next => cases h
    next c r' hr' =>
      have hrt : (r ++ t).dropWhile isAsciiBlank = c :: (r' ++ t) := by
        rw [dropWhile_append_of_ne_nil (by simp [hr']), hr', List.cons_append]
      rw [value?, hs]
      simp only [hrt]
      split at h
      next hmark => rw [if_pos hmark, cut?_append_right h]
      next hmark =>
        obtain ⟨rfl, rfl⟩ := Prod.mk.inj (Option.some.inj h)
        rw [if_neg hmark, ← List.cons_append, dropWhile_append_of_ne_nil hne,
          takeWhile_append_of_ne_nil hne]
  next hother =>
    obtain ⟨rfl, rfl⟩ := Prod.mk.inj (Option.some.inj h)
    rw [value?, dropWhile_append_of_ne_nil hafter]
    split
    next r hr =>
      obtain ⟨c, r', hcons⟩ := List.exists_cons_of_ne_nil hafter
      rw [hcons, List.cons_append] at hr
      exact absurd ((List.cons.inj hr).1 ▸ hcons) (hother r')
    next => rfl

theorem dropWhile_isAsciiBlank_of_attributes? {s rest : List Char}
    {attributes : List (List Char × List Char)} (h : attributes? s = some (attributes, rest)) :
    s.dropWhile isAsciiBlank ≠ [] := by
  induction s with
  | nil => simp [attributes?] at h
  | cons c r ih =>
    by_cases hc : isAsciiBlank c
    · have hclose : c ≠ '>' := by
        rintro rfl
        exact absurd hc (by decide)
      rw [attributes?, if_neg hclose, if_pos (.inl hc)] at h
      simpa [hc] using ih h
    · simp [hc]

theorem attributes?_append {s rest : List Char} {attributes : List (List Char × List Char)}
    (h : attributes? s = some (attributes, rest)) (t : List Char) :
    attributes? (s ++ t) = some (attributes, rest ++ t) := by
  fun_induction attributes? s generalizing attributes rest with
  | case1 => cases h
  | case2 r =>
    obtain ⟨rfl, rfl⟩ := Prod.mk.inj (Option.some.inj h)
    rw [List.cons_append, attributes?, if_pos rfl]
  | case3 c r hclose hblank ih =>
    rw [List.cons_append, attributes?, if_neg hclose, if_pos hblank, ih h]
  | case4 => cases h
  | case5 c r hclose hblank value after hvalue _ ih =>
    obtain ⟨⟨more, rest'⟩, hmore, heq⟩ := Option.map_eq_some_iff.mp h
    obtain ⟨rfl, rfl⟩ := Prod.mk.inj heq
    have hafter := dropWhile_isAsciiBlank_of_attributes? hmore
    have hne : r.dropWhile (!endsAttributeName ·) ≠ [] := by
      intro hnil
      rw [hnil] at hvalue
      obtain ⟨rfl, rfl⟩ := Prod.mk.inj (Option.some.inj hvalue)
      exact hafter rfl
    have hvalue' : value? ((r ++ t).dropWhile (!endsAttributeName ·)) =
        some (value, after ++ t) := by
      rw [dropWhile_append_of_ne_nil hne, value?_append hvalue hafter]
    rw [List.cons_append, attributes?_of_value? hclose hblank hvalue', ih hmore,
      takeWhile_append_of_ne_nil hne]
    rfl

theorem tag?_append {s rest : List Char} {t : Tag} (h : tag? s = some (t, rest)) (b : List Char) :
    tag? (s ++ b) = some (t, rest ++ b) := by
  have hattributes {r : List Char} {f : List Char → List (List Char × List Char) → Tag}
      (h : (attributes? (r.dropWhile (!endsTagName ·))).map
        (fun p => (f (r.takeWhile (!endsTagName ·)) p.1, p.2)) = some (t, rest)) :
      (attributes? ((r ++ b).dropWhile (!endsTagName ·))).map
        (fun p => (f ((r ++ b).takeWhile (!endsTagName ·)) p.1, p.2)) = some (t, rest ++ b) := by
    obtain ⟨⟨attributes, rest'⟩, hp, heq⟩ := Option.map_eq_some_iff.mp h
    obtain ⟨rfl, rfl⟩ := Prod.mk.inj heq
    have hne : r.dropWhile (!endsTagName ·) ≠ [] := by
      intro hnil
      simp [hnil, attributes?] at hp
    rw [dropWhile_append_of_ne_nil hne, takeWhile_append_of_ne_nil hne, attributes?_append hp]
    rfl
  unfold tag? at h
  split at h
  next r =>
    obtain ⟨⟨text, rest'⟩, hcut, heq⟩ := Option.map_eq_some_iff.mp h
    obtain ⟨rfl, rfl⟩ := Prod.mk.inj heq
    rw [List.cons_append, tag?, cut?_append_right hcut]
    rfl
  next c r =>
    obtain ⟨hc, h⟩ := Option.ite_none_right_eq_some.mp h
    rw [List.cons_append, List.cons_append, tag?, if_pos hc]
    exact hattributes (f := fun name _ => .closing (small (c :: name))) h
  next c r _ _ =>
    obtain ⟨hc, h⟩ := Option.ite_none_right_eq_some.mp h
    rw [List.cons_append, tag?_of_isAlpha hc]
    exact hattributes (f := fun name as => .opening (small (c :: name)) as) h
  next => cases h

/-- Whether what follows a text is read as if it stood alone. -/
def Whole (a : List Char) : Prop :=
  ∀ b, read (a ++ b) = read a ++ read b

theorem Whole.nil : Whole [] := fun b => by
  rw [read_nil]
  rfl

/-- Texts that are read as if they stood alone can be joined. -/
theorem Whole.append {a b : List Char} (ha : Whole a) (hb : Whole b) : Whole (a ++ b) := by
  intro c
  rw [List.append_assoc, ha, hb, ha, List.append_assoc]

/-- No tag of the text goes on behind it. -/
theorem whole_of_read {a : List Char} (h : Item.char '<' ∉ read a) : Whole a := by
  intro b
  fun_induction read a with
  | case1 => rfl
  | case2 r t rest ht _ ih =>
    rw [List.cons_append, read_tag (tag?_append ht b),
      ih fun hmem => h (List.mem_cons_of_mem _ hmem)]
    rfl
  | case3 => exact absurd List.mem_cons_self h
  | case4 c r hc ih =>
    rw [List.cons_append, read_char hc, ih fun hmem => h (List.mem_cons_of_mem _ hmem)]
    rfl

theorem read_of_plain {run : List Char} (h : ∀ c ∈ run, c ≠ '<') : read run = run.map .char := by
  induction run with
  | nil => exact read_nil
  | cons c r ih =>
    rw [read_char (h c List.mem_cons_self), ih fun d hd => h d (List.mem_cons_of_mem c hd),
      List.map_cons]

theorem whole_of_plain {run : List Char} (h : ∀ c ∈ run, c ≠ '<') : Whole run := by
  refine whole_of_read ?_
  rw [read_of_plain h]
  intro hmem
  obtain ⟨c, hc, heq⟩ := List.mem_map.mp hmem
  exact h c hc (Item.char.inj heq)

structure SpelledAttribute where
  name : List Char
  value : Option (List Char)

namespace SpelledAttribute

/-- An attribute with a blank before it, its value in double quotes. -/
def written (a : SpelledAttribute) : List Char :=
  ' ' :: a.name ++
    match a.value with
    | none => []
    | some value => '=' :: '"' :: value ++ ['"']

structure WellFormed (a : SpelledAttribute) : Prop where
  ne_nil : a.name ≠ []
  name : ∀ c ∈ a.name, endsAttributeName c = false
  value : ∀ value ∈ a.value, ∀ c ∈ value, c ≠ '"'

instance (a : SpelledAttribute) : Decidable a.WellFormed :=
  decidable_of_iff (a.name ≠ [] ∧ (∀ c ∈ a.name, endsAttributeName c = false) ∧
    ∀ value ∈ a.value, ∀ c ∈ value, c ≠ '"')
    ⟨fun h => ⟨h.1, h.2.1, h.2.2⟩, fun h => ⟨h.1, h.2, h.3⟩⟩

def asRead (a : SpelledAttribute) : List Char × List Char :=
  (small a.name, a.value.getD [])

end SpelledAttribute

theorem not_isAsciiBlank_of_endsAttributeName {c : Char} (h : endsAttributeName c = false) :
    isAsciiBlank c = false ∧ c ≠ '/' ∧ c ≠ '>' ∧ c ≠ '=' := by
  simpa [endsAttributeName, endsTagName, and_assoc] using h

theorem attributes?_name {name rest value after : List Char} (hne : name ≠ [])
    (hname : ∀ c ∈ name, endsAttributeName c = false)
    (hrest : ∀ c ∈ rest.head?, endsAttributeName c)
    (h : value? rest = some (value, after)) :
    attributes? (' ' :: name ++ rest) = (attributes? after).map fun p =>
      ((small name, value) :: p.1, p.2) := by
  obtain ⟨c, r, rfl⟩ := List.exists_cons_of_ne_nil hne
  obtain ⟨hc, hr⟩ := List.forall_mem_cons.mp hname
  obtain ⟨hblank, hslash, hclose, -⟩ := not_isAsciiBlank_of_endsAttributeName hc
  have hinside : ∀ d ∈ r, (!endsAttributeName d) = true := fun d hd => by simp [hr d hd]
  have hends : ∀ d ∈ rest.head?, (!endsAttributeName d) = false := fun d hd => by simp [hrest d hd]
  have hvalue : value? ((r ++ rest).dropWhile (!endsAttributeName ·)) = some (value, after) := by
    rw [dropWhile_append_of_head? hinside hends, h]
  rw [List.cons_append, List.cons_append, attributes?, if_neg (by decide),
    if_pos (.inl (by decide)),
    attributes?_of_value? hclose (by simp [hblank, hslash]) hvalue,
    takeWhile_append_of_head? hinside hends]

theorem value?_quoted {value : List Char} (h : ∀ c ∈ value, c ≠ '"') (s : List Char) :
    value? ('=' :: '"' :: value ++ '"' :: s) = some (value, s) := by
  have hcut := cut?_append h s
  simp [value?, isAsciiBlank, hcut]

theorem value?_of_head? {s : List Char} (h : (s.dropWhile isAsciiBlank).head? ≠ some '=') :
    value? s = some ([], s) := by
  rw [value?]
  split
  next r hr => simp [hr] at h
  next => rfl

theorem attributes?_close (s : List Char) : attributes? ('>' :: s) = some ([], s) := by
  rw [attributes?, if_pos rfl]

/-- What may follow an attribute without a value. -/
theorem head?_written {as : List SpelledAttribute} (h : ∀ a ∈ as, a.WellFormed) (s : List Char) :
    let rest := as.flatMap SpelledAttribute.written ++ '>' :: s
    (∀ c ∈ rest.head?, endsAttributeName c) ∧ (rest.dropWhile isAsciiBlank).head? ≠ some '=' := by
  cases as with
  | nil => exact ⟨by simp [endsAttributeName, endsTagName], by simp [isAsciiBlank]⟩
  | cons a more =>
    obtain ⟨c, r, hname⟩ := List.exists_cons_of_ne_nil (h a List.mem_cons_self).ne_nil
    obtain ⟨hblank, -, -, hequals⟩ := not_isAsciiBlank_of_endsAttributeName
      ((h a List.mem_cons_self).name c (by simp [hname]))
    have hspace : isAsciiBlank ' ' = true := by decide
    exact ⟨by simp [SpelledAttribute.written, endsAttributeName, endsTagName, hspace],
      by simp [SpelledAttribute.written, hname, hspace, hblank, hequals]⟩

theorem attributes?_written {as : List SpelledAttribute} (h : ∀ a ∈ as, a.WellFormed)
    (s : List Char) :
    attributes? (as.flatMap SpelledAttribute.written ++ '>' :: s) =
      some (as.map SpelledAttribute.asRead, s) := by
  induction as with
  | nil => exact attributes?_close s
  | cons a more ih =>
    obtain ⟨⟨hne, hname, hvalue⟩, hmore⟩ := List.forall_mem_cons.mp h
    rw [List.flatMap_cons, List.append_assoc, SpelledAttribute.written, List.append_assoc,
      List.map_cons]
    cases ha : a.value with
    | none =>
      obtain ⟨hhead, hequals⟩ := head?_written hmore s
      rw [List.nil_append, attributes?_name hne hname hhead (value?_of_head? hequals), ih hmore]
      simp [SpelledAttribute.asRead, ha]
    | some value =>
      have hquoted := value?_quoted (hvalue value ha)
        (more.flatMap SpelledAttribute.written ++ '>' :: s)
      have hrest : '=' :: '"' :: value ++ ['"'] ++
          (more.flatMap SpelledAttribute.written ++ '>' :: s) =
          '=' :: '"' :: value ++ '"' :: (more.flatMap SpelledAttribute.written ++ '>' :: s) := by
        simp
      have hhead : ∀ c ∈ ('=' :: '"' :: value ++ '"' ::
          (more.flatMap SpelledAttribute.written ++ '>' :: s)).head?, endsAttributeName c := by
        simp [endsAttributeName]
      rw [hrest, attributes?_name hne hname hhead hquoted, ih hmore]
      simp [SpelledAttribute.asRead, ha]

/-- Whether a text can be the name of a tag. -/
def IsName : List Char → Prop
  | [] => False
  | c :: r => c.isAlpha ∧ ∀ d ∈ r, endsTagName d = false

instance : DecidablePred IsName
  | [] => .isFalse id
  | _ :: _ => inferInstanceAs (Decidable (_ ∧ _))

def openingText (name : List Char) (as : List SpelledAttribute) : List Char :=
  '<' :: name ++ as.flatMap SpelledAttribute.written ++ ['>']

def closingText (name : List Char) : List Char :=
  '<' :: '/' :: name ++ ['>']

/-- An opening tag is read with its name in small letters and its attributes in order. -/
theorem tag?_opening {name : List Char} (hname : IsName name) {as : List SpelledAttribute}
    (has : ∀ a ∈ as, a.WellFormed) (s : List Char) :
    tag? (name ++ as.flatMap SpelledAttribute.written ++ '>' :: s) =
      some (.opening (small name) (as.map SpelledAttribute.asRead), s) := by
  cases name with
  | nil => exact hname.elim
  | cons c r =>
    obtain ⟨hc, hr⟩ := hname
    have hinside : ∀ d ∈ r, (!endsTagName d) = true := fun d hd => by simp [hr d hd]
    have hends : ∀ d ∈ (as.flatMap SpelledAttribute.written ++ '>' :: s).head?,
        (!endsTagName d) = false := by
      cases as with
      | nil => simp [endsTagName]
      | cons a more => simp [SpelledAttribute.written, endsTagName, isAsciiBlank]
    rw [List.append_assoc, List.cons_append, tag?_of_isAlpha hc,
      takeWhile_append_of_head? hinside hends, dropWhile_append_of_head? hinside hends,
      attributes?_written has]
    rfl

theorem tag?_closing {name : List Char} (hname : IsName name) (s : List Char) :
    tag? ('/' :: name ++ '>' :: s) = some (.closing (small name), s) := by
  cases name with
  | nil => exact hname.elim
  | cons c r =>
    obtain ⟨hc, hr⟩ := hname
    have hinside : ∀ d ∈ r, (!endsTagName d) = true := fun d hd => by simp [hr d hd]
    have hends : ∀ d ∈ ('>' :: s).head?, (!endsTagName d) = false := by simp [endsTagName]
    rw [List.cons_append, List.cons_append, tag?, if_pos hc,
      takeWhile_append_of_head? hinside hends, dropWhile_append_of_head? hinside hends,
      attributes?_close]
    rfl

theorem read_opening {name : List Char} (hname : IsName name) {as : List SpelledAttribute}
    (has : ∀ a ∈ as, a.WellFormed) :
    read (openingText name as) =
      [.tag (.opening (small name) (as.map SpelledAttribute.asRead))] := by
  have htag := read_tag (tag?_opening hname has [])
  rwa [read_nil] at htag

theorem whole_opening {name : List Char} (hname : IsName name) {as : List SpelledAttribute}
    (has : ∀ a ∈ as, a.WellFormed) : Whole (openingText name as) := by
  refine whole_of_read ?_
  rw [read_opening hname has]
  simp

theorem read_closing {name : List Char} (hname : IsName name) :
    read (closingText name) = [.tag (.closing (small name))] := by
  have htag := read_tag (tag?_closing hname [])
  rwa [read_nil] at htag

theorem whole_closing {name : List Char} (hname : IsName name) : Whole (closingText name) := by
  refine whole_of_read ?_
  rw [read_closing hname]
  simp

end StaticPreview.Html
