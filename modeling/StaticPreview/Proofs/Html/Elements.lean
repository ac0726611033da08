import StaticPreview.Proofs.Html.Safe
import StaticPreview.Proofs.Html.Texts

/-! # Elements of a page

Where a part of a page has no tags of one kind, what such tags show elsewhere is found without it.
Elements that hold escaped texts are read as they are written.
-/
namespace StaticPreview.Html

def Tag.opens (name : String) : Tag → Bool
  | opening n _ => n == name.toList
  | _ => false

def Tag.closes (name : String) : Tag → Bool
  | closing n => n == name.toList
  | _ => false

structure Skips (p : Tag → Bool) (s : List Char) : Prop where
  whole : Whole s
  not_any : (tags s).any p = false

section
variable {p : Tag → Bool} {a b : List Char}

theorem Skips.append (ha : Skips p a) (hb : Skips p b) : Skips p (a ++ b) := by
  refine ⟨ha.whole.append hb.whole, ?_⟩
  rw [tags_append ha.whole, List.any_append, ha.not_any, hb.not_any]
  rfl

theorem Tagged.skips {ts : List Tag} (h : Tagged a ts) (hts : ts.any p = false) : Skips p a := by
  refine ⟨h.whole, ?_⟩
  rw [h.tags, hts]

theorem skips_escape (s : List Char) : Skips p (escape s) :=
  (tagged_plain (ne_of_mem_escape rfl)).skips rfl

theorem skips_literal {s : List Char} (h : Item.char '<' ∉ read s ∧ (tags s).any p = false) :
    Skips p (String.ofList s).toList :=
  (tagged_literal ⟨h.1, rfl⟩).skips h.2

theorem Skips.texts_append (ha : Skips p a) (b : List Char) : texts p (a ++ b) = texts p b :=
  Html.texts_append ⟨ha.whole, rfl⟩ ha.not_any b

theorem Skips.texts_eq (ha : Skips p a) : texts p a = [] :=
  texts_of_not_any ⟨ha.whole, rfl⟩ ha.not_any

/-- An element without attributes that holds an escaped text. -/
def shown (name : String) (s : List Char) : List Char :=
  openingText name.toList [] ++ escape s ++ closingText name.toList

theorem texts_shown {name : String} (hname : IsName name.toList ∧ small name.toList = name.toList)
    (s b : List Char) : texts (Tag.opens name) (shown name s ++ b) =
      escape s :: texts (Tag.opens name) b := by
  apply texts_element hname.1 (by simp) (ne_of_mem_escape rfl)
  · rw [hname.2]
    exact beq_self_eq_true name.toList
  · rfl

theorem skips_shown {name other : String} (hname : IsName name.toList)
    (hother : small name.toList ≠ other.toList) (s : List Char) :
    Skips (Tag.opens other) (shown name s) := by
  apply (tagged_element hname (by simp) (ne_of_mem_escape rfl)).skips
  simp [Tag.opens, hother]

end

def upTo (q : Tag → Bool) : List Item → List Item
  | [] => []
  | .char c :: more => .char c :: upTo q more
  | .tag t :: more => if q t then [] else .tag t :: upTo q more

/-- What stands behind each tag that `p` accepts, up to the next tag that `q` accepts. -/
def contents (p q : Tag → Bool) : List Item → List (List Item)
  | [] => []
  | .char _ :: more => contents p q more
  | .tag t :: more => (if p t then [upTo q more] else []) ++ contents p q more

section
variable {p q : Tag → Bool}

theorem upTo_append {items : List Item} (h : (items.filterMap Item.tag?).any q = false)
    (more : List Item) : upTo q (items ++ more) = items ++ upTo q more := by
  induction items with
  | nil => rfl
  | cons item items ih =>
    cases item with
    | char c => exact congrArg _ (ih h)
    | tag t =>
      obtain ⟨ht, hitems⟩ := Bool.or_eq_false_iff.mp h
      rw [List.cons_append, upTo, ht, ih hitems]
      rfl

theorem contents_append {items : List Item} (h : (items.filterMap Item.tag?).any p = false)
    (more : List Item) : contents p q (items ++ more) = contents p q more := by
  induction items with
  | nil => rfl
  | cons item items ih =>
    cases item with
    | char c => exact ih h
    | tag t =>
      obtain ⟨ht, hitems⟩ := Bool.or_eq_false_iff.mp h
      rw [List.cons_append, contents, ht, ih hitems]
      rfl

theorem Skips.contents_append {a : List Char} (ha : Skips p a) (b : List Char) :
    contents p q (read (a ++ b)) = contents p q (read b) := by
  rw [ha.whole]
  exact Html.contents_append ha.not_any _

theorem Skips.contents_eq {a : List Char} (ha : Skips p a) : contents p q (read a) = [] := by
  have h := ha.contents_append (q := q) []
  rwa [List.append_nil, read_nil] at h

/-- An element that has none of its kind in it. -/
theorem contents_element {opening closing : Tag} {inner : List Item}
    (h : p opening ∧ q closing ∧ p closing = false)
    (hp : (inner.filterMap Item.tag?).any p = false)
    (hq : (inner.filterMap Item.tag?).any q = false) (more : List Item) :
    contents p q (.tag opening :: (inner ++ .tag closing :: more)) =
      inner :: contents p q more := by
  obtain ⟨hopening, hclosing, hother⟩ := h
  -- The search inside finds nothing that opens, so it goes on behind the closing tag.
  rw [contents, if_pos hopening, upTo_append hq, upTo, if_pos hclosing,
    List.append_nil, contents_append hp, contents, hother]
  rfl

end

/-- An element that holds characters only, and what follows it. -/
def element (name : List Char) (attributes : List (List Char × List Char)) (run : List Char)
    (more : List Item) : List Item :=
  .tag (.opening name attributes) :: (run.map .char ++ .tag (.closing name) :: more)

/-- An element with attributes and without tags inside is read as it is written, whatever follows.
-/
theorem read_element_append {name run : List Char} (hname : IsName name)
    {as : List SpelledAttribute} (has : ∀ a ∈ as, a.WellFormed) (hrun : ∀ c ∈ run, c ≠ '<')
    (b : List Char) :
    read (openingText name as ++ run ++ closingText name ++ b) =
      element (small name) (as.map SpelledAttribute.asRead) run (read b) := by
  rw [List.append_assoc, List.append_assoc, whole_opening hname has, whole_of_plain hrun,
    whole_closing hname, read_opening hname has, read_of_plain hrun, read_closing hname]
  rfl

theorem element_append (name : List Char) (attributes : List (List Char × List Char))
    (run : List Char) (inner more : List Item) :
    element name attributes run inner ++ more = element name attributes run (inner ++ more) := by
  simp [element]

theorem filterMap_tag?_element (name : List Char) (attributes : List (List Char × List Char))
    (run : List Char) (more : List Item) :
    (element name attributes run more).filterMap Item.tag? =
      .opening name attributes :: .closing name :: more.filterMap Item.tag? := by
  simp [element, Item.tag?]

theorem textsBehind_char (p : Tag → Bool) (c : Char) (more : List Item) :
    textsBehind p (.char c :: more) = textsBehind p more := rfl

theorem textsBehind_element {p : Tag → Bool} {name : List Char}
    (attributes : List (List Char × List Char)) (run : List Char) (h : p (.closing name) = false)
    (more : List Item) :
    textsBehind p (element name attributes run more) =
      (if p (.opening name attributes) then [run] else []) ++ textsBehind p more := by
  have hrun : ((run.map Item.char).filterMap Item.tag?).any p = false := by
    simp [Item.tag?]
  rw [element, textsBehind, leading_append_tag, textsBehind_append_of_not_any hrun, textsBehind, h]
  rfl

end StaticPreview.Html
