import StaticPreview.Proofs.Markup.WrittenTag
import StaticPreview.Proofs.Place.Balance

/-! # Tokens by their places

A token is read from a place of a text, with the place where the next one begins.
-/
namespace StaticPreview.Place
open Text Markup

def isTextEnd (c : Char) : Bool :=
  c == '<' || c == '\x7b'

/-- The run of text from a place on. Its end is sought from `search` on. -/
def textAt (span : List Char) (place search : Nat) : Checked (Token × Nat) := do
  let rest ← sliceFrom span search
  let stop := ((findPlace? isTextEnd rest).map (search + ·)).getD (width span)
  return (.text (← slice span place stop), stop)

def elementOf (span name : List Char) (place : Nat) (tag : TagEnd) : Checked (Token × Nat) := do
  let attributes ← slice span (place + 1 + width name) tag.bodyStop
  if tag.selfCloses then return (.element name attributes [], tag.stop)
  else
    match ← contentAt span name tag.stop with
    | some (content, stop) => return (.element name attributes content, stop)
    | none => return (.element name attributes [], tag.stop)

def elementAt (span : List Char) (place : Nat) : Checked (Token × Nat) := do
  match after? ['<'] (← sliceFrom span place) >>= tagName? with
  | none => textAt span place (place + 1)
  | some name =>
    match ← tagEnd span place with
    | none => textAt span place (place + 1)
    | some tag => elementOf span name place tag

def tokenAt (span : List Char) (place : Nat) : Checked (Token × Nat) := do
  let rest ← sliceFrom span place
  if (after? ['<', '>'] rest).isSome then
    match ← contentAt span [] (place + 2) with
    | some (content, stop) => return (.fragment content, stop)
    | none => return (.fragment [], place + 2)
  else if rest.head? = some '<' then elementAt span place
  else if rest.head? = some '\x7b' then
    match findPlace? (· == '\x7d') rest with
    | some close =>
      return (.container (← slice span (place + 1) (place + close)), place + close + 1)
    | none => return (.container (← sliceFrom span (place + 1)), width span)
  else textAt span place place

theorem textAt_append (a : List Char) (c : Char) (r : List Char) :
    textAt (a ++ c :: r) (width a) (width (a ++ [c])) =
      .ok ((Token.textFrom c r).1, restPlace (a ++ c :: r) (Token.textFrom c r).2) := by
  have hplain : (fun d => d != '<' && d != '\x7b') = fun d => !isTextEnd d := by
    funext d
    simp [isTextEnd, bne]
  have hr : r.takeWhile (fun d => !isTextEnd d) ++ r.dropWhile (fun d => !isTextEnd d) = r :=
    List.takeWhile_append_dropWhile
  have hstop := findPlace?_stop isTextEnd (a ++ [c]) r
  simp only [textAt, sliceFrom_cons, ok_bind, Token.textFrom, hplain]
  generalize r.takeWhile (fun d => !isTextEnd d) = run at hr hstop
  generalize r.dropWhile (fun d => !isTextEnd d) = after at hr
  have hs : a ++ (c :: run) ++ after = a ++ c :: r := by simp [← hr]
  have hslice : slice (a ++ c :: r) (width a) (width (a ++ c :: run)) = .ok (c :: run) :=
    slice_eq_ok_iff.mpr ⟨a, after, hs.symm, rfl, rfl⟩
  rw [List.append_assoc, ← width_append, List.append_assoc, List.singleton_append,
    List.singleton_append] at hstop
  rw [hstop, hslice, restPlace_of_append hs]
  rfl

theorem textAt_of_not_isTextEnd {c : Char} (hc : isTextEnd c = false) (a r : List Char) :
    textAt (a ++ c :: r) (width a) (width a) =
      textAt (a ++ c :: r) (width a) (width (a ++ [c])) := by
  have hfind : findPlace? isTextEnd (c :: r) = (findPlace? isTextEnd r).map (c.utf8Size + ·) := by
    simp [findPlace?, hc]
  simp only [textAt, sliceFrom_append, sliceFrom_cons, ok_bind, hfind]
  simp [Function.comp_def, Nat.add_assoc]

/-- The part between the name and the end of a tag is its text of attributes, and taking it never
faults. -/
theorem slice_attributes {a r name body after : List Char} (hname : tagName? r = some name)
    (hbody : tagBody? r = some (body, after)) :
    slice (a ++ '<' :: r) (width a + 1 + width name) (width a + 1 + width (openBody body)) =
      .ok ((openBody body).drop name.length) := by
  obtain ⟨attributes, hopen⟩ := exists_openBody_eq_append hname hbody
  obtain ⟨more, hmore⟩ := openBody_isPrefix body
  have hr : name ++ attributes ++ more ++ '>' :: after = r := by
    rw [← hopen, hmore, append_of_tagBody? hbody]
  rw [hopen, List.drop_left, ← width_tag, ← width_tag, slice_eq_ok_iff]
  exact ⟨a ++ '<' :: name, more ++ '>' :: after, by simp [← hr], rfl, by simp⟩

/-- A tag with a name and an end opens an element. -/
theorem elementOf_append {a r name body after : List Char} (hname : tagName? r = some name)
    (hbody : tagBody? r = some (body, after)) :
    ∃ p, Token.element? r = some p ∧
      elementOf (a ++ '<' :: r) name (width a) (.ofBody (width a) body) =
        .ok (p.1, restPlace (a ++ '<' :: r) p.2) := by
  have hs : a ++ ('<' :: body ++ ['>']) ++ after = a ++ '<' :: r := by
    simp [← append_of_tagBody? hbody]
  have hattributes : slice (a ++ '<' :: r) (width a + 1 + width name)
      (TagEnd.ofBody (width a) body).bodyStop = .ok ((openBody body).drop name.length) :=
    slice_attributes hname hbody
  have hcontent := contentAt_append (a ++ ('<' :: body ++ ['>'])) after name
  have hself : (TagEnd.ofBody (width a) body).selfCloses = selfCloses body := rfl
  rw [hs, ← restPlace_of_append hs] at hcontent
  rw [Token.element?, hname, hbody]
  simp only [elementOf, hattributes, ok_bind, TagEnd.stop_ofBody, ← restPlace_of_append hs,
    hcontent, hself]
  split
  · exact ⟨_, rfl, rfl⟩
  · cases content? name after <;> exact ⟨_, rfl, rfl⟩

theorem elementAt_append {a r rest : List Char} {t : Token}
    (h : (Token.element? r).getD (Token.textFrom '<' r) = (t, rest)) :
    elementAt (a ++ '<' :: r) (width a) = .ok (t, restPlace (a ++ '<' :: r) rest) := by
  have htext := textAt_append a '<' r
  have hafter : after? ['<'] ('<' :: r) >>= tagName? = tagName? r := rfl
  rw [width_concat_of_ascii (by decide)] at htext
  simp only [elementAt, sliceFrom_append, ok_bind, hafter, tagEnd_append]
  cases hname : tagName? r with
  | none =>
    rw [Token.element?, hname, Option.getD_none] at h
    rw [h] at htext
    exact htext
  | some name =>
    cases hbody : tagBody? r with
    | none =>
      rw [Token.element?, hname, hbody, Option.getD_none] at h
      rw [h] at htext
      exact htext
    | some p =>
      obtain ⟨q, hq, helement⟩ := elementOf_append (a := a) hname hbody
      rw [hq, Option.getD_some] at h
      subst h
      exact helement

theorem tokenAt_fragment (a r : List Char) :
    tokenAt (a ++ '<' :: '>' :: r) (width a) =
      .ok ((content? [] r).elim (.fragment [], restPlace (a ++ '<' :: '>' :: r) r) fun p =>
        (.fragment p.1, restPlace (a ++ '<' :: '>' :: r) p.2)) := by
  have hs : a ++ ['<', '>'] ++ r = a ++ '<' :: '>' :: r := by simp
  have hplace : width (a ++ ['<', '>']) = width a + 2 := by
    rw [width_tag, width_singleton, utf8Size_of_ascii (by decide)]
  have hcontent := contentAt_append (a ++ ['<', '>']) r []
  have hafter : after? ['<', '>'] ('<' :: '>' :: r) = some r := rfl
  rw [hs, hplace] at hcontent
  rw [restPlace_of_append hs, hplace]
  simp only [tokenAt, sliceFrom_append, ok_bind, hafter, Option.isSome_some, if_true, hcontent]
  cases content? [] r <;> rfl

theorem tokenAt_container (a r : List Char) :
    tokenAt (a ++ '\x7b' :: r) (width a) =
      .ok ((cut? '\x7d' r).elim (.container r, restPlace (a ++ '\x7b' :: r) []) fun p =>
        (.container p.1, restPlace (a ++ '\x7b' :: r) p.2)) := by
  have hafter : after? ['<', '>'] ('\x7b' :: r) = none := rfl
  have hcut : cut? '\x7d' ('\x7b' :: r) = (cut? '\x7d' r).map fun p => ('\x7b' :: p.1, p.2) := rfl
  simp only [tokenAt, sliceFrom_append, ok_bind, hafter, findPlace?_cut, hcut]
  cases hcut : cut? '\x7d' r with
  | none => simp [sliceFrom_mark]
  | some p =>
    have hslice := slice_mark (c := '\x7b') (by decide) a p.1 ('\x7d' :: p.2)
    have hs : a ++ ('\x7b' :: p.1 ++ ['\x7d']) ++ p.2 = a ++ '\x7b' :: r := by
      simp [← append_of_cut? hcut]
    rw [append_of_cut? hcut] at hslice
    rw [Option.elim_some, restPlace_of_append hs, width_enclosed (by decide) (by decide)]
    simp [width_cons_of_ascii (c := '\x7b') (by decide), ← Nat.add_assoc, hslice]
    omega

theorem tokenAt_element {r : List Char} (hr : r.head? ≠ some '>') (a : List Char) :
    tokenAt (a ++ '<' :: r) (width a) = elementAt (a ++ '<' :: r) (width a) := by
  have hafter : after? ['<', '>'] ('<' :: r) = none := by
    cases r with
    | nil => rfl
    | cons c r =>
      have hc : '>' ≠ c := fun h => hr (congrArg some h.symm)
      simp [after?, hc]
  simp only [tokenAt, sliceFrom_append, ok_bind, hafter, List.head?_cons, if_true]
  rfl

theorem tokenAt_text {c : Char} (hopen : c ≠ '<') (hbrace : c ≠ '\x7b') (a r : List Char) :
    tokenAt (a ++ c :: r) (width a) =
      .ok ((Token.textFrom c r).1, restPlace (a ++ c :: r) (Token.textFrom c r).2) := by
  have hafter : after? ['<', '>'] (c :: r) = none := by simp [after?, hopen.symm]
  have htext := textAt_append a c r
  rw [← textAt_of_not_isTextEnd (by simp [isTextEnd, hopen, hbrace])] at htext
  simp [tokenAt, sliceFrom_append, hafter, hopen, hbrace, htext]

theorem tokenAt_append {a r rest : List Char} {t : Token} (h : Token.next? r = some (t, rest)) :
    tokenAt (a ++ r) (width a) = .ok (t, restPlace (a ++ r) rest) := by
  unfold Token.next? at h
  split at h
  next => simp at h
  next r =>
    rw [tokenAt_fragment]
    cases hcontent : content? [] r with
    | none =>
      rw [hcontent] at h
      obtain ⟨rfl, rfl⟩ := Prod.mk.inj (Option.some.inj h)
      rfl
    | some p =>
      rw [hcontent] at h
      obtain ⟨rfl, rfl⟩ := Prod.mk.inj (Option.some.inj h)
      rfl
  next r hopen =>
    have hr : r.head? ≠ some '>' := fun hhead => by
      obtain ⟨r', hr'⟩ := List.head?_eq_some_iff.mp hhead
      exact hopen r' hr'
    rw [tokenAt_element hr]
    exact elementAt_append (Option.some.inj h)
  next r =>
    rw [tokenAt_container]
    cases hcut : cut? '\x7d' r with
    | none =>
      rw [hcut] at h
      obtain ⟨rfl, rfl⟩ := Prod.mk.inj (Option.some.inj h)
      rfl
    | some p =>
      rw [hcut] at h
      obtain ⟨rfl, rfl⟩ := Prod.mk.inj (Option.some.inj h)
      rfl
  next c r _ hopen hbrace =>
    rw [tokenAt_text hopen hbrace, Option.some.inj h]

theorem tokenAt_eq {s r rest : List Char} {t : Token} (hs : r <:+ s)
    (h : Token.next? r = some (t, rest)) :
    tokenAt s (restPlace s r) = .ok (t, restPlace s rest) := by
  obtain ⟨lead, rfl⟩ := hs
  rw [restPlace_of_append rfl, tokenAt_append h]

end StaticPreview.Place
