import StaticPreview.Proofs.Component.Returns
import StaticPreview.Proofs.Text.Trim

/-! # The return that closes a file

A return closes its file when an operand and a closing follow it and nothing else does. Of the
returns that close a file the last one counts, and what stands before it decides only whether it is
a whole word.
-/
namespace StaticPreview.Component
open Text

/-- Whether a whole word `return` stands behind `lead`, with an operand in these marks and a closing
up to the end of the source. -/
def ClosingReturn (m : Marks) (source lead inner : List Char) : Prop :=
  ∃ rest, source = lead ++ ("return".toList ++ rest) ∧ EndsOffWord lead ∧ Operand m rest inner

def LastClosingReturn (m : Marks) (source lead inner : List Char) : Prop :=
  ClosingReturn m source lead inner ∧
    ∀ n lead' inner', ClosingReturn n source lead' inner' → lead'.length ≤ lead.length

def Trimmed (s : List Char) : Prop :=
  (∀ c ∈ s.head?, isBlank c = false) ∧ ∀ c ∈ s.getLast?, isBlank c = false

theorem Operand.unique {m n : Marks} {s inner inner' : List Char} (h : Operand m s inner)
    (h' : Operand n s inner') : m = n ∧ inner = inner' := by
  obtain ⟨t, hs, ht⟩ := operand_iff_skipBlank.mp h
  obtain ⟨t', hs', ht'⟩ := operand_iff_skipBlank.mp h'
  obtain ⟨hopen, hplace⟩ := List.cons.inj (hs.symm.trans hs')
  obtain rfl := Marks.opening_injective hopen
  exact ⟨rfl, (append_cons_inj_of_last (m.closing_not_mem ht) (m.closing_not_mem ht') hplace).1⟩

theorem Operand.startsOffWord {m : Marks} {s inner : List Char} (h : Operand m s inner) :
    StartsOffWord s := by
  obtain ⟨gap, t, rfl, hgap, -⟩ := h
  cases gap with
  | nil => simp [StartsOffWord]
  | cons c gap => simpa [StartsOffWord] using not_isWord_of_isBlank (hgap c List.mem_cons_self)

theorem closingReturn_iff_operand {m : Marks} {source lead inner rest : List Char}
    (hsource : source = lead ++ ("return".toList ++ rest)) :
    ClosingReturn m source lead inner ↔ EndsOffWord lead ∧ Operand m rest inner := by
  constructor
  · rintro ⟨rest', hsource', hlead, hoperand⟩
    obtain rfl : rest = rest' := by simpa [hsource'] using hsource.symm
    exact ⟨hlead, hoperand⟩
  · rintro ⟨hlead, hoperand⟩
    exact ⟨rest, hsource, hlead, hoperand⟩

theorem exists_closingReturn_iff {m : Marks} {source inner : List Char} :
    (∃ lead, ClosingReturn m source lead inner) ↔
      ∃ rest, HasReturn source rest ∧ Operand m rest inner := by
  constructor
  · rintro ⟨lead, rest, hsource, hlead, hoperand⟩
    exact ⟨rest, ⟨lead, hsource, hlead, hoperand.startsOffWord⟩, hoperand⟩
  · rintro ⟨rest, ⟨lead, hsource, hlead, -⟩, hoperand⟩
    exact ⟨lead, rest, hsource, hlead, hoperand⟩

theorem length_of_mem_afterReturns {before : Option Char} {s rest : List Char}
    (h : rest ∈ afterReturns before s) : rest.length + 6 ≤ s.length := by
  obtain ⟨lead, rfl, -, -⟩ := mem_afterReturns_iff.mp h
  have hword : "return".toList.length = 6 := rfl
  simp only [List.length_append, hword]
  omega

/-- The texts behind the returns get shorter along the source. -/
theorem pairwise_afterReturns (before : Option Char) (s : List Char) :
    (afterReturns before s).Pairwise fun a b => b.length < a.length := by
  induction s generalizing before with
  | nil => simp [afterReturns]
  | cons c r ih =>
    rw [afterReturns]
    cases hafter : after? "return".toList (c :: r) with
    | none => exact ih (some c)
    | some rest =>
      dsimp only
      split
      · exact ih (some c)
      · refine List.pairwise_cons.mpr ⟨fun rest' hrest' => ?_, ih (some c)⟩
        have hlength := congrArg List.length (after?_eq_some_iff.mp hafter)
        have hrest := length_of_mem_afterReturns hrest'
        have hword : "return".toList.length = 6 := rfl
        simp only [List.length_append, hword, List.length_cons] at hlength
        omega

/-- A search from the end of a list in which the sizes fall finds the smallest member that has a
result. -/
theorem findSome?_reverse_eq_some_iff {α β : Type} {size : α → Nat} {f : α → Option β}
    {l : List α} (hl : l.Pairwise fun a b => size b < size a) {b : β} :
    l.reverse.findSome? f = some b ↔
      ∃ a ∈ l, f a = some b ∧ ∀ a' ∈ l, (f a').isSome → size a ≤ size a' := by
  rw [List.findSome?_eq_some_iff]
  constructor
  · rintro ⟨after, a, before, hsplit, ha, hafter⟩
    obtain rfl : l = before.reverse ++ a :: after.reverse := by
      simpa using congrArg List.reverse hsplit
    obtain ⟨-, -, hbefore⟩ := List.pairwise_append.mp hl
    refine ⟨a, by simp, ha, fun a' ha' hsome => ?_⟩
    rcases List.mem_append.mp ha' with hmem | hmem
    · exact Nat.le_of_lt (hbefore a' hmem a List.mem_cons_self)
    · rcases List.mem_cons.mp hmem with rfl | hmem
      · exact Nat.le_refl _
      · simp [hafter a' (List.mem_reverse.mp hmem)] at hsome
  · rintro ⟨a, hmem, ha, hleast⟩
    obtain ⟨before, after, rfl⟩ := List.append_of_mem hmem
    obtain ⟨-, htail, -⟩ := List.pairwise_append.mp hl
    refine ⟨after.reverse, a, before.reverse, by simp, ha, fun a' ha' => ?_⟩
    have hafter := List.mem_reverse.mp ha'
    have hlt := (List.pairwise_cons.mp htail).1 a' hafter
    rw [← Option.not_isSome_iff_eq_none]
    intro hsome
    have hle := hleast a' (by simp [hafter]) hsome
    omega

theorem markup?_eq_some_iff {source x : List Char} :
    markup? source = some x ↔
      ∃ m lead inner, LastClosingReturn m source lead inner ∧ x = unwrap (m.operand inner) := by
  have hlength {lead rest : List Char} (h : source = lead ++ ("return".toList ++ rest)) :
      source.length = lead.length + 6 + rest.length := by
    have hword : "return".toList.length = 6 := rfl
    rw [h, List.length_append, List.length_append, hword, Nat.add_assoc]
  rw [markup?, Option.map_eq_some_iff]
  simp only [findSome?_reverse_eq_some_iff (pairwise_afterReturns none source),
    mem_afterReturns_none_iff, operand?_eq_some_iff, isSome_operand?_iff]
  constructor
  · rintro ⟨_, ⟨rest, ⟨lead, hsource, hlead, -⟩, ⟨m, inner, hoperand, rfl⟩, hleast⟩, rfl⟩
    refine ⟨m, lead, inner, ⟨⟨rest, hsource, hlead, hoperand⟩, ?_⟩, rfl⟩
    rintro n lead' inner' ⟨rest', hsource', hlead', hoperand'⟩
    have hle := hleast rest' ⟨lead', hsource', hlead', hoperand'.startsOffWord⟩
      ⟨n, inner', hoperand'⟩
    have h := hlength hsource
    have h' := hlength hsource'
    omega
  · rintro ⟨m, lead, inner, ⟨⟨rest, hsource, hlead, hoperand⟩, hlast⟩, rfl⟩
    refine ⟨_, ⟨rest, ⟨lead, hsource, hlead, hoperand.startsOffWord⟩,
      ⟨m, inner, hoperand, rfl⟩, ?_⟩, rfl⟩
    rintro rest' ⟨lead', hsource', hlead', -⟩ ⟨n, inner', hoperand'⟩
    have hle := hlast n lead' inner' ⟨rest', hsource', hlead', hoperand'⟩
    have h := hlength hsource
    have h' := hlength hsource'
    omega

theorem endsOffWord_append_iff {s u : List Char} (hne : u ≠ []) :
    EndsOffWord (s ++ u) ↔ EndsOffWord u := by
  rcases u.eq_nil_or_concat with rfl | ⟨u, c, rfl⟩
  · exact absurd rfl hne
  · simp [EndsOffWord]

/-- A text before the last return may be exchanged for any other that ends off a word. -/
theorem LastClosingReturn.change_lead {m : Marks} {lead s inner : List Char}
    (h : LastClosingReturn m (lead ++ s) lead inner) {lead' : List Char}
    (hlead' : EndsOffWord lead') : LastClosingReturn m (lead' ++ s) lead' inner := by
  obtain ⟨⟨rest, hsource, hlead, hoperand⟩, hlast⟩ := h
  obtain rfl : s = "return".toList ++ rest := List.append_cancel_left hsource
  refine ⟨⟨rest, rfl, hlead', hoperand⟩, ?_⟩
  rintro n lead₂ inner₂ ⟨rest₂, hsource₂, hlead₂, hoperand₂⟩
  refine Nat.le_of_not_lt fun hlt => ?_
  rcases List.append_eq_append_iff.mp hsource₂ with ⟨u, rfl, hu⟩ | ⟨u, rfl, -⟩
  · have hne : u ≠ [] := by
      rintro rfl
      simp at hlt
    have hoff : EndsOffWord (lead ++ u) :=
      (endsOffWord_append_iff hne).mpr ((endsOffWord_append_iff hne).mp hlead₂)
    have hle := hlast n (lead ++ u) inner₂
      ⟨rest₂, by rw [hu, List.append_assoc], hoff, hoperand₂⟩
    have hpos := List.length_pos_iff.mpr hne
    rw [List.length_append] at hle
    omega
  · rw [List.length_append] at hlt
    omega

theorem trimmed_trim (s : List Char) : Trimmed (trim s) := by
  constructor
  · intro c hc
    obtain ⟨r, hr⟩ := List.head?_eq_some_iff.mp hc
    obtain ⟨gap, hgap⟩ := isPrefix_trimEnd (trimStart s)
    have hstart : (trimStart s).head? = some c := by
      rw [← hgap, ← trim, hr]
      rfl
    exact not_isBlank_of_head?_skipBlank hstart
  · intro c hc
    exact not_isBlank_of_getLast?_trimEnd hc

theorem isInfix_stripParens (s : List Char) : stripParens s <:+: s := by
  rw [stripParens]
  split
  · have hdropped := List.dropLast_prefix s.tail
    exact (isInfix_trim s.tail.dropLast).trans
      (hdropped.isInfix.trans (List.tail_suffix s).isInfix)
  · exact List.infix_refl s

theorem isInfix_stripFragment (s : List Char) : stripFragment s <:+: s := by
  rw [stripFragment]
  split
  next content h =>
    obtain ⟨r, hr, hcontent⟩ := Option.bind_eq_some_iff.mp h
    refine (isInfix_trim content).trans ⟨['<', '>'], Markup.closingTag [], ?_⟩
    have hr' := Markup.append_of_readContent? hcontent
    rw [← after?_eq_some_iff.mp hr, ← hr', List.append_nil, List.append_assoc]
  · exact List.infix_refl s

theorem isInfix_unwrap (s : List Char) : unwrap s <:+: s :=
  (isInfix_stripFragment _).trans ((isInfix_stripParens _).trans (isInfix_trim s))

theorem trimmed_unwrap (s : List Char) : Trimmed (unwrap s) := by
  have hparens : Trimmed (stripParens (trim s)) := by
    rw [stripParens]
    split
    · exact trimmed_trim _
    · exact trimmed_trim s
  rw [unwrap, stripFragment]
  split
  · exact trimmed_trim _
  · exact hparens

theorem ClosingReturn.isInfix_operand {m : Marks} {source lead inner : List Char}
    (h : ClosingReturn m source lead inner) : m.operand inner <:+: source := by
  obtain ⟨_, rfl, -, gap, t, rfl, -, -⟩ := h
  cases m with
  | parens =>
    exact ⟨lead ++ ("return".toList ++ (gap ++ ['('])), ')' :: t,
      by simp [Marks.operand, Marks.opening, Marks.closing]⟩
  | angles =>
    exact ⟨lead ++ ("return".toList ++ gap), t,
      by simp [Marks.operand, Marks.opening, Marks.closing]⟩

theorem isSome_markup?_iff_closingReturn {source : List Char} :
    (markup? source).isSome ↔ ∃ m lead inner, ClosingReturn m source lead inner := by
  rw [isSome_markup?_iff]
  simp only [isSome_operand?_iff]
  constructor
  · rintro ⟨rest, hrest, m, inner, hoperand⟩
    obtain ⟨lead, h⟩ := exists_closingReturn_iff.mpr ⟨rest, hrest, hoperand⟩
    exact ⟨m, lead, inner, h⟩
  · rintro ⟨m, lead, inner, h⟩
    obtain ⟨rest, hrest, hoperand⟩ := exists_closingReturn_iff.mp ⟨lead, h⟩
    exact ⟨rest, hrest, m, inner, hoperand⟩

theorem ClosingReturn.unique {m n : Marks} {source lead inner inner' : List Char}
    (h : ClosingReturn m source lead inner) (h' : ClosingReturn n source lead inner') :
    m = n ∧ inner = inner' := by
  obtain ⟨rest, hsource, -, hoperand⟩ := h
  obtain ⟨-, hoperand'⟩ := (closingReturn_iff_operand hsource).mp h'
  exact hoperand.unique hoperand'

/-- The markup of a source, with nothing left to the order in which it is searched. -/
theorem markup?_closingReturn (source : List Char) :
    ((markup? source).isSome ↔ ∃ m lead inner, ClosingReturn m source lead inner) ∧
      (∀ x, markup? source = some x ↔
        ∃ m lead inner, LastClosingReturn m source lead inner ∧ x = unwrap (m.operand inner)) ∧
      (∀ m n lead inner inner', ClosingReturn m source lead inner →
        ClosingReturn n source lead inner' → m = n ∧ inner = inner') ∧
      (∀ x, markup? source = some x → x <:+: source ∧ Trimmed x) ∧
      ∀ m lead s inner, source = lead ++ s → LastClosingReturn m source lead inner →
        ∀ lead', EndsOffWord lead' → markup? (lead' ++ s) = markup? source := by
  refine ⟨isSome_markup?_iff_closingReturn, fun x => markup?_eq_some_iff,
    fun m n lead inner inner' => ClosingReturn.unique, fun x hx => ?_, ?_⟩
  · obtain ⟨m, lead, inner, hlast, rfl⟩ := markup?_eq_some_iff.mp hx
    exact ⟨(isInfix_unwrap _).trans hlast.1.isInfix_operand, trimmed_unwrap _⟩
  · rintro m lead s inner rfl hlast lead' hlead'
    have hother := markup?_eq_some_iff.mpr ⟨m, lead', inner, hlast.change_lead hlead', rfl⟩
    have hself := markup?_eq_some_iff.mpr ⟨m, lead, inner, hlast, rfl⟩
    exact hother.trans hself.symm

def twoComponents : List Char :=
  "function Row() \x7b return <li/>; \x7d\nfunction App() \x7b\n  return (\n    <><b>hi</b></>\n  );\n\x7d
export default App;\n".toList

theorem markup?_twoComponents :
    markup? twoComponents = some "<b>hi</b>".toList ∧
      ∃ m lead inner, LastClosingReturn m twoComponents lead inner ∧
        "<b>hi</b>".toList = unwrap (m.operand inner) := by
  have h : markup? twoComponents = some "<b>hi</b>".toList := by decide +kernel
  exact ⟨h, ((markup?_closingReturn twoComponents).2.1 "<b>hi</b>".toList).mp h⟩

end StaticPreview.Component
