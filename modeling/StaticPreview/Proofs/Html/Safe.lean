import StaticPreview.Html.Escape
import StaticPreview.Proofs.Text.Characters

/-! # Texts without markup

A text is safe when it can stand between tags or inside a quoted value: it holds no angle bracket
and no quotation mark, and each of its ampersands starts a character reference. Escaping makes
every text safe.
-/
namespace StaticPreview.Html

inductive ReferenceBody : List Char → Prop
  | decimal {digits : List Char} (hd : ∀ c ∈ digits, c.isDigit) (h1 : 1 ≤ digits.length)
      (h7 : digits.length ≤ 7) : ReferenceBody ('#' :: digits)
  | hexadecimal {x : Char} {digits : List Char} (hx : x = 'x' ∨ x = 'X')
      (hd : ∀ c ∈ digits, Text.isHexDigit c) (h1 : 1 ≤ digits.length) (h6 : digits.length ≤ 6) :
      ReferenceBody ('#' :: x :: digits)
  | named {c : Char} {run : List Char} (hc : c.isAlpha) (hr : ∀ d ∈ run, d.isAlphanum)
      (h1 : 1 ≤ run.length) (h31 : run.length ≤ 31) : ReferenceBody (c :: run)

/-- Whether a text completes the reference that an ampersand before it begins. -/
def CompletesReference (s : List Char) : Prop :=
  ∃ body rest, ReferenceBody body ∧ s = body ++ ';' :: rest

def isMarkupChar (c : Char) : Bool :=
  c == '<' || c == '>' || c == '"' || c == '\''

def Safe : List Char → Prop
  | [] => True
  | c :: r => isMarkupChar c = false ∧ (c = '&' → CompletesReference r) ∧ Safe r

/-- A run is found where exactly such characters stand before a semicolon. -/
theorem closedRun?_eq_some_iff {p : Char → Bool} (hp : p ';' = false) {least most : Nat}
    {s a b : List Char} : closedRun? p least most s = some (a, b) ↔
      s = a ++ ';' :: b ∧ (∀ c ∈ a, p c) ∧ least ≤ a.length ∧ a.length ≤ most := by
  constructor
  · intro h
    refine ⟨(append_of_closedRun? h).symm, ?_⟩
    rw [closedRun?] at h
    split at h
    · split at h
      next hlen =>
        obtain ⟨rfl, -⟩ := Prod.mk.inj (Option.some.inj h)
        refine ⟨List.all_eq_true.mp List.all_takeWhile, ?_⟩
        simpa using hlen
      next => simp at h
    · simp at h
  · rintro ⟨rfl, ha, hleast, hmost⟩
    have htake : (a ++ ';' :: b).takeWhile p = a := by
      rw [List.takeWhile_append_of_pos ha]
      simp [hp]
    have hdrop : (a ++ ';' :: b).dropWhile p = ';' :: b := by
      rw [List.dropWhile_append_of_pos ha]
      simp [hp]
    simp [closedRun?, htake, hdrop, hleast, hmost]

theorem referenceBody_of_reference? {s a b : List Char} (h : reference? s = some (a, b)) :
    ReferenceBody a := by
  unfold reference? at h
  split at h
  next x r =>
    split at h
    next hx =>
      obtain ⟨⟨run, after⟩, hrun, heq⟩ := Option.map_eq_some_iff.mp h
      obtain ⟨rfl, -⟩ := Prod.mk.inj heq
      obtain ⟨-, hd, h1, h6⟩ := (closedRun?_eq_some_iff (by decide)).mp hrun
      exact .hexadecimal hx hd h1 h6
    next =>
      obtain ⟨⟨run, after⟩, hrun, heq⟩ := Option.map_eq_some_iff.mp h
      obtain ⟨rfl, -⟩ := Prod.mk.inj heq
      obtain ⟨-, hd, h1, h7⟩ := (closedRun?_eq_some_iff (by decide)).mp hrun
      exact .decimal hd h1 h7
  next c r _ =>
    split at h
    next hc =>
      obtain ⟨⟨run, after⟩, hrun, heq⟩ := Option.map_eq_some_iff.mp h
      obtain ⟨rfl, -⟩ := Prod.mk.inj heq
      obtain ⟨-, hr, h1, h31⟩ := (closedRun?_eq_some_iff (by decide)).mp hrun
      exact .named hc hr h1 h31
    next => simp at h
  next => simp at h

theorem reference?_of_referenceBody {a : List Char} (ha : ReferenceBody a) (b : List Char) :
    reference? (a ++ ';' :: b) = some (a, b) := by
  cases ha with
  | @decimal digits hd h1 h7 =>
    cases digits with
    | nil => simp at h1
    | cons c digits =>
      have hc : c.isDigit := hd c List.mem_cons_self
      have hx : ¬(c = 'x' ∨ c = 'X') := by
        rintro (rfl | rfl) <;> simp [Char.isDigit] at hc
      have hrun := (closedRun?_eq_some_iff (p := Char.isDigit) (by decide) (b := b)).mpr
        ⟨rfl, hd, h1, h7⟩
      simp only [List.cons_append] at hrun ⊢
      simp [reference?, hx, hrun]
  | @hexadecimal x digits hx hd h1 h6 =>
    have hrun := (closedRun?_eq_some_iff (p := Text.isHexDigit) (by decide) (b := b)).mpr
      ⟨rfl, hd, h1, h6⟩
    simp [reference?, hx, hrun]
  | @named c run hc hr h1 h31 =>
    have hne : c ≠ '#' := by
      rintro rfl
      exact absurd hc (by decide)
    have hrun := (closedRun?_eq_some_iff (p := Char.isAlphanum) (by decide) (b := b)).mpr
      ⟨rfl, hr, h1, h31⟩
    simp [reference?, hne, hc, hrun]

theorem isSome_reference?_iff {s : List Char} : (reference? s).isSome ↔ CompletesReference s := by
  constructor
  · intro h
    obtain ⟨⟨a, b⟩, hab⟩ := Option.isSome_iff_exists.mp h
    exact ⟨a, b, referenceBody_of_reference? hab, (append_of_reference? hab).symm⟩
  · rintro ⟨a, b, ha, rfl⟩
    rw [reference?_of_referenceBody ha]
    rfl

instance : DecidablePred CompletesReference := fun _ =>
  decidable_of_iff _ isSome_reference?_iff

instance decidableSafe : DecidablePred Safe
  | [] => .isTrue trivial
  | _ :: r =>
    have := decidableSafe r
    inferInstanceAs (Decidable (_ ∧ _ ∧ _))

theorem ReferenceBody.isAlphanum_or {body : List Char} (h : ReferenceBody body) :
    ∀ c ∈ body, c.isAlphanum ∨ c = '#' := by
  intro c hc
  cases h with
  | decimal hd _ _ =>
    rcases List.mem_cons.mp hc with rfl | hc
    · exact .inr rfl
    · exact .inl (by simp [Char.isAlphanum, hd c hc])
  | hexadecimal hx hd _ _ =>
    rcases List.mem_cons.mp hc with rfl | hc
    · exact .inr rfl
    rcases List.mem_cons.mp hc with rfl | hc
    · left
      rcases hx with rfl | rfl <;> decide
    · exact .inl (Text.isAlphanum_of_isHexDigit (hd c hc))
  | named hc' hr _ _ =>
    rcases List.mem_cons.mp hc with rfl | hc
    · exact .inl (by simp [Char.isAlphanum, hc'])
    · exact .inl (hr c hc)

/-- Letters, digits and number signs are written as they are. -/
theorem escapeChar_of_isAlphanum_or {c : Char} (h : c.isAlphanum ∨ c = '#') (r : List Char) :
    escapeChar c r = [c] := by
  unfold escapeChar
  split
  case h_6 => rfl
  all_goals exact absurd h (by decide)

theorem escape_append_of_isAlphanum_or {run : List Char} (h : ∀ c ∈ run, c.isAlphanum ∨ c = '#')
    (s : List Char) : escape (run ++ s) = run ++ escape s := by
  induction run with
  | nil => rfl
  | cons c r ih =>
    have hr := ih fun d hd => h d (List.mem_cons_of_mem c hd)
    simp [escape, hr, escapeChar_of_isAlphanum_or (h c List.mem_cons_self)]

/-- Escaping what follows an ampersand leaves a reference there as it is. -/
theorem CompletesReference.escape {s : List Char} (h : CompletesReference s) :
    CompletesReference (escape s) := by
  obtain ⟨body, rest, hbody, rfl⟩ := h
  refine ⟨body, Html.escape rest, hbody, ?_⟩
  rw [escape_append_of_isAlphanum_or hbody.isAlphanum_or]
  rfl

theorem Safe.append_of_plain {run s : List Char}
    (h : ∀ c ∈ run, isMarkupChar c = false ∧ c ≠ '&') (hs : Safe s) : Safe (run ++ s) := by
  induction run with
  | nil => exact hs
  | cons c r ih =>
    obtain ⟨hc, hamp⟩ := h c List.mem_cons_self
    exact ⟨hc, fun heq => absurd heq hamp, ih fun d hd => h d (List.mem_cons_of_mem c hd)⟩

theorem Safe.not_isMarkupChar {s : List Char} (h : Safe s) : ∀ c ∈ s, isMarkupChar c = false := by
  induction s with
  | nil => simp
  | cons c r ih => exact List.forall_mem_cons.mpr ⟨h.1, ih h.2.2⟩

theorem ne_of_not_isMarkupChar {c d : Char} (h : isMarkupChar c = false)
    (hd : isMarkupChar d = true) : c ≠ d := by
  rintro rfl
  simp [h] at hd

theorem ReferenceBody.plain {body : List Char} (h : ReferenceBody body) :
    ∀ c ∈ body, isMarkupChar c = false ∧ c ≠ '&' := by
  intro c hc
  have halnum := h.isAlphanum_or c hc
  constructor
  · cases hm : isMarkupChar c with
    | false => rfl
    | true =>
      simp only [isMarkupChar, Bool.or_eq_true, beq_iff_eq] at hm
      rcases hm with ((rfl | rfl) | rfl) | rfl <;> exact absurd halnum (by decide)
  · rintro rfl
    exact absurd halnum (by decide)

theorem safe_reference (body : List Char) {s : List Char} (hbody : ReferenceBody body)
    (hs : Safe s) : Safe ('&' :: body ++ ';' :: s) :=
  ⟨by decide, fun _ => ⟨body, s, hbody, rfl⟩,
    Safe.append_of_plain hbody.plain ⟨by decide, fun h => absurd h (by decide), hs⟩⟩

/-- Rests on what follows only where an ampersand is kept. -/
theorem safe_escapeChar_append {c : Char} {r s : List Char} (hs : Safe s)
    (hr : (reference? r).isSome → CompletesReference s) : Safe (escapeChar c r ++ s) := by
  have named (a : Char) (run : List Char) (h : a.isAlpha ∧ (∀ d ∈ run, d.isAlphanum) ∧
      1 ≤ run.length ∧ run.length ≤ 31) : Safe ('&' :: (a :: run) ++ ';' :: s) :=
    safe_reference (a :: run) (.named h.1 h.2.1 h.2.2.1 h.2.2.2) hs
  unfold escapeChar
  split
  next =>
    split
    next h => exact ⟨by decide, fun _ => hr h, hs⟩
    next => exact named 'a' ['m', 'p'] (by decide)
  next => exact named 'l' ['t'] (by decide)
  next => exact named 'g' ['t'] (by decide)
  next => exact named 'q' ['u', 'o', 't'] (by decide)
  next =>
    exact safe_reference ['#', 'x', '2', '7']
      (.hexadecimal (.inl rfl) (by decide) (by decide) (by decide)) hs
  next hamp hlt hgt hquot hapos =>
    refine ⟨?_, fun h => absurd h hamp, hs⟩
    simp only [isMarkupChar, Bool.or_eq_false_iff, beq_eq_false_iff_ne]
    exact ⟨⟨⟨hlt, hgt⟩, hquot⟩, hapos⟩

/-- An escaped text has no mark of a tag or a value, and each ampersand in it begins a reference. -/
theorem safe_escape (s : List Char) : Safe (escape s) := by
  induction s with
  | nil => trivial
  | cons c r ih =>
    exact safe_escapeChar_append ih fun h => (isSome_reference?_iff.mp h).escape

theorem ne_of_mem_escape {d : Char} (hd : isMarkupChar d = true) {s : List Char} :
    ∀ c ∈ escape s, c ≠ d := by
  intro c hc
  exact ne_of_not_isMarkupChar ((safe_escape s).not_isMarkupChar c hc) hd

end StaticPreview.Html
