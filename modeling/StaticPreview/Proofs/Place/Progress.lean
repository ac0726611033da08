import StaticPreview.Proofs.Markup.Written
import StaticPreview.Proofs.Place.Render

/-! # Tokens cover a text

Each token takes at least one character, whatever the text is, and the next one begins where it
stops. So the tokens of a text cover it from end to end, and rendering comes to an end although
nothing is known of how deep elements are nested: the content of a token is shorter than the text.
-/
namespace StaticPreview.Place
open Text Markup

/-- What the reading of a token at a place of a text makes sure of. -/
structure Reads (span : List Char) (place : Nat) (t : Token) (stop : Nat) : Prop where
  reads : tokenAt span place = .ok (t, stop)
  advances : place < stop
  le_width : stop ≤ width span
  isBoundary : IsBoundary span stop
  written : ∃ written, slice span place stop = .ok written ∧ t.Written written
  parts : ∀ part ∈ t.parts, ∃ start stop', place ≤ start ∧ start ≤ stop' ∧ stop' ≤ stop ∧
    slice span start stop' = .ok part
  smaller : width t.content < width span

theorem isBoundary_zero (span : List Char) : IsBoundary span 0 :=
  ⟨[], span, rfl, rfl⟩

/-- A part of what stands at a place lies behind the place and before the stop. -/
theorem exists_slice_of_isInfix {lead middle rest part : List Char} (h : part <:+: middle) :
    ∃ start stop, width lead ≤ start ∧ start ≤ stop ∧ stop ≤ width (lead ++ middle) ∧
      slice (lead ++ middle ++ rest) start stop = .ok part := by
  obtain ⟨before, behind, rfl⟩ := h
  refine ⟨width (lead ++ before), width (lead ++ before ++ part), by simp, by simp, ?_, ?_⟩
  · simp only [width_append]
    omega
  · exact slice_eq_ok_iff.mpr ⟨lead ++ before, behind ++ rest, by simp, rfl, rfl⟩

/-- There is a token at every place before the end that is no place inside a character. -/
theorem exists_reads {span : List Char} {place : Nat} (hplace : IsBoundary span place)
    (hlt : place < width span) : ∃ t stop, Reads span place t stop := by
  obtain ⟨lead, behind, rfl, rfl⟩ := hplace
  have hne : behind ≠ [] := by
    rintro rfl
    simp at hlt
  obtain ⟨⟨t, rest⟩, hnext⟩ := Option.ne_none_iff_exists'.mp (mt Token.next?_eq_none_iff.mp hne)
  obtain ⟨written, hwritten, rfl⟩ := Token.written_of_next? hnext
  have hpos := width_pos hwritten.ne_nil
  have hstop : restPlace (lead ++ (written ++ rest)) rest = width (lead ++ written) :=
    restPlace_of_append (List.append_assoc ..)
  refine ⟨t, width (lead ++ written), ?_⟩
  exact {
    reads := by rw [tokenAt_append hnext, hstop]
    advances := by
      rw [width_append]
      omega
    le_width := by simp
    isBoundary := ⟨lead ++ written, rest, by simp, rfl⟩
    written := by
      refine ⟨written, ?_, hwritten⟩
      rw [width_append]
      exact slice_append lead written rest
    parts := by
      intro part hpart
      rw [← List.append_assoc]
      exact exists_slice_of_isInfix (hwritten.isInfix_of_mem_parts part hpart)
    smaller := by
      have hcontent := width_content_lt (hwritten.covers rest)
      rw [width_append lead]
      omega }

/-- A bracket that begins no tag is a token, even right in front of another bracket. -/
example : tokenAt ['<', '<', '\x7b'] 0 = .ok (.text ['<'], 1) := rfl

structure Visit where
  start : Nat
  token : Token
  stop : Nat

def Visit.Has (v : Visit) (place : Nat) : Prop :=
  v.start ≤ place ∧ place < v.stop

instance (v : Visit) (place : Nat) : Decidable (v.Has place) :=
  inferInstanceAs (Decidable (_ ∧ _))

/-- Whether tokens stand one behind the other from a place of a text to its end. -/
def Tiles (span : List Char) (place : Nat) : List Visit → Prop
  | [] => place = width span
  | v :: more => v.start = place ∧ Reads span place v.token v.stop ∧ Tiles span v.stop more

section
variable {span : List Char} {place : Nat} {visits : List Visit}

theorem exists_tiles (h : IsBoundary span place) (hle : place ≤ width span) :
    ∃ visits, Tiles span place visits := by
  induction hn : width span - place using Nat.strongRecOn generalizing place with
  | ind n ih =>
    subst hn
    by_cases hend : place = width span
    · exact ⟨[], hend⟩
    · -- The next token stops nearer to the end, and between two characters again.
      obtain ⟨t, stop, hreads⟩ := exists_reads h (Nat.lt_of_le_of_ne hle hend)
      have hadvances := hreads.advances
      have hstop := hreads.le_width
      obtain ⟨more, hmore⟩ := ih (width span - stop) (by omega) hreads.isBoundary hstop rfl
      exact ⟨⟨place, t, stop⟩ :: more, rfl, hreads, hmore⟩

/-- There are no more tokens than bytes. -/
theorem Tiles.length_le (h : Tiles span place visits) : place + visits.length ≤ width span := by
  induction visits generalizing place with
  | nil => exact Nat.le_of_eq h
  | cons v more ih =>
    obtain ⟨-, hreads, hmore⟩ := h
    have hadvances := hreads.advances
    have hlength := ih hmore
    rw [List.length_cons]
    omega

/-- Every byte behind the place stands in one token, and none before it in any. -/
theorem Tiles.countP_has (h : Tiles span place visits) (byte : Nat) :
    visits.countP (fun v => v.Has byte) = if place ≤ byte ∧ byte < width span then 1 else 0 := by
  induction visits generalizing place with
  | nil =>
    have hend : place = width span := h
    rw [List.countP_nil, if_neg (by omega)]
  | cons v more ih =>
    obtain ⟨rfl, hreads, hmore⟩ := h
    have hadvances := hreads.advances
    have hstop := hreads.le_width
    have hhas : v.Has byte ↔ v.start ≤ byte ∧ byte < v.stop := Iff.rfl
    rw [List.countP_cons, ih hmore]
    simp only [decide_eq_true_eq, hhas]
    split <;> split <;> split <;> omega

theorem Tiles.reads_of_mem (h : Tiles span place visits) :
    ∀ v ∈ visits, Reads span v.start v.token v.stop := by
  induction visits generalizing place with
  | nil => simp
  | cons v more ih =>
    obtain ⟨rfl, hreads, hmore⟩ := h
    exact List.forall_mem_cons.mpr ⟨hreads, ih hmore⟩

end

/-- Emits tokens one after the other, up to the first anomaly. -/
def emitEach (emitToken : Token → Rendering) (out : List Char) : List Token → Rendering
  | [] => return .ok out
  | t :: more => do
    match ← emitToken t with
    | .ok html => emitEach emitToken (out ++ html) more
    | .error anomaly => return .error anomaly

section
variable {span : List Char} {place : Nat} {visits : List Visit}

/-- Whatever is made of the content of tokens, the loop emits the tokens in their order. -/
theorem loop_renderTurn {inner : List Char → Rendering} {depth turns : Nat} {out : List Char}
    (h : Tiles span place visits) (hturns : visits.length < turns) :
    loop (renderTurn inner depth span) turns (place, out) =
      emitEach (emit inner depth) out (visits.map Visit.token) := by
  obtain ⟨turns, rfl⟩ := Nat.exists_eq_add_one.mpr (Nat.zero_lt_of_lt hturns)
  induction visits generalizing place out turns with
  | nil =>
    obtain rfl : place = width span := h
    simp [loop, renderTurn, emitEach]
  | cons v more ih =>
    obtain ⟨-, hreads, hmore⟩ := h
    have hplace := Nat.lt_of_lt_of_le hreads.advances hreads.le_width
    rw [List.length_cons] at hturns
    obtain ⟨turns, rfl⟩ := Nat.exists_eq_add_one.mpr (show 0 < turns by omega)
    rw [List.map_cons, emitEach, loop, renderTurn, if_pos hplace, hreads.reads]
    simp only [ok_bind]
    cases emit inner depth v.token with
    | error fault => rfl
    | ok result =>
      cases result with
      | error anomaly => rfl
      | ok html => exact ih hmore turns (by omega)

end

/-- Renders a text like `renderSpan`, but takes every token for one that is in no element, so that
no nesting is too deep. -/
def renderFreely : (levels : Nat) → (span : List Char) → Rendering
  | 0, _ => .error .endless
  | levels + 1, span => loop (renderTurn (renderFreely levels) 0 span) (width span + 1) (0, [])

theorem exists_emit {inner : List Char → Rendering} {t : Token}
    (h : ∃ html, inner t.content = .ok (.ok html)) : ∃ html, emit inner 0 t = .ok (.ok html) := by
  obtain ⟨html, h⟩ := h
  cases t with
  | element name attributes content =>
    rw [Token.content] at h
    rw [emit, if_neg (by decide), attributesHtml_eq, h]
    exact ⟨_, rfl⟩
  | fragment content =>
    rw [emit, if_neg (by decide)]
    exact ⟨html, h⟩
  | container expression => exact ⟨_, rfl⟩
  | text run =>
    simp only [emit, collapseRun_eq, ok_bind, escapeText_eq]
    split <;> exact ⟨_, rfl⟩

theorem exists_emitEach {emitToken : Token → Rendering} {ts : List Token}
    (h : ∀ t ∈ ts, ∃ html, emitToken t = .ok (.ok html)) (out : List Char) :
    ∃ html, emitEach emitToken out ts = .ok (.ok html) := by
  induction ts generalizing out with
  | nil => exact ⟨out, rfl⟩
  | cons t more ih =>
    obtain ⟨⟨html, ht⟩, hmore⟩ := List.forall_mem_cons.mp h
    rw [emitEach, ht]
    exact ih hmore (out ++ html)

/-- A text of every nesting is rendered, since content is shorter than the text that it is in. -/
theorem exists_renderFreely {levels : Nat} {span : List Char} (h : width span < levels) :
    ∃ html, renderFreely levels span = .ok (.ok html) := by
  induction levels generalizing span with
  | zero => exact absurd h (Nat.not_lt_zero _)
  | succ levels ih =>
    obtain ⟨visits, htiles⟩ := exists_tiles (isBoundary_zero span) (Nat.zero_le _)
    have hlength := htiles.length_le
    -- Each token has less content than the text has bytes, so one level less will do for it.
    rw [renderFreely, loop_renderTurn htiles (by omega)]
    refine exists_emitEach (fun t ht => exists_emit ?_) []
    obtain ⟨v, hv, rfl⟩ := List.mem_map.mp ht
    exact ih (Nat.lt_of_lt_of_le (htiles.reads_of_mem v hv).smaller (Nat.le_of_lt_succ h))

/-- The same text inside other elements is emitted alike, unless it is nested too deep there. -/
theorem emit_cases {inner inner' : List Char → Rendering} {t : Token}
    (h : inner t.content = inner' t.content ∨
      ∃ anomaly, inner t.content = .ok (.error anomaly)) (depth : Nat) :
    emit inner depth t = emit inner' 0 t ∨
      ∃ anomaly, emit inner depth t = .ok (.error anomaly) := by
  cases t with
  | element name attributes content =>
    rw [Token.content] at h
    rw [emit, emit, attributesHtml_eq, if_neg (show ¬ maxDepth ≤ 0 by decide)]
    split
    · exact .inr ⟨_, rfl⟩
    · rcases h with h | ⟨anomaly, h⟩ <;> rw [h]
      · exact .inl rfl
      · exact .inr ⟨anomaly, rfl⟩
  | fragment content =>
    rw [emit, emit, if_neg (show ¬ maxDepth ≤ 0 by decide)]
    split
    · exact .inr ⟨_, rfl⟩
    · exact h
  | container expression => exact .inl rfl
  | text run => exact .inl rfl

/-- Where a way to emit a token agrees with another one or fails, it does so on all tokens. -/
theorem emitEach_cases {emitToken emitToken' : Token → Rendering} {ts : List Token}
    (h : ∀ t ∈ ts, emitToken t = emitToken' t ∨ ∃ anomaly, emitToken t = .ok (.error anomaly))
    (out : List Char) :
    emitEach emitToken out ts = emitEach emitToken' out ts ∨
      ∃ anomaly, emitEach emitToken out ts = .ok (.error anomaly) := by
  induction ts generalizing out with
  | nil => exact .inl rfl
  | cons t more ih =>
    obtain ⟨ht, hmore⟩ := List.forall_mem_cons.mp h
    rw [emitEach, emitEach]
    rcases ht with ht | ⟨anomaly, ht⟩ <;> rw [ht]
    · cases emitToken' t with
      | error fault => exact .inl rfl
      | ok result =>
        cases result with
        | error anomaly => exact .inl rfl
        | ok html => exact ih hmore (out ++ html)
    · exact .inr ⟨anomaly, rfl⟩

/-- What the limit of nesting changes is that some texts are not rendered. -/
theorem renderSpan_cases (levels depth : Nat) (span : List Char) :
    renderSpan levels depth span = renderFreely levels span ∨
      ∃ anomaly, renderSpan levels depth span = .ok (.error anomaly) := by
  induction levels generalizing depth span with
  | zero => exact .inl rfl
  | succ levels ih =>
    obtain ⟨visits, htiles⟩ := exists_tiles (isBoundary_zero span) (Nat.zero_le _)
    have hlength := htiles.length_le
    rw [renderSpan, renderFreely, loop_renderTurn htiles (by omega),
      loop_renderTurn htiles (by omega)]
    exact emitEach_cases (fun t _ => emit_cases (ih (depth + 1) t.content) depth) []

/-- Every token of a text takes some of it, all in one piece and with all that the token holds, so
that the loop visits each byte with one token. And rendering ends on every text, even if nothing
stops it where elements are nested deep. -/
theorem tokens_cover (span : List Char) :
    (∀ place, IsBoundary span place → place < width span →
      ∃ t stop, Reads span place t stop) ∧
    (∃ visits, Tiles span 0 visits ∧
      (∀ byte, byte < width span → visits.countP (fun v => v.Has byte) = 1) ∧
      ∀ inner depth, loop (renderTurn inner depth span) (width span + 1) (0, []) =
        emitEach (emit inner depth) [] (visits.map Visit.token)) ∧
    ∃ html, renderFreely (width span + 1) span = .ok (.ok html) ∧
      ∀ depth, renderSpan (width span + 1) depth span = .ok (htmlOfNodes depth (Node.parse span)) ∧
        (htmlOfNodes depth (Node.parse span) = .ok html ∨
          ∃ anomaly, htmlOfNodes depth (Node.parse span) = .error anomaly) := by
  refine ⟨fun place hplace hlt => exists_reads hplace hlt, ?_, ?_⟩
  · obtain ⟨visits, htiles⟩ := exists_tiles (isBoundary_zero span) (Nat.zero_le _)
    have hlength := htiles.length_le
    refine ⟨visits, htiles, fun byte hbyte => ?_, fun inner depth => ?_⟩
    · rw [htiles.countP_has, if_pos ⟨Nat.zero_le byte, hbyte⟩]
    · exact loop_renderTurn htiles (by omega)
  · obtain ⟨html, hfree⟩ := exists_renderFreely (Nat.lt_succ_self (width span))
    refine ⟨html, hfree, fun depth => ?_⟩
    have hspan := renderSpan_eq (Nat.lt_succ_self (width span)) depth
    refine ⟨hspan, ?_⟩
    have hcases := renderSpan_cases (width span + 1) depth span
    rw [hspan, hfree] at hcases
    rcases hcases with hsame | ⟨anomaly, hanomaly⟩
    · exact .inl (Except.ok.inj hsame)
    · exact .inr ⟨anomaly, Except.ok.inj hanomaly⟩

end StaticPreview.Place
