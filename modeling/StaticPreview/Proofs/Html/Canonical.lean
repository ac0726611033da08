import StaticPreview.Proofs.Html.Decoder

/-! # Escaped texts

Escaping changes nothing in a safe text, so nothing is escaped twice. What it does change reads the
same once the references are decoded.
-/
namespace StaticPreview.Html

theorem escapeChar_of_safe {c : Char} {r : List Char} (hc : isMarkupChar c = false)
    (hamp : c = '&' → CompletesReference r) : escapeChar c r = [c] := by
  unfold escapeChar
  split
  case h_1 => rw [if_pos (isSome_reference?_iff.mpr (hamp rfl))]
  case h_6 => rfl
  all_goals exact absurd hc (by decide)

theorem escape_of_safe {s : List Char} (h : Safe s) : escape s = s := by
  induction s with
  | nil => rfl
  | cons c r ih =>
    obtain ⟨hc, hamp, hr⟩ := h
    rw [escape, escapeChar_of_safe hc hamp, ih hr, List.singleton_append]

def isReferenceChar (c : Char) : Bool :=
  c.isAlphanum || c == '&' || c == '#' || c == ';'

theorem mem_of_mem_escapeChar {c d : Char} {r : List Char} (hd : d ∈ escapeChar c r) :
    d = c ∨ isReferenceChar d := by
  have hwritten : ∀ text ∈ ["&amp;", "&lt;", "&gt;", "&quot;", "&#x27;"],
      ∀ d ∈ text.toList, isReferenceChar d := by
    decide
  unfold escapeChar at hd
  split at hd
  next =>
    split at hd
    next => exact .inl (List.mem_singleton.mp hd)
    next => exact .inr (hwritten _ (by simp) d hd)
  next => exact .inr (hwritten _ (by simp) d hd)
  next => exact .inr (hwritten _ (by simp) d hd)
  next => exact .inr (hwritten _ (by simp) d hd)
  next => exact .inr (hwritten _ (by simp) d hd)
  next => exact .inl (List.mem_singleton.mp hd)

/-- Escaping brings no characters into a text but those of references. -/
theorem mem_of_mem_escape {c : Char} {s : List Char} (hc : c ∈ escape s) :
    c ∈ s ∨ isReferenceChar c := by
  induction s with
  | nil => cases hc
  | cons d r ih =>
    rcases List.mem_append.mp hc with hc | hc
    · rcases mem_of_mem_escapeChar hc with rfl | hc
      · exact .inl List.mem_cons_self
      · exact .inr hc
    · exact (ih hc).imp_left (List.mem_cons_of_mem d)

/-- A reference is complete before the text behind it begins. -/
theorem Safe.append {a b : List Char} (ha : Safe a) (hb : Safe b) : Safe (a ++ b) := by
  induction a with
  | nil => exact hb
  | cons c r ih =>
    obtain ⟨hc, hamp, hr⟩ := ha
    refine ⟨hc, fun heq => ?_, ih hr⟩
    obtain ⟨body, rest, hbody, rfl⟩ := hamp heq
    exact ⟨body, rest ++ b, hbody, by simp⟩

variable {meaning : List Char → List Char}

theorem decodeBy_known {p : List Char × Char} (hp : p ∈ references) (h : meaning p.1 = [p.2])
    (s : List Char) : decodeBy meaning ('&' :: p.1 ++ ';' :: s) = p.2 :: decodeBy meaning s := by
  rw [decodeBy_reference (referenceBody_of_mem_references hp), h, List.singleton_append]

/-- What is written of a character that is no ampersand is read as that character. -/
theorem decodeBy_escapeChar_append (h : DecodesMarks meaning) {c : Char} (hc : c ≠ '&')
    (r s : List Char) : decodeBy meaning (escapeChar c r ++ s) = c :: decodeBy meaning s := by
  unfold escapeChar
  split
  next => exact absurd rfl hc
  next => exact decodeBy_known (p := ("lt".toList, '<')) (by simp [references]) h.lt s
  next => exact decodeBy_known (p := ("gt".toList, '>')) (by simp [references]) h.gt s
  next => exact decodeBy_known (p := ("quot".toList, '"')) (by simp [references]) h.quot s
  next => exact decodeBy_known (p := ("#x27".toList, '\'')) (by simp [references]) h.apos s
  next => exact decodeBy_char hc s

/-- Decoding goes over the text as escaping does, but takes a reference in one step. -/
theorem decodeBy_escape (h : DecodesMarks meaning) (s : List Char) :
    decodeBy meaning (escape s) = decodeBy meaning s := by
  fun_induction decodeBy meaning s with
  | case1 => rw [escape, decodeBy]
  | case2 r body rest hreference _ ih =>
    have hbody := referenceBody_of_reference? hreference
    have hchar : escapeChar '&' r = ['&'] := if_pos (by rw [hreference, Option.isSome_some])
    have hrest : escape (';' :: rest) = ';' :: escape rest := rfl
    have hr : escape r = body ++ ';' :: escape rest := by
      rw [← append_of_reference? hreference, escape_append_of_isAlphanum_or hbody.isAlphanum_or,
        hrest]
    have hwritten : escape ('&' :: r) = '&' :: body ++ ';' :: escape rest := by
      rw [escape, hchar, hr, List.singleton_append, List.cons_append]
    rw [hwritten, decodeBy_reference hbody, ih]
  | case3 r hreference ih =>
    have hread := decodeBy_known (p := ("amp".toList, '&')) (by simp [references]) h.amp (escape r)
    have hchar : escapeChar '&' r = '&' :: "amp".toList ++ [';'] := if_neg (by simp [hreference])
    have hwritten : escape ('&' :: r) = '&' :: "amp".toList ++ ';' :: escape r := by
      simp only [escape, hchar, List.append_assoc, List.singleton_append]
    rw [hwritten, hread, ih]
  | case4 c r hc ih => rw [escape, decodeBy_escapeChar_append h hc, ih]

/-- What is escaped is safe, a safe text is left as it is, so that escaping again changes nothing,
and every decoder of references reads the same from the escaped text as from the text. -/
theorem escape_canonical (s : List Char) :
    Safe (escape s) ∧ (Safe s → escape s = s) ∧ escape (escape s) = escape s ∧
      ∀ meaning, DecodesMarks meaning → decodeBy meaning (escape s) = decodeBy meaning s :=
  ⟨safe_escape s, escape_of_safe, escape_of_safe (safe_escape s), fun _ h => decodeBy_escape h s⟩

theorem escape_canonical_mixed :
    Safe "&nbsp;&#169;".toList ∧ escape "&nbsp;&#169;".toList = "&nbsp;&#169;".toList ∧
      DecodesMarks tableMeaning ∧
      decodeBy tableMeaning (escape "R&D; <b>&nbsp;&amp;".toList) = "R&D; <b>&nbsp;&".toList := by
  have hsafe : Safe "&nbsp;&#169;".toList := by decide
  have hread : decodeBy tableMeaning "R&D; <b>&nbsp;&amp;".toList = "R&D; <b>&nbsp;&".toList := by
    decide +kernel
  obtain ⟨-, hsame, -, -⟩ := escape_canonical "&nbsp;&#169;".toList
  obtain ⟨-, -, -, hdecode⟩ := escape_canonical "R&D; <b>&nbsp;&amp;".toList
  exact ⟨hsafe, hsame hsafe, decodesMarks_tableMeaning,
    (hdecode tableMeaning decodesMarks_tableMeaning).trans hread⟩

end StaticPreview.Html
