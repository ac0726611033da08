import StaticPreview.Proofs.Html.Safe
import StaticPreview.Proofs.Markup.Behind
import StaticPreview.Proofs.Markup.Collapse
import StaticPreview.Proofs.Markup.Recovery
import StaticPreview.Proofs.Markup.Written

/-! # Blanks around markup

Blanks at either end of a text leave no more than blanks at that end of its HTML. Inside fewer
elements the HTML is the same.
-/
namespace StaticPreview.Html
open Text

theorem escapeChar_of_isBlank {c : Char} (hc : isBlank c) (r : List Char) :
    escapeChar c r = [c] := by
  unfold escapeChar
  split
  case h_6 => rfl
  all_goals exact absurd hc (by decide)

theorem escape_blanks_append {gap : List Char} (hgap : AllBlank gap) (s : List Char) :
    escape (gap ++ s) = gap ++ escape s := by
  induction gap with
  | nil => rfl
  | cons c gap ih =>
    obtain ⟨hc, hgap⟩ := List.forall_mem_cons.mp hgap
    rw [List.cons_append, escape, escapeChar_of_isBlank hc, ih hgap]
    rfl

theorem completesReference_append_blanks_iff {gap : List Char} (hgap : AllBlank gap)
    {s : List Char} : CompletesReference (s ++ gap) ↔ CompletesReference s := by
  have hend : ';' ∉ gap := not_mem_of_blank hgap (by decide)
  constructor
  · rintro ⟨body, rest, hbody, h⟩
    obtain ⟨u, rfl, -⟩ := exists_of_append_eq_append_cons hend h
    exact ⟨body, u, hbody, rfl⟩
  · rintro ⟨body, rest, hbody, rfl⟩
    exact ⟨body, rest ++ gap, hbody, by simp⟩

theorem escapeChar_append_blanks {gap : List Char} (hgap : AllBlank gap) (c : Char)
    (r : List Char) : escapeChar c (r ++ gap) = escapeChar c r := by
  have hsome : (reference? (r ++ gap)).isSome = (reference? r).isSome := by
    rw [Bool.eq_iff_iff, isSome_reference?_iff, isSome_reference?_iff,
      completesReference_append_blanks_iff hgap]
  unfold escapeChar
  rw [hsome]

theorem escape_append_blanks {gap : List Char} (hgap : AllBlank gap) (s : List Char) :
    escape (s ++ gap) = escape s ++ gap := by
  induction s with
  | nil =>
    have hblank := escape_blanks_append hgap []
    rw [List.append_nil] at hblank
    rw [List.nil_append, hblank]
    exact List.append_nil gap
  | cons c r ih =>
    rw [List.cons_append, escape, escape, escapeChar_append_blanks hgap, ih, List.append_assoc]

end StaticPreview.Html

namespace StaticPreview.Markup
open Text

mutual

theorem Node.html_of_succ {depth : Nat} {out : List Char} :
    ∀ {n : Node}, n.html (depth + 1) = .ok out → n.html depth = .ok out
  | .element name attributes children, h => by
    obtain ⟨hdepth, inner, hinner, rfl⟩ := Node.html_element_eq_ok_iff.mp h
    refine Node.html_element_eq_ok_iff.mpr ⟨by omega, inner, ?_, rfl⟩
    exact htmlOfNodes_of_succ hinner
  | .fragment children, h => by
    obtain ⟨hdepth, hinner⟩ := Node.html_fragment_eq_ok_iff.mp h
    refine Node.html_fragment_eq_ok_iff.mpr ⟨by omega, ?_⟩
    exact htmlOfNodes_of_succ hinner
  | .container expression, h =>
    Node.html_container_eq_ok_iff.mpr (Node.html_container_eq_ok_iff.mp h)
  | .text run, h => Node.html_text_eq_ok_iff.mpr (Node.html_text_eq_ok_iff.mp h)

/-- What renders at some depth renders alike one level higher. -/
theorem htmlOfNodes_of_succ {depth : Nat} {out : List Char} :
    ∀ {ns : List Node}, htmlOfNodes (depth + 1) ns = .ok out → htmlOfNodes depth ns = .ok out
  | [], h => h
  | node :: more, h => by
    obtain ⟨first, rest, hfirst, hrest, rfl⟩ := htmlOfNodes_cons_eq_ok_iff.mp h
    refine htmlOfNodes_cons_eq_ok_iff.mpr ⟨first, rest, ?_, ?_, rfl⟩
    · exact Node.html_of_succ hfirst
    · exact htmlOfNodes_of_succ hrest

end

theorem parse_of_blank {gap : List Char} (hgap : AllBlank gap) (hne : gap ≠ [])
    {s : List Char} (hs : StopsText s) : Node.parse (gap ++ s) = .text gap :: Node.parse s := by
  have hplain : ∀ c ∈ gap, c ≠ '<' ∧ c ≠ '\x7b' := by
    intro c hc
    exact ⟨ne_of_isBlank (hgap c hc) (by decide), ne_of_isBlank (hgap c hc) (by decide)⟩
  rw [Node.parse_of_next? (Token.next?_text hne hplain hs)]
  rfl

theorem html_text_of_blank {gap : List Char} (hgap : AllBlank gap) (depth : Nat) :
    (Node.text gap).html depth = .ok (keptTail gap) := by
  rw [Node.html_text_eq_ok_iff, collapse_of_blank hgap]
  have hescape := Html.escape_blanks_append (allBlank_keptTail hgap) []
  rw [List.append_nil] at hescape
  rw [hescape]
  exact (List.append_nil _).symm

theorem htmlOfNodes_parse_of_blank {gap : List Char} (hgap : AllBlank gap) (depth : Nat) :
    htmlOfNodes depth (Node.parse gap) = .ok (keptTail gap) := by
  by_cases hne : gap = []
  · subst hne
    rw [Node.parse_nil]
    rfl
  · have hparse := parse_of_blank hgap hne (s := []) nofun
    rw [List.append_nil, Node.parse_nil] at hparse
    rw [hparse, htmlOfNodes_cons_eq_ok_iff]
    exact ⟨keptTail gap, [], html_text_of_blank hgap depth, rfl, (List.append_nil _).symm⟩

/-- A text that begins with no mark of a tag or a container begins with a text run. -/
theorem exists_run (c : Char) (r : List Char) (hc : c ≠ '<' ∧ c ≠ '\x7b') :
    ∃ y rest, r = y ++ rest ∧ (∀ d ∈ c :: y, d ≠ '<' ∧ d ≠ '\x7b') ∧ StopsText rest := by
  let plain := fun d : Char => d != '<' && d != '\x7b'
  refine ⟨r.takeWhile plain, r.dropWhile plain, List.takeWhile_append_dropWhile.symm, ?_, ?_⟩
  · refine List.forall_mem_cons.mpr ⟨hc, fun d hd => ?_⟩
    simpa [plain] using List.all_eq_true.mp List.all_takeWhile d hd
  · intro d hd
    have hhead := List.head?_dropWhile_not plain r
    rw [Option.mem_def.mp hd] at hhead
    by_contra hne
    simp_all [plain]

/-- Blanks in front of a text leave blanks in front of its HTML. -/
theorem htmlOfNodes_parse_blanks_append {gap : List Char} (hgap : AllBlank gap) {s : List Char}
    (hs : ∀ c ∈ s.head?, isBlank c = false) {depth : Nat} {out : List Char}
    (h : htmlOfNodes depth (Node.parse (gap ++ s)) = .ok out) :
    ∃ lead inner, AllBlank lead ∧ out = lead ++ inner ∧
      htmlOfNodes depth (Node.parse s) = .ok inner := by
  cases s with
  | nil =>
    rw [List.append_nil, htmlOfNodes_parse_of_blank hgap] at h
    obtain rfl := Except.ok.inj h
    refine ⟨keptTail gap, [], allBlank_keptTail hgap, (List.append_nil _).symm, ?_⟩
    rw [Node.parse_nil]
    rfl
  | cons c r =>
    have hc : isBlank c = false := hs c rfl
    by_cases hmark : c ≠ '<' ∧ c ≠ '\x7b'
    · obtain ⟨y, rest, rfl, hrun, hrest⟩ := exists_run c r hmark
      have hplain : ∀ d ∈ gap ++ c :: y, d ≠ '<' ∧ d ≠ '\x7b' := by
        refine List.forall_mem_append.mpr ⟨fun d hd => ?_, hrun⟩
        exact ⟨ne_of_isBlank (hgap d hd) (by decide), ne_of_isBlank (hgap d hd) (by decide)⟩
      have hassoc : gap ++ c :: (y ++ rest) = gap ++ c :: y ++ rest := by simp
      rw [hassoc, Node.parse_of_next? (Token.next?_text (by simp) hplain hrest)] at h
      obtain ⟨first, more, hfirst, hmore, rfl⟩ := htmlOfNodes_cons_eq_ok_iff.mp h
      obtain rfl := Node.html_text_eq_ok_iff.mp hfirst
      refine ⟨keptLead gap, Html.escape (collapse (c :: y)) ++ more, allBlank_keptLead hgap, ?_, ?_⟩
      · rw [collapse_blanks_append hgap hc, Html.escape_blanks_append (allBlank_keptLead hgap),
          List.append_assoc]
      · have hnext := Token.next?_text (List.cons_ne_nil c y) hrun hrest
        rw [← List.cons_append, Node.parse_of_next? hnext]
        exact htmlOfNodes_cons_eq_ok_iff.mpr
          ⟨_, more, Node.html_text_eq_ok_iff.mpr rfl, hmore, rfl⟩
    · by_cases hne : gap = []
      · subst hne
        exact ⟨[], out, nofun, rfl, h⟩
      have hstop : StopsText (c :: r) := by
        rintro d ⟨rfl⟩
        by_contra hne
        exact hmark (not_or.mp hne)
      rw [parse_of_blank hgap hne hstop] at h
      obtain ⟨first, inner, hfirst, hinner, rfl⟩ := htmlOfNodes_cons_eq_ok_iff.mp h
      rw [html_text_of_blank hgap] at hfirst
      obtain rfl := Except.ok.inj hfirst
      exact ⟨keptTail gap, inner, allBlank_keptTail hgap, rfl, hinner⟩

/-- The blanks behind a run that ends in none leave blanks behind its HTML. -/
theorem html_text_append_blanks {gap : List Char} (hgap : AllBlank gap) {c : Char}
    (hc : isBlank c = false) (x : List Char) (depth : Nat) :
    (Node.text (x ++ [c] ++ gap)).html depth =
      .ok (Html.escape (collapse (x ++ [c])) ++ keptTail gap) := by
  rw [Node.html_text_eq_ok_iff, List.append_assoc, List.singleton_append,
    collapse_append_blanks hgap hc, Html.escape_append_blanks (allBlank_keptTail hgap)]

theorem html_container_append_blanks {gap : List Char} (hgap : AllBlank gap)
    {expression out : List Char} {depth : Nat}
    (h : (Node.container (expression ++ gap)).html depth = .ok out) :
    (Node.container expression).html depth = .ok out := by
  have hcomment : isComment (expression ++ gap) = isComment expression := by
    unfold isComment
    rw [trim_append_of_blank hgap]
  have hout := Node.html_container_eq_ok_iff.mp h
  rw [hcomment] at hout
  exact Node.html_container_eq_ok_iff.mpr hout

/-- A text that is one token is rendered as the node of that token. -/
theorem htmlOfNodes_parse_of_next? {s : List Char} {t : Token} (h : Token.next? s = some (t, []))
    {depth : Nat} {out : List Char} :
    htmlOfNodes depth (Node.parse s) = .ok out ↔
      (t.node (Node.parse t.content)).html depth = .ok out := by
  rw [Node.parse_of_next? h, Node.parse_nil, htmlOfNodes_cons_eq_ok_iff]
  constructor
  · rintro ⟨first, more, hfirst, hmore, rfl⟩
    obtain rfl := Except.ok.inj hmore
    rw [List.append_nil]
    exact hfirst
  · intro hfirst
    exact ⟨out, [], hfirst, rfl, (List.append_nil out).symm⟩

/-- Blanks behind a text leave blanks behind its HTML. -/
theorem htmlOfNodes_parse_append_blanks {gap : List Char} (hgap : AllBlank gap) {s : List Char}
    (hs : ∀ c ∈ s.getLast?, isBlank c = false) {depth : Nat} {out : List Char}
    (h : htmlOfNodes depth (Node.parse (s ++ gap)) = .ok out) :
    ∃ inner tail, AllBlank tail ∧ out = inner ++ tail ∧
      htmlOfNodes depth (Node.parse s) = .ok inner := by
  induction s using Node.parse.induct generalizing out with
  | case1 s hnext =>
    obtain rfl := Token.next?_eq_none_iff.mp hnext
    rw [List.nil_append, htmlOfNodes_parse_of_blank hgap] at h
    obtain rfl := Except.ok.inj h
    refine ⟨[], keptTail gap, allBlank_keptTail hgap, rfl, ?_⟩
    rw [Node.parse_nil]
    rfl
  | case2 s t rest hnext _ _ ih =>
    rcases Token.next?_append_blanks hgap hnext with hmore | ⟨rfl, ⟨rfl, hall⟩ | ⟨e, rfl, hall⟩⟩
    · have hlast : ∀ c ∈ rest.getLast?, isBlank c = false := by
        obtain ⟨lead, rfl⟩ := (Token.covers_of_next? hnext).isSuffix
        intro c hc
        apply hs
        rw [List.getLast?_append, Option.mem_def.mp hc]
        rfl
      rw [Node.parse_of_next? hmore] at h
      obtain ⟨first, more, hfirst, hrest, rfl⟩ := htmlOfNodes_cons_eq_ok_iff.mp h
      obtain ⟨inner, tail, htail, rfl, hinner⟩ := ih hlast hrest
      refine ⟨first ++ inner, tail, htail, (List.append_assoc first inner tail).symm, ?_⟩
      rw [Node.parse_of_next? hnext]
      exact htmlOfNodes_cons_eq_ok_iff.mpr ⟨first, inner, hfirst, hinner, rfl⟩
    · -- A run that reaches to the end: it takes the blanks, and they are collapsed with it.
      have hne : s ≠ [] := by
        rintro rfl
        cases hnext
      obtain ⟨x, c, rfl⟩ := (List.eq_nil_or_concat s).resolve_left hne
      rw [List.concat_eq_append] at hs hall hnext h ⊢
      have hc : isBlank c = false := hs c List.getLast?_concat
      have hout := (htmlOfNodes_parse_of_next? hall).mp h
      rw [Token.node, html_text_append_blanks hgap hc] at hout
      obtain rfl := Except.ok.inj hout
      refine ⟨_, keptTail gap, allBlank_keptTail hgap, rfl, ?_⟩
      exact (htmlOfNodes_parse_of_next? hnext).mpr (Node.html_text_eq_ok_iff.mpr rfl)
    · -- A container that is not closed: whether it is a comment is seen without the blanks.
      have hout := html_container_append_blanks hgap ((htmlOfNodes_parse_of_next? hall).mp h)
      exact ⟨out, [], nofun, (List.append_nil out).symm,
        (htmlOfNodes_parse_of_next? hnext).mpr hout⟩

end StaticPreview.Markup
