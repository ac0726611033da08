import StaticPreview.Markup.Render
import StaticPreview.Proofs.Markup.Token
import StaticPreview.Proofs.Text.Characters
import StaticPreview.Proofs.Text.Trim

/-! # Comments in containers

A container is left out by the two ends of its expression. Comments and blanks alone begin and end
as one comment does, but so do two comments with anything between them.
-/
namespace StaticPreview.Markup
open Text

/-- What a comment may hold: the end mark behind it is the first. -/
def CommentText (body : List Char) : Prop :=
  ¬['*', '/'] <:+: body ++ ['*']

instance : DecidablePred CommentText := fun _ => inferInstanceAs (Decidable ¬_)

inductive OnlyComments : List Char → Prop
  | nil : OnlyComments []
  | blank {c : Char} {r : List Char} (hc : isBlank c) (hr : OnlyComments r) : OnlyComments (c :: r)
  | comment {body r : List Char} (hbody : CommentText body) (hr : OnlyComments r) :
      OnlyComments ('/' :: '*' :: (body ++ '*' :: '/' :: r))

theorem exists_commentText {s : List Char} (h : ['*', '/'] <:+: s) :
    ∃ body r, CommentText body ∧ s = body ++ '*' :: '/' :: r := by
  induction s with
  | nil => simp at h
  | cons c s ih =>
    by_cases hfirst : ['*', '/'] <+: c :: s
    · obtain ⟨r, hr⟩ := hfirst
      exact ⟨[], r, by decide, hr.symm⟩
    · obtain ⟨body, r, hbody, rfl⟩ := ih ((List.infix_cons_iff.mp h).resolve_left hfirst)
      refine ⟨c :: body, r, fun hinfix => ?_, rfl⟩
      rcases List.infix_cons_iff.mp hinfix with hlead | hinfix
      · exact hfirst (hlead.trans ⟨'/' :: r, by simp⟩)
      · exact hbody hinfix

theorem CommentText.eq_nil_of_append {a u x y : List Char} (h : CommentText (a ++ u))
    (hu : '*' :: '/' :: x = u ++ '*' :: '/' :: y) : u = [] := by
  rcases u with _ | ⟨c, _ | ⟨d, u⟩⟩
  · rfl
  · simp at hu
  · obtain ⟨rfl, rfl⟩ : '*' = c ∧ '/' = d := by
      simp only [List.cons_append, List.cons.injEq] at hu
      exact ⟨hu.1, hu.2.1⟩
    exact absurd ⟨a, u ++ ['*'], by simp⟩ h

/-- A comment ends at one place only. -/
theorem CommentText.rest_unique {a b x y : List Char} (ha : CommentText a) (hb : CommentText b)
    (h : a ++ '*' :: '/' :: x = b ++ '*' :: '/' :: y) : x = y := by
  rcases List.append_eq_append_iff.mp h with ⟨u, rfl, hu⟩ | ⟨u, rfl, hu⟩
  · obtain rfl := hb.eq_nil_of_append hu
    simpa using hu
  · obtain rfl := ha.eq_nil_of_append hu
    simpa using hu.symm

theorem onlyComments_iff {s : List Char} :
    OnlyComments s ↔ s = [] ∨ (∃ c r, isBlank c ∧ OnlyComments r ∧ s = c :: r) ∨
      ∃ body r, CommentText body ∧ OnlyComments r ∧
        s = '/' :: '*' :: (body ++ '*' :: '/' :: r) := by
  constructor
  · intro h
    cases h with
    | nil => exact .inl rfl
    | @blank c r hc hr => exact .inr (.inl ⟨c, r, hc, hr, rfl⟩)
    | @comment body r hbody hr => exact .inr (.inr ⟨body, r, hbody, hr, rfl⟩)
  · rintro (rfl | ⟨c, r, hc, hr, rfl⟩ | ⟨body, r, hbody, hr, rfl⟩)
    · exact .nil
    · exact .blank hc hr
    · exact .comment hbody hr

theorem onlyComments_comment_iff {body : List Char} (hbody : CommentText body) (r : List Char) :
    OnlyComments ('/' :: '*' :: (body ++ '*' :: '/' :: r)) ↔ OnlyComments r := by
  refine ⟨fun h => ?_, .comment hbody⟩
  rcases onlyComments_iff.mp h with hnil | ⟨c, r', hc, -, heq⟩ | ⟨body', r', hbody', hr', heq⟩
  · cases hnil
  · obtain ⟨rfl, -⟩ := List.cons.inj heq
    exact absurd hc (by decide)
  · have hrest := hbody.rest_unique hbody' (List.cons.inj (List.cons.inj heq).2).2
    rwa [hrest]

theorem onlyComments_blanks_append_iff {gap : List Char} (hgap : AllBlank gap) (s : List Char) :
    OnlyComments (gap ++ s) ↔ OnlyComments s := by
  induction gap with
  | nil => rfl
  | cons c gap ih =>
    obtain ⟨hc, hgap⟩ := List.forall_mem_cons.mp hgap
    rw [← ih hgap]
    refine ⟨fun h => ?_, .blank hc⟩
    rcases onlyComments_iff.mp h with hnil | ⟨d, r, -, hr, heq⟩ | ⟨body, r, -, -, heq⟩
    · cases hnil
    · obtain ⟨rfl, rfl⟩ := List.cons.inj heq
      exact hr
    · obtain ⟨rfl, -⟩ := List.cons.inj heq
      exact absurd hc (by decide)

theorem onlyComments_append_blanks_iff {gap : List Char} (hgap : AllBlank gap) (s : List Char) :
    OnlyComments (s ++ gap) ↔ OnlyComments s := by
  constructor
  · intro h
    generalize ht : s ++ gap = t at h
    induction h generalizing s with
    | nil =>
      obtain ⟨rfl, -⟩ := List.append_eq_nil_iff.mp ht
      exact .nil
    | blank hc _ ih =>
      cases s with
      | nil => exact .nil
      | cons d s =>
        obtain ⟨rfl, hs⟩ := List.cons.inj ht
        exact .blank hc (ih s hs)
    | @comment body r hbody _ ih =>
      -- The end mark is not among the blanks, so it stands in the text.
      have hslash : '/' ∉ gap := not_mem_of_blank hgap (by decide)
      have hwritten : s ++ gap = ('/' :: '*' :: (body ++ ['*'])) ++ '/' :: r := by simp [ht]
      obtain ⟨u, rfl, rfl⟩ := exists_of_append_eq_append_cons hslash hwritten
      simpa using OnlyComments.comment hbody (ih u rfl)
  · intro h
    induction h with
    | nil => simpa using (onlyComments_blanks_append_iff hgap []).mpr .nil
    | blank hc _ ih => exact .blank hc ih
    | comment hbody _ ih => simpa using OnlyComments.comment hbody ih

theorem onlyComments_trim_iff (e : List Char) : OnlyComments (trim e) ↔ OnlyComments e := by
  obtain ⟨gap, behind, hgap, hbehind, he⟩ := exists_gaps_trim e
  calc OnlyComments (trim e) ↔ OnlyComments (trim e ++ behind) :=
        (onlyComments_append_blanks_iff hbehind _).symm
    _ ↔ OnlyComments (gap ++ (trim e ++ behind)) := (onlyComments_blanks_append_iff hgap _).symm
    _ ↔ OnlyComments e := by rw [← he]

theorem isComment_iff {e : List Char} :
    isComment e ↔ ['/', '*'] <+: trim e ∧ ['*', '/'] <:+ trim e := by
  simp [isComment]

theorem OnlyComments.isSuffix {s : List Char} (h : OnlyComments s) (hne : s ≠ [])
    (hlast : ∀ c ∈ s.getLast?, isBlank c = false) : ['*', '/'] <:+ s := by
  have behind {lead r : List Char} (hlast : ∀ c ∈ (lead ++ r).getLast?, isBlank c = false) :
      ∀ c ∈ r.getLast?, isBlank c = false := by
    intro c hc
    apply hlast
    rw [List.getLast?_append, Option.mem_def.mp hc]
    rfl
  induction h with
  | nil => exact absurd rfl hne
  | @blank c r hc _ ih =>
    have hr : r ≠ [] := by
      rintro rfl
      rw [hlast c rfl] at hc
      cases hc
    exact (ih hr (@behind [c] r hlast)).trans (List.suffix_cons c r)
  | @comment body r _ _ ih =>
    have hwritten : '/' :: '*' :: (body ++ '*' :: '/' :: r) =
        ('/' :: '*' :: body ++ ['*', '/']) ++ r := by simp
    by_cases hr : r = []
    · exact ⟨'/' :: '*' :: body, by simp [hr]⟩
    · rw [hwritten] at hlast ⊢
      exact (ih hr (behind hlast)).trans (List.suffix_append _ r)

/-- Comments with blanks around them are taken for a comment. -/
theorem isComment_of_onlyComments {e : List Char} (h : OnlyComments e) (hblank : ¬AllBlank e) :
    isComment e := by
  have htrim := (onlyComments_trim_iff e).mpr h
  have hne : trim e ≠ [] := mt trim_eq_nil_iff.mp hblank
  refine isComment_iff.mpr
    ⟨?_, htrim.isSuffix hne fun _ => not_isBlank_of_getLast?_trimEnd⟩
  obtain ⟨d, t, hd, hstart⟩ := (trim_cases e).resolve_left hne
  rcases onlyComments_iff.mp htrim with hnil | ⟨c, r, hc, -, heq⟩ | ⟨body, r, -, -, heq⟩
  · exact absurd hnil hne
  · obtain ⟨rfl, -⟩ := List.cons.inj (hstart.symm.trans heq)
    rw [hd] at hc
    cases hc
  · rw [heq]
    exact ⟨_, rfl⟩

/-- Whether a text that is not made of comments begins and ends as one: the two marks share their
asterisk, or there is something else between the first comment and the last end mark. -/
def Misread (s : List Char) : Prop :=
  s = ['/', '*', '/'] ∨ ∃ body more, CommentText body ∧ ¬OnlyComments (more ++ ['*', '/']) ∧
    s = '/' :: '*' :: (body ++ '*' :: '/' :: (more ++ ['*', '/']))

theorem not_onlyComments_slash : ¬OnlyComments ['/', '*', '/'] := by
  intro h
  rcases onlyComments_iff.mp h with hnil | ⟨c, r, hc, -, heq⟩ | ⟨body, r, -, -, heq⟩
  · cases hnil
  · obtain ⟨rfl, -⟩ := List.cons.inj heq
    exact absurd hc (by decide)
  · have hlength := congrArg List.length heq
    simp only [List.length_cons, List.length_nil, List.length_append] at hlength
    omega

theorem eq_nil_or_ends_of_append {a b r : List Char}
    (h : a ++ ['*', '/'] = b ++ '*' :: '/' :: r) : r = [] ∨ ∃ more, r = more ++ ['*', '/'] := by
  rcases List.append_eq_append_iff.mp h with ⟨u, rfl, hu⟩ | ⟨u, rfl, hu⟩
  · have hlength := congrArg List.length hu
    simp only [List.length_append, List.length_cons, List.length_nil] at hlength
    exact .inl (List.length_eq_zero_iff.mp (by omega))
  · rcases u with _ | ⟨c, _ | ⟨d, more⟩⟩
    · exact .inl (by simpa using hu)
    · simp at hu
    · simp only [List.cons_append, List.cons.injEq] at hu
      exact .inr ⟨more, hu.2.2⟩

theorem misread_iff {s : List Char} :
    Misread s ↔ (['/', '*'] <+: s ∧ ['*', '/'] <:+ s) ∧ ¬OnlyComments s := by
  constructor
  · rintro (rfl | ⟨body, more, hbody, hmore, rfl⟩)
    · exact ⟨by decide, not_onlyComments_slash⟩
    · refine ⟨⟨⟨_, rfl⟩, '/' :: '*' :: (body ++ '*' :: '/' :: more), by simp⟩, ?_⟩
      rwa [onlyComments_comment_iff hbody]
  · rintro ⟨⟨⟨t, ht⟩, u, rfl⟩, honly⟩
    rcases u with _ | ⟨a, _ | ⟨b, inner⟩⟩
    · simp at ht
    · obtain ⟨rfl, -⟩ := List.cons.inj ht
      exact .inl rfl
    · obtain ⟨rfl, htail⟩ := List.cons.inj ht
      obtain ⟨rfl, -⟩ := List.cons.inj htail
      obtain ⟨body, r, hbody, hinner⟩ :=
        exists_commentText (s := inner ++ ['*', '/']) ⟨inner, [], by simp⟩
      have hwritten : '/' :: '*' :: inner ++ ['*', '/'] =
          '/' :: '*' :: (body ++ '*' :: '/' :: r) := by simp [hinner]
      rw [hwritten, onlyComments_comment_iff hbody] at honly
      rcases eq_nil_or_ends_of_append hinner with rfl | ⟨more, rfl⟩
      · exact absurd .nil honly
      · exact .inr ⟨body, more, hbody, honly, hwritten⟩

theorem htmlOfNodes_append (depth : Nat) (a b : List Node) :
    htmlOfNodes depth (a ++ b) = (do
      let first ← htmlOfNodes depth a
      let last ← htmlOfNodes depth b
      return first ++ last) := by
  induction a with
  | nil => simp [htmlOfNodes]
  | cons node a ih =>
    simp only [List.cons_append, htmlOfNodes, ih, bind_assoc, pure_bind, List.append_assoc]

/-- A container without a closing brace in it renders to a placeholder, or to nothing where it
passes for a comment. -/
theorem htmlOfNodes_parse_container {e : List Char} (he : '\x7d' ∉ e) (depth : Nat)
    (before : List Node) (r : List Char) :
    htmlOfNodes depth (before ++ Node.parse ('\x7b' :: e ++ '\x7d' :: r)) = (do
      let first ← htmlOfNodes depth before
      let last ← htmlOfNodes depth (Node.parse r)
      return first ++ ((if isComment e then [] else placeholder) ++ last)) := by
  have hplain : ∀ c ∈ e, c ≠ '\x7d' := by
    rintro c hc rfl
    exact he hc
  rw [htmlOfNodes_append, Node.parse_of_next? (Token.next?_container hplain r), Token.node,
    htmlOfNodes, Node.html]
  simp

theorem render_of_isComment {e : List Char} (he : '\x7d' ∉ e) (h : isComment e) :
    render ('\x7b' :: e ++ ['\x7d']) = .ok [] := by
  have hhtml := htmlOfNodes_parse_container he 0 [] []
  rw [if_pos h, Node.parse_nil] at hhtml
  exact hhtml

/-- A container shows nothing or the placeholder, wherever it stands. It shows nothing in place of
comments, and in place of what is misread for them. -/
theorem htmlOfNodes_container {e : List Char} (he : '\x7d' ∉ e) (depth : Nat)
    (before : List Node) (r : List Char) :
    ∃ shown, htmlOfNodes depth (before ++ Node.parse ('\x7b' :: e ++ '\x7d' :: r)) = (do
        let first ← htmlOfNodes depth before
        let last ← htmlOfNodes depth (Node.parse r)
        return first ++ (shown ++ last)) ∧
      (shown = [] ∨ shown = placeholder) ∧
      ((shown = [] → OnlyComments e) ↔ ¬Misread (trim e)) ∧
      (OnlyComments e → (shown = [] ↔ ¬AllBlank e)) := by
  have hshown : (if isComment e then [] else placeholder) = [] ↔ isComment e := by
    have hne : placeholder ≠ [] := by decide
    by_cases hc : isComment e <;> simp [hc, hne]
  refine ⟨if isComment e then [] else placeholder, htmlOfNodes_parse_container he depth before r,
    ?_, ?_, fun honly => ?_⟩
  · split
    · exact .inl rfl
    · exact .inr rfl
  · rw [hshown, misread_iff, onlyComments_trim_iff, ← isComment_iff]
    constructor
    · rintro h ⟨hcomment, honly⟩
      exact honly (h hcomment)
    · intro h hcomment
      exact Classical.byContradiction fun honly => h ⟨hcomment, honly⟩
  · rw [hshown]
    refine ⟨fun hcomment hblank => ?_, isComment_of_onlyComments honly⟩
    have hnil := trim_eq_nil_iff.mpr hblank
    rw [isComment_iff, hnil] at hcomment
    exact absurd hcomment (by decide)

/-- A comment that ends in two asterisks, and one that holds a slash. -/
theorem htmlOfNodes_container_notes :
    '\x7d' ∉ " /* a **/\n/*/*/".toList ∧ OnlyComments " /* a **/\n/*/*/".toList ∧
      htmlOfNodes 1 (.container ['y'] :: Node.parse "\x7b /* a **/\n/*/*/\x7d".toList) =
        .ok placeholder := by
  have hbrace : '\x7d' ∉ " /* a **/\n/*/*/".toList := by decide
  have honly : OnlyComments (' ' :: '/' :: '*' :: ([' ', 'a', ' ', '*'] ++ '*' :: '/' ::
      ('\n' :: '/' :: '*' :: (['/'] ++ '*' :: '/' :: [])))) :=
    .blank (by decide) (.comment (by decide) (.blank (by decide) (.comment (by decide) .nil)))
  obtain ⟨shown, hhtml, -, -, hnothing⟩ := htmlOfNodes_container hbrace 1 [.container ['y']] []
  obtain rfl := (hnothing honly).mpr (by decide)
  rw [Node.parse_nil] at hhtml
  exact ⟨hbrace, honly, hhtml⟩

/-- A name between two comments, and a start mark with the end mark in it. -/
theorem render_misread :
    render "\x7b/* a */ user.name /* b */\x7d".toList = .ok [] ∧
      render "\x7b/*/\x7d".toList = .ok [] ∧
      ¬OnlyComments "/* a */ user.name /* b */".toList ∧ ¬OnlyComments "/*/".toList := by
  have hnames : '\x7d' ∉ "/* a */ user.name /* b */".toList := by decide
  have hslash : '\x7d' ∉ "/*/".toList := by decide
  refine ⟨render_of_isComment hnames (by decide), render_of_isComment hslash (by decide),
    fun h => ?_, not_onlyComments_slash⟩
  have hbody : CommentText " a ".toList := by decide
  have hblank : AllBlank " ".toList := by decide
  have hmore := (onlyComments_comment_iff hbody " user.name /* b */".toList).mp h
  have hname := (onlyComments_blanks_append_iff hblank "user.name /* b */".toList).mp hmore
  rcases onlyComments_iff.mp hname with hnil | ⟨c, r, hc, -, heq⟩ | ⟨body, r, -, -, heq⟩
  · cases hnil
  · obtain ⟨rfl, -⟩ := List.cons.inj heq
    exact absurd hc (by decide)
  · cases (List.cons.inj heq).1

end StaticPreview.Markup
