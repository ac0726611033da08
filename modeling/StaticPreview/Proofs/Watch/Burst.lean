import StaticPreview.Watch.Event

/-! # What is left of a burst

Of several reports of one kind about one path the first stays in its place and the others go.
-/
namespace StaticPreview.Watch

def reports (burst : List Signal) : List (Kind × RawText) :=
  burst.flatMap fun signal => signal.paths.map fun path => (signal.kind, path)

def kindsOf (path : RawText) (burst : List Signal) : List Kind :=
  ((reports burst).filter (·.2 == path)).map Prod.fst

/-- The events that a burst would have if none were left out. -/
def allEvents (burst : List Signal) : List Event :=
  (reports burst).filterMap fun report => classify? report.1 report.2

theorem events_eq_foldl (burst : List Signal) :
    events burst = (allEvents burst).foldl addEvent [] := by
  have hcollect (pending : List Event) :
      burst.foldl collect pending = (allEvents burst).foldl addEvent pending := by
    induction burst generalizing pending with
    | nil => rfl
    | cons signal more ih =>
      have hsplit : allEvents (signal :: more) =
          signal.paths.filterMap (classify? signal.kind) ++ allEvents more := by
        rw [allEvents, reports, List.flatMap_cons, List.filterMap_append, List.filterMap_map]
        rfl
      rw [List.foldl_cons, ih, hsplit, List.foldl_append, collect]
  exact hcollect []

def OneSpelling (es : List Event) : Prop :=
  ∀ a ∈ es, ∀ b ∈ es, Path.same a.path b.path → a.path = b.path

theorem same_self (e : Event) : e.same e := by
  simp [Event.same, Path.same]

theorem OneSpelling.eq_of_same {es : List Event} (h : OneSpelling es) {a b : Event} (ha : a ∈ es)
    (hb : b ∈ es) (hsame : a.same b) : a = b := by
  rw [Event.same, Bool.and_eq_true, beq_iff_eq] at hsame
  obtain ⟨hkind, hpath⟩ := hsame
  have hpath' := h a ha b hb hpath
  cases a
  cases b
  simp_all

theorem foldl_addEvent_eq_eraseDups (done es : List Event) (h : OneSpelling (done ++ es)) :
    es.foldl addEvent done.eraseDups = (done ++ es).eraseDups := by
  induction es generalizing done with
  | nil => simp
  | cons e more ih =>
    have hadd : addEvent done.eraseDups e = (done ++ [e]).eraseDups := by
      have hany : done.eraseDups.any e.same = decide (e ∈ done) := by
        rw [Bool.eq_iff_iff, List.any_eq_true, decide_eq_true_iff]
        constructor
        · rintro ⟨a, ha, hsame⟩
          have ha := List.mem_eraseDups.mp ha
          rwa [h.eq_of_same (by simp) (List.mem_append_left _ ha) hsame]
        · intro he
          exact ⟨e, List.mem_eraseDups.mpr he, same_self e⟩
      rw [addEvent, hany, List.eraseDups_append]
      by_cases he : e ∈ done
      · simp [he, List.removeAll]
      · simp [he, List.removeAll, List.eraseDups_cons]
    rw [List.foldl_cons, hadd, ih (done ++ [e]) (by simpa using h), List.append_assoc,
      List.singleton_append]

theorem events_eq_eraseDups {burst : List Signal} (h : OneSpelling (allEvents burst)) :
    events burst = (allEvents burst).eraseDups := by
  rw [events_eq_foldl]
  exact foldl_addEvent_eq_eraseDups [] (allEvents burst) h

theorem filter_eraseDups {α : Type} [BEq α] [LawfulBEq α] (p : α → Bool) (l : List α) :
    l.eraseDups.filter p = (l.filter p).eraseDups := by
  induction hn : l.length using Nat.strongRecOn generalizing l with
  | _ n ih =>
    cases l with
    | nil => simp
    | cons a more =>
      have hshort : (more.filter (!· == a)).length < n := by
        have hle := List.length_filter_le (!· == a) more
        rw [List.length_cons] at hn
        omega
      have hmore := ih _ hshort (more.filter (!· == a)) rfl
      rw [List.eraseDups_cons, List.filter_cons, List.filter_cons, hmore]
      split
      · rw [List.eraseDups_cons, List.filter_filter, List.filter_filter]
        simp only [Bool.and_comm]
      next ha =>
        have hkeep : (more.filter (!· == a)).filter p = more.filter p := by
          rw [List.filter_filter]
          refine List.filter_congr fun x _ => ?_
          by_cases hx : x = a
          · simp [hx, ha]
          · simp [hx]
        rw [hkeep]

/-- Of a list that holds two things only, what is left is the first and perhaps the other. -/
theorem eraseDups_of_two {α : Type} [DecidableEq α] {a b : α} (hne : a ≠ b) {l : List α}
    (h : ∀ x ∈ l, x = a ∨ x = b) : (a :: l).eraseDups = if b ∈ l then [a, b] else [a] := by
  have hother : ∀ x ∈ l.filter (!· == a), x = b := by
    intro x hx
    obtain ⟨hx, hxa⟩ := List.mem_filter.mp hx
    exact (h x hx).resolve_left (by simpa using hxa)
  have hmem : b ∈ l.filter (!· == a) ↔ b ∈ l := by
    simp [Ne.symm hne]
  rw [List.eraseDups_cons]
  cases hl : l.filter (!· == a) with
  | nil =>
    rw [hl] at hmem
    simp [← hmem]
  | cons x more =>
    rw [hl] at hother hmem
    obtain ⟨rfl, hmore⟩ := List.forall_mem_cons.mp hother
    have hnone : more.filter (!· == x) = [] :=
      List.filter_eq_nil_iff.mpr fun y hy => by simp [hmore y hy]
    simp [List.eraseDups_cons, hnone, ← hmem]

/-- Whether a burst is about component files only, and about their being there only. -/
def AboutSources (burst : List Signal) : Prop :=
  ∀ report ∈ reports burst,
    report.1 ∈ [Kind.create, .modify, .remove] ∧ isComponentFile report.2

def eventOf (report : Kind × RawText) : Event :=
  ⟨if report.1 = .remove then .removed else .changed, report.2⟩

theorem classify?_of_isComponentFile {report : Kind × RawText}
    (hkind : report.1 ∈ [Kind.create, .modify, .remove]) (hpath : isComponentFile report.2) :
    classify? report.1 report.2 = some (eventOf report) := by
  obtain ⟨kind, path⟩ := report
  simp only [List.mem_cons, List.not_mem_nil, or_false] at hkind
  rcases hkind with rfl | rfl | rfl <;> simp [classify?, eventOf, hpath]

theorem allEvents_of_aboutSources {burst : List Signal} (h : AboutSources burst) :
    allEvents burst = (reports burst).map eventOf := by
  rw [AboutSources] at h
  rw [allEvents]
  generalize reports burst = all at h ⊢
  induction all with
  | nil => rfl
  | cons report more ih =>
    obtain ⟨⟨hkind, hpath⟩, hmore⟩ := List.forall_mem_cons.mp h
    rw [List.filterMap_cons, classify?_of_isComponentFile hkind hpath]
    exact congrArg _ (ih hmore)

theorem filter_allEvents {burst : List Signal} (h : AboutSources burst) (path : RawText) :
    (allEvents burst).filter (·.path == path) =
      (kindsOf path burst).map fun kind => eventOf (kind, path) := by
  rw [allEvents_of_aboutSources h, List.filter_map, kindsOf, List.map_map]
  refine List.map_congr_left fun report hreport => ?_
  have hpath : report.2 = path := by simpa [eventOf] using (List.mem_filter.mp hreport).2
  rw [Function.comp_apply, ← hpath]

end StaticPreview.Watch
