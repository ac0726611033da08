import StaticPreview.Markup.TextRun
import StaticPreview.Proofs.Place.Checked
import StaticPreview.Proofs.Text.Pieces
import StaticPreview.Proofs.Text.Trim

/-! # Blanks in text runs by line numbers

Lines are numbered from zero. The first line keeps its start and the last one its end, and a space
follows each line that is not empty, except for the last one that holds more than blanks.
-/
namespace StaticPreview.Place
open Text Markup

def lastIndex? {α : Type} (p : α → Bool) : List α → Option Nat
  | [] => none
  | x :: more => ((lastIndex? p more).map (· + 1)).or (if p x then some 0 else none)

def trimAt (last i : Nat) (line : List Char) : List Char :=
  let line := if i = 0 then line else trimStart line
  if i = last then line else trimEnd line

def joinLines (last filled i : Nat) : List (List Char) → List Char
  | [] => []
  | line :: more =>
    let line := trimAt last i line
    (if line.isEmpty then [] else if i = filled then line else line ++ [' ']) ++
      joinLines last filled (i + 1) more

def isFilled (line : List Char) : Bool :=
  !(trim line).isEmpty

/-- A text run with its blanks collapsed, unless nothing of it is left. -/
def collapseRun (run : List Char) : Checked (Option (List Char)) := do
  let last ← minus (lines run).length 1
  let filled := (lastIndex? isFilled (lines run)).getD 0
  let out := joinLines last filled 0 (lines run)
  return if out.isEmpty then none else some out

def joinTrimmed (filled i : Nat) : List (List Char) → List Char
  | [] => []
  | line :: more =>
    (if line.isEmpty then [] else if i = filled then line else line ++ [' ']) ++
      joinTrimmed filled (i + 1) more

theorem joinLines_eq (last filled i : Nat) (l : List (List Char)) :
    joinLines last filled i l =
      joinTrimmed filled i (l.mapIdx fun k line => trimAt last (i + k) line) := by
  induction l generalizing i with
  | nil => rfl
  | cons line more ih =>
    rw [joinLines, List.mapIdx_cons, joinTrimmed, ih]
    simp [Nat.add_assoc, Nat.add_comm 1]

theorem lastIndex?_eq_none_iff {α : Type} {p : α → Bool} {l : List α} :
    lastIndex? p l = none ↔ l.filter p = [] := by
  induction l with
  | nil => simp [lastIndex?]
  | cons x more ih =>
    rw [lastIndex?, List.filter_cons]
    cases h : lastIndex? p more with
    | some i =>
      rw [h] at ih
      cases hp : p x <;> simp_all
    | none =>
      rw [ih.mp h]
      cases hp : p x <;> simp

theorem joinTrimmed_of_none {l : List (List Char)} (h : l.filter (!·.isEmpty) = [])
    (filled i : Nat) : joinTrimmed filled i l = [] := by
  induction l generalizing i with
  | nil => rfl
  | cons line more ih =>
    have hall := List.filter_eq_nil_iff.mp h
    have hline : line.isEmpty := by simpa using hall line List.mem_cons_self
    rw [joinTrimmed, if_pos hline, List.nil_append]
    exact ih (List.filter_eq_nil_iff.mpr fun x hx => hall x (List.mem_cons_of_mem line hx)) (i + 1)

theorem joinTrimmed_of_some {l : List (List Char)} {j : Nat}
    (h : lastIndex? (!·.isEmpty) l = some j) (i : Nat) :
    joinTrimmed (i + j) i l = [' '].intercalate (l.filter (!·.isEmpty)) := by
  induction l generalizing i j with
  | nil => simp [lastIndex?] at h
  | cons line more ih =>
    rw [lastIndex?] at h
    cases hmore : lastIndex? (!·.isEmpty) more with
    | some k =>
      rw [hmore] at h
      obtain rfl := Option.some.inj h
      have hne : more.filter (!·.isEmpty) ≠ [] := fun hnil => by
        simp [lastIndex?_eq_none_iff.mpr hnil] at hmore
      have hrest := ih hmore (i + 1)
      obtain ⟨y, ys, hy⟩ := List.exists_cons_of_ne_nil hne
      rw [Nat.add_right_comm] at hrest
      rw [joinTrimmed, ← Nat.add_assoc, hrest, if_neg (by omega : i ≠ i + k + 1),
        List.filter_cons, hy]
      cases hline : line.isEmpty with
      | true => simp
      | false => simp [List.intercalate_cons_cons]
    | none =>
      have hnil := lastIndex?_eq_none_iff.mp hmore
      rw [hmore] at h
      obtain ⟨hline, h⟩ := Option.ite_none_right_eq_some.mp h
      obtain rfl := Option.some.inj h
      rw [joinTrimmed, joinTrimmed_of_none hnil, List.filter_cons, hnil, if_pos hline]
      simp_all

theorem isFilled_eq_trimStart (line : List Char) : isFilled line = !(trimStart line).isEmpty := by
  rw [isFilled, Bool.not_inj_iff, Bool.eq_iff_iff, List.isEmpty_iff, List.isEmpty_iff,
    trim_eq_nil_iff, trimStart_eq_nil_iff]

theorem isFilled_eq_trimEnd (line : List Char) : isFilled line = !(trimEnd line).isEmpty := by
  rw [isFilled, Bool.not_inj_iff, Bool.eq_iff_iff, List.isEmpty_iff, List.isEmpty_iff,
    trim_eq_nil_iff, trimEnd_eq_nil_iff]

theorem lastIndex?_trimFollowing (l : List (List Char)) :
    lastIndex? (!·.isEmpty) (trimFollowing l) = lastIndex? isFilled l := by
  fun_induction trimFollowing l with
  | case1 => rfl
  | case2 last => simp only [lastIndex?, isFilled_eq_trimStart]
  | case3 line more hmore ih =>
    simp only [lastIndex?, ih]
    rfl

theorem mapIdx_trimAt {l : List (List Char)} {last i : Nat} (hi : 0 < i)
    (hlast : last + 1 = i + l.length) :
    l.mapIdx (fun k line => trimAt last (i + k) line) = trimFollowing l := by
  fun_induction trimFollowing l generalizing i with
  | case1 => rfl
  | case2 line =>
    obtain rfl : i = last := by simpa using hlast.symm
    simp [trimAt, Nat.ne_of_gt hi]
  | case3 line more hmore ih =>
    have hne : i ≠ last := by
      have := List.length_pos_iff.mpr hmore
      simp only [List.length_cons] at hlast
      omega
    have hrest := ih i.succ_pos (by rw [hlast, List.length_cons]; omega)
    rw [List.mapIdx_cons, ← hrest]
    simp [trimAt, Nat.ne_of_gt hi, hne, Nat.add_assoc, Nat.add_comm 1, trim]

theorem trimLines_cons {more : List (List Char)} (hmore : more ≠ []) (first : List Char) :
    trimLines (first :: more) = trimEnd first :: trimFollowing more := by
  rw [trimLines]
  exact hmore

theorem lastIndex?_trimLines {more : List (List Char)} (hmore : more ≠ []) (first : List Char) :
    lastIndex? (!·.isEmpty) (trimLines (first :: more)) = lastIndex? isFilled (first :: more) := by
  simp only [trimLines_cons hmore, lastIndex?, lastIndex?_trimFollowing, isFilled_eq_trimEnd]

theorem mapIdx_trimLines {more : List (List Char)} (hmore : more ≠ []) (first : List Char) :
    (first :: more).mapIdx (fun k line => trimAt more.length (0 + k) line) =
      trimLines (first :: more) := by
  have hfollowing := mapIdx_trimAt (l := more) Nat.one_pos (Nat.add_comm _ _)
  have hne : 0 ≠ more.length := Ne.symm (mt List.length_eq_zero_iff.mp hmore)
  rw [List.mapIdx_cons, trimLines_cons hmore, ← hfollowing]
  simp [trimAt, hne, Nat.add_comm 1]

/-- What the numbers of the lines say is what stands between the lines. -/
theorem joinLines_trimLines {l : List (List Char)} (hl : l ≠ []) :
    joinLines (l.length - 1) ((lastIndex? isFilled l).getD 0) 0 l =
      [' '].intercalate ((trimLines l).filter (!·.isEmpty)) := by
  obtain ⟨first, more, rfl⟩ := List.exists_cons_of_ne_nil hl
  by_cases hmore : more = []
  · subst hmore
    have hfilled : (lastIndex? isFilled [first]).getD 0 = 0 := by
      cases h : isFilled first <;> simp [lastIndex?, h]
    rw [hfilled]
    cases first <;> simp [joinLines, trimAt, trimLines]
  · rw [List.length_cons, Nat.add_sub_cancel, joinLines_eq, mapIdx_trimLines hmore,
      ← lastIndex?_trimLines hmore first]
    cases h : lastIndex? (!·.isEmpty) (trimLines (first :: more)) with
    | none =>
      have hnil := lastIndex?_eq_none_iff.mp h
      rw [joinTrimmed_of_none hnil, hnil]
      rfl
    | some j =>
      have hjoin := joinTrimmed_of_some h 0
      rwa [Nat.zero_add] at hjoin

theorem collapseRun_eq (run : List Char) :
    collapseRun run = .ok (if collapse run = [] then none else some (collapse run)) := by
  have hlines : lines run ≠ [] := by
    rw [lines]
    exact mt List.map_eq_nil_iff.mp (pieces_ne_nil '\n' run)
  simp only [collapseRun, minus_of_le (List.length_pos_iff.mpr hlines), ok_bind,
    joinLines_trimLines hlines, List.isEmpty_iff]
  rfl

end StaticPreview.Place
