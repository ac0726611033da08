import StaticPreview.Proofs.Place.Checked
import StaticPreview.Text.Cut

/-! # Loops and searches

A loop takes turns, each from a state of its own, until one of them has the result. It may take
only a given number of turns; one that has not ended by then does not end.
-/
namespace StaticPreview.Place
open Text

inductive Turn (σ ρ : Type) where
  | next (state : σ)
  | done (result : ρ)

section
variable {σ ρ : Type}

def loop (turn : σ → Checked (Turn σ ρ)) : Nat → σ → Checked ρ
  | 0, _ => .error .endless
  | turns + 1, state => do
    match ← turn state with
    | .next state => loop turn turns state
    | .done result => return result

/-- Whether a loop has this result after at most `n` turns before the last. -/
def Yields (turn : σ → Checked (Turn σ ρ)) (n : Nat) (state : σ) (result : ρ) : Prop :=
  ∀ turns, n < turns → loop turn turns state = .ok result

variable {turn : σ → Checked (Turn σ ρ)} {n m : Nat} {state state' : σ} {result : ρ}

theorem Yields.of_done (h : turn state = .ok (.done result)) : Yields turn n state result := by
  intro turns hturns
  obtain ⟨k, rfl⟩ := Nat.exists_eq_add_one.mpr (Nat.zero_lt_of_lt hturns)
  rw [loop, h]
  rfl

theorem Yields.of_next (h : turn state = .ok (.next state')) (hrest : Yields turn m state' result)
    (hlt : m < n) : Yields turn n state result := by
  intro turns hturns
  obtain ⟨k, rfl⟩ := Nat.exists_eq_add_one.mpr (Nat.zero_lt_of_lt hturns)
  rw [loop, h]
  exact hrest k (by omega)

/-- From two states with the same next turn a loop goes on alike. -/
theorem Yields.of_eq (h : turn state = turn state') (hrest : Yields turn n state' result) :
    Yields turn n state result := by
  intro turns hturns
  obtain ⟨k, rfl⟩ := Nat.exists_eq_add_one.mpr (Nat.zero_lt_of_lt hturns)
  have hresult := hrest (k + 1) hturns
  rw [loop] at hresult ⊢
  rwa [h]

theorem Yields.mono (h : Yields turn m state result) (hle : m ≤ n) :
    Yields turn n state result :=
  fun turns hturns => h turns (Nat.lt_of_le_of_lt hle hturns)

/-- A turn that passes over a part of a text leaves the loop fewer turns. -/
theorem Yields.of_prepend {turn : σ → Checked (Turn σ (Option Nat))} {lead part after : List Char}
    {reading : Option (List Char × List Char)} (hpart : part ≠ [])
    (h : turn state = .ok (.next state'))
    (hrest : Yields turn (width after) state' (stopOf (width (lead ++ part)) reading)) :
    Yields turn (width (part ++ after)) state (stopOf (width lead) (prepend part reading)) := by
  rw [width_append, ← stopOf_prepend] at hrest
  exact .of_next h hrest (width_lt_of_append rfl hpart)

end

/-- A loop that goes from byte to byte passes over the bytes of a character. -/
theorem Yields.of_bytes {ρ : Type} {turn : Nat → Checked (Turn Nat ρ)} {size n place : Nat}
    {result : ρ} (h : ∀ k < size, turn (place + k) = .ok (.next (place + k + 1)))
    (hrest : Yields turn n (place + size) result) : Yields turn (size + n) place result := by
  induction size generalizing place with
  | zero => exact hrest.mono (Nat.le_add_left n 0)
  | succ size ih =>
    have hbytes : Yields turn (size + n) (place + 1) result := by
      refine ih (fun k hk => ?_) (by rwa [Nat.add_right_comm])
      have hturn := h (k + 1) (Nat.succ_lt_succ hk)
      rwa [← Nat.add_assoc, Nat.add_right_comm place k 1] at hturn
    exact .of_next (h 0 size.succ_pos) hbytes (by omega)

/-- The place of the first character that `p` accepts. -/
def findPlace? (p : Char → Bool) : List Char → Option Nat
  | [] => none
  | c :: r => if p c then some 0 else (findPlace? p r).map (c.utf8Size + ·)

def charPlaces (place : Nat) : List Char → List (Nat × Char)
  | [] => []
  | c :: r => (place, c) :: charPlaces (place + c.utf8Size) r

theorem findPlace?_cut (mark : Char) (s : List Char) :
    findPlace? (· == mark) s = (cut? mark s).map fun p => width p.1 := by
  induction s with
  | nil => rfl
  | cons c r ih =>
    rw [findPlace?, cut?, ih]
    by_cases h : c = mark
    · simp [h, width]
    · simp [h, width, Function.comp_def]

theorem findPlace?_getD (p : Char → Bool) (s : List Char) :
    (findPlace? p s).getD (width s) = width (s.takeWhile fun c => !p c) := by
  induction s with
  | nil => rfl
  | cons c r ih =>
    rw [findPlace?, List.takeWhile_cons]
    cases hp : p c with
    | true => rfl
    | false =>
      simp only [Bool.false_eq_true, if_false, Bool.not_false, if_true, width, ← ih]
      cases findPlace? p r <;> rfl

/-- Where a search from a place on stops: at what it finds, or at the end of the text. -/
theorem findPlace?_stop (p : Char → Bool) (a r : List Char) :
    ((findPlace? p r).map (width a + ·)).getD (width (a ++ r)) =
      width a + width (r.takeWhile fun c => !p c) := by
  rw [← findPlace?_getD, width_append]
  cases findPlace? p r <;> rfl

end StaticPreview.Place
