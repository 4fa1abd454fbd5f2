import Mathlib.Data.Nat.Notation
import Mathlib.Tactic.Ring

/-!
# Searching a ladder

A search for the highest rung of a ladder that holds. Every trial ends in a hold or
a fall: a fall steps down at once, and a row of holds as long as the window steps
up. The window may change from trial to trial, within bounds.

* `Ladder.Paid` — the account of the search. A step up is paid for by the holds
  that completed its window, and a fall pays for itself with the step up it
  undoes. So the falls are at most the rungs the search started above the floor,
  and one for each shortest window of holds. It needs no more than that the floor
  holds (`Paid.step`);
* `Ladder.Near k` — the search stands at the highest of `k` rungs that hold, or at
  the one above. If exactly these rungs hold, the search stays there
  (`Near.step`), and gets there from anywhere: `Ladder.toGo` bounds the trials it
  still needs (`Approaches.step`).

A trial may be made at the floor instead of the search's own rung, right after a
fall (`Trial`). Such a trial says nothing about the rung and still counts for its
window; since no window is as short as one trial, it does not move the search.
-/

/-- A search over a ladder: its rung, the holds counted at it, and how many trials
were made and ended in a fall. -/
@[ext] structure Ladder where
  rung : ℕ
  holds : ℕ
  trials : ℕ
  falls : ℕ

namespace Ladder

/-- The search after a trial, under a window and a ladder of `rungs` rungs. -/
def step (window rungs : ℕ) (s : Ladder) (fell : Bool) : Ladder :=
  if fell then ⟨s.rung - 1, 0, s.trials + 1, s.falls + 1⟩
  else if window ≤ s.holds + 1 then
    ⟨if s.rung + 1 < rungs then s.rung + 1 else s.rung, 0, s.trials + 1, s.falls⟩
  else ⟨s.rung, s.holds + 1, s.trials + 1, s.falls⟩

section Step

variable {window rungs : ℕ} {s : Ladder}

theorem step_fall : s.step window rungs true = ⟨s.rung - 1, 0, s.trials + 1, s.falls + 1⟩ :=
  rfl

theorem step_hold (h : s.holds + 1 < window) :
    s.step window rungs false = ⟨s.rung, s.holds + 1, s.trials + 1, s.falls⟩ := by
  unfold step
  rw [if_neg Bool.false_ne_true, if_neg (not_le.mpr h)]

theorem step_window (h : window ≤ s.holds + 1) :
    s.step window rungs false =
      ⟨if s.rung + 1 < rungs then s.rung + 1 else s.rung, 0, s.trials + 1, s.falls⟩ := by
  unfold step
  rw [if_neg Bool.false_ne_true, if_pos h]

/-- The two ways a trial that holds goes. -/
theorem step_hold_cases (window rungs : ℕ) (s : Ladder) :
    (s.holds + 1 < window ∧
        s.step window rungs false = ⟨s.rung, s.holds + 1, s.trials + 1, s.falls⟩) ∨
      (window ≤ s.holds + 1 ∧
        s.step window rungs false =
          ⟨if s.rung + 1 < rungs then s.rung + 1 else s.rung, 0, s.trials + 1, s.falls⟩) := by
  by_cases h : window ≤ s.holds + 1
  · exact .inr ⟨h, step_window h⟩
  · exact .inl ⟨not_le.mp h, step_hold (not_le.mp h)⟩

end Step

/-! ### Bounds -/

/-- The rung is on the ladder, the window is not complete and no fall goes uncounted. -/
structure Sound (longest rungs : ℕ) (s : Ladder) : Prop where
  rung : s.rung < rungs
  holds : s.holds < longest
  falls : s.falls ≤ s.trials

theorem Sound.step {longest window rungs : ℕ} {s : Ladder} (h : Sound longest rungs s)
    (hwindow : window ≤ longest) (fell : Bool) :
    Sound longest rungs (s.step window rungs fell) := by
  have hpos : 0 < longest := Nat.zero_lt_of_lt h.holds
  cases fell with
  | true =>
    rw [step_fall]
    exact ⟨lt_of_le_of_lt (Nat.sub_le _ _) h.rung, hpos, Nat.succ_le_succ h.falls⟩
  | false =>
    rcases step_hold_cases window rungs s with ⟨hopen, hstep⟩ | ⟨-, hstep⟩ <;> rw [hstep]
    · exact ⟨h.rung, lt_of_lt_of_le hopen hwindow, Nat.le_succ_of_le h.falls⟩
    · refine ⟨?_, hpos, Nat.le_succ_of_le h.falls⟩
      dsimp only
      split
      · next hup => exact hup
      · exact h.rung

/-! ### The account of the falls -/

/-- What the search has spent, a shortest window for each fall and each rung it
stands above the floor, is covered by its start and by the trials that held. -/
def Paid (shortest start : ℕ) (s : Ladder) : Prop :=
  shortest * (s.falls + s.rung) + s.holds + s.falls ≤ shortest * start + s.trials

theorem Paid.step {shortest window rungs start : ℕ} {s : Ladder} {fell : Bool}
    (h : Paid shortest start s) (hwindow : shortest ≤ window)
    (hfloor : fell = true → 0 < s.rung) : Paid shortest start (s.step window rungs fell) := by
  unfold Paid at h ⊢
  cases fell with
  | true =>
    -- the fall is paid for by the rung it gives up
    have hpos := hfloor rfl
    rw [step_fall]
    dsimp only
    have hkeep : s.falls + 1 + (s.rung - 1) = s.falls + s.rung := by omega
    rw [hkeep]
    omega
  | false =>
    rcases step_hold_cases window rungs s with ⟨-, hstep⟩ | ⟨hfull, hstep⟩ <;> rw [hstep]
    · dsimp only
      omega
    · dsimp only
      split
      · -- the rung is paid for by the window
        have hrise : shortest * (s.falls + (s.rung + 1)) =
            shortest * (s.falls + s.rung) + shortest := by ring
        rw [hrise]
        omega
      · omega

/-- A search that has not been tried. -/
theorem Paid.of_untried {shortest : ℕ} {s : Ladder} {start : ℕ} (hrung : s.rung ≤ start)
    (hholds : s.holds = 0) (htrials : s.trials = 0) (hfalls : s.falls = 0) :
    Paid shortest start s := by
  unfold Paid
  rw [hholds, htrials, hfalls]
  simpa using Nat.mul_le_mul_left shortest hrung

/-- **The falls are paid for.** -/
theorem Paid.falls_le {shortest start : ℕ} {s : Ladder} (h : Paid shortest start s) :
    shortest * s.falls + s.falls ≤ shortest * start + s.trials := by
  unfold Paid at h
  rw [Nat.mul_add] at h
  omega

/-! ### The rungs that hold -/

/-- The trial of a search on a ladder whose first `k` rungs hold: it is made at the
search's rung, or at the floor right after a fall. -/
def Trial (k : ℕ) (s : Ladder) (fell : Bool) : Prop :=
  fell = decide (k ≤ s.rung) ∨ (fell = decide (k = 0) ∧ s.holds = 0)

/-- The search is at the highest rung that holds, or at the one above. -/
def Near (k : ℕ) (s : Ladder) : Prop :=
  k ≤ s.rung + 1 ∧ s.rung ≤ k

/-- A trial at a rung that holds does not fall. -/
theorem Trial.holds_of_lt {k : ℕ} {s : Ladder} {fell : Bool} (h : Trial k s fell)
    (hlt : s.rung < k) : fell = false := by
  rcases h with h | ⟨h, -⟩ <;> rw [h] <;> apply decide_eq_false <;> omega

/-- At a rung that does not hold, a trial falls or is made at the floor. -/
theorem Trial.falls_of_le {k : ℕ} {s : Ladder} {fell : Bool} (h : Trial k s fell)
    (hle : k ≤ s.rung) : fell = true ∨ (fell = false ∧ s.holds = 0) := by
  rcases h with h | ⟨h, hfresh⟩
  · exact .inl (h.trans (decide_eq_true hle))
  · cases fell with
    | true => exact .inl rfl
    | false => exact .inr ⟨rfl, hfresh⟩

/-- **The search stays near.** -/
theorem Near.step {k window rungs : ℕ} {s : Ladder} {fell : Bool} (h : Near k s)
    (ht : Trial k s fell) (hwindow : 2 ≤ window) : Near k (s.step window rungs fell) := by
  obtain ⟨hlow, hhigh⟩ := h
  by_cases hlt : s.rung < k
  · -- the highest rung that holds is held, or left for the one above
    rw [ht.holds_of_lt hlt]
    rcases step_hold_cases window rungs s with ⟨-, hstep⟩ | ⟨-, hstep⟩ <;> rw [hstep]
    · exact ⟨hlow, hhigh⟩
    · unfold Near
      dsimp only
      split <;> omega
  · rcases ht.falls_of_le (not_lt.mp hlt) with rfl | ⟨rfl, hfresh⟩
    · rw [step_fall]
      unfold Near
      dsimp only
      omega
    · -- a trial at the floor is too short a window
      rw [step_hold (by omega)]
      exact ⟨hlow, hhigh⟩

/-- A bound on the trials after which the search is near. Above, every trial but one
after each fall steps down; below, every trial counts for the window. -/
def toGo (longest k : ℕ) (s : Ladder) : ℕ :=
  if k < s.rung then 2 * (s.rung - k) + if s.holds = 0 then 1 else 0
  else longest * (k - 1 - s.rung) - s.holds

/-- The search is near, or has still trials to go, at most `budget` in all. -/
def Approaches (longest budget k : ℕ) (s : Ladder) : Prop :=
  Near k s ∨ s.trials + toGo longest k s ≤ budget ∧ 0 < toGo longest k s

/-- **Every trial brings the search closer.** -/
theorem Approaches.step {longest budget k window rungs : ℕ} {s : Ladder} {fell : Bool}
    (h : Approaches longest budget k s) (hs : Sound longest rungs s) (ht : Trial k s fell)
    (hk : k ≤ rungs) (hshort : 2 ≤ window) (hlong : window ≤ longest) :
    Approaches longest budget k (s.step window rungs fell) := by
  rcases h with hnear | ⟨hbudget, -⟩
  · exact .inl (hnear.step ht hshort)
  by_cases hnear : Near k (s.step window rungs fell)
  · exact .inl hnear
  refine .inr ?_
  by_cases habove : k < s.rung
  · -- above the rungs that hold the trial falls, or is one at the floor
    rcases ht.falls_of_le habove.le with rfl | ⟨rfl, hfresh⟩
    · rw [step_fall] at hnear ⊢
      simp only [Near, toGo, if_pos habove, not_and, not_le] at hnear hbudget ⊢
      have hstill : k < s.rung - 1 := hnear (by omega)
      rw [if_pos hstill]
      split at hbudget <;> simp only [if_true] <;> omega
    · rw [step_hold (by omega)]
      simp only [toGo, if_pos habove, hfresh, if_true] at hbudget ⊢
      rw [if_neg (by omega)]
      omega
  · by_cases hbelow : s.rung + 1 < k
    · -- below, it holds and counts for the window
      rw [ht.holds_of_lt (by omega)] at hnear ⊢
      simp only [toGo, if_neg habove] at hbudget
      obtain ⟨d, hd⟩ : ∃ d, k - 1 - s.rung = d + 1 := ⟨k - 2 - s.rung, by omega⟩
      have hmul : longest * (d + 1) = longest * d + longest := Nat.mul_succ longest d
      have hlt := hs.holds
      rw [hd, hmul] at hbudget
      rcases step_hold_cases window rungs s with ⟨hopen, hstep⟩ | ⟨-, hstep⟩ <;>
        rw [hstep] at hnear ⊢
      · simp only [toGo, if_neg habove, hd, hmul]
        omega
      · rw [if_pos (by omega)] at hnear ⊢
        have hleft : k - 1 - (s.rung + 1) = d := by omega
        have hgo : ¬ k < s.rung + 1 := by omega
        simp only [toGo, if_neg hgo, hleft]
        have hd_pos : 0 < d := by
          unfold Near at hnear
          dsimp only at hnear
          omega
        have hpos : 0 < longest * d := Nat.mul_pos (Nat.zero_lt_of_lt hlt) hd_pos
        omega
    · exact absurd (Near.step ⟨by omega, by omega⟩ ht hshort) hnear

/-- The search approaches from wherever it starts. -/
theorem Approaches.of_untried {longest rungs k : ℕ} {s : Ladder} (hrung : s.rung < rungs)
    (hholds : s.holds = 0) (htrials : s.trials = 0) (hk : k ≤ rungs) (hlong : 3 ≤ longest) :
    Approaches longest (longest * rungs) k s := by
  by_cases hnear : Near k s
  · exact .inl hnear
  refine .inr ?_
  have hthree : 3 * rungs ≤ longest * rungs := Nat.mul_le_mul_right rungs hlong
  simp only [toGo, hholds, htrials, if_true]
  unfold Near at hnear
  split
  · omega
  · have hle : longest * (k - 1 - s.rung) ≤ longest * rungs :=
      Nat.mul_le_mul_left longest (by omega)
    have hpos : 0 < longest * (k - 1 - s.rung) := Nat.mul_pos (by omega) (by omega)
    omega

/-- **After `budget` trials the search is near.** -/
theorem Approaches.near {longest budget k : ℕ} {s : Ladder} (h : Approaches longest budget k s)
    (htrials : budget ≤ s.trials) : Near k s := by
  rcases h with hnear | ⟨hbudget, hpos⟩
  · exact hnear
  · omega

end Ladder
