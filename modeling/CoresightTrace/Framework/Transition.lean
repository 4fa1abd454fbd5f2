import Mathlib.Data.List.Basic
import Mathlib.Order.Monotone.Basic
import Mathlib.Order.WellFounded

/-!
# Labelled transition systems and their runs

The systems of this development are interleavings of a few sequential parties:
callers of a stateful interface, threads sharing event flags, processes joined
by pipes. All of them are read as a `Machine`: a set of initial states and a
labelled step relation. The label names the party that moves and carries the
values its environment chose for that step.

* `Machine.Run s ls t` — the run from `s` to `t` with label sequence `ls`,
  extended at its newest end, which is the end where invariants are proved;
* `Machine.Reachable` — the states of the runs that start initially;
* `Machine.restrict C` — the same machine with only the steps that meet the
  condition `C` on the state before the step and the label. A run of it is a
  run of the machine all of whose steps meet `C`, which is how the
  conditional results of the development are phrased;
* `Machine.Reachable.invariant` — the induction that every safety result uses;
* `Machine.Endless.eventually` — the rank argument for what must happen in an
  endless run.
-/

/-- A labelled transition system. -/
structure Machine (State Label : Type*) where
  /-- The states a run may start in. -/
  init : State → Prop
  /-- The steps: from a state, under a label, to a state. -/
  step : State → Label → State → Prop

namespace Machine

variable {State Label : Type*} {M : Machine State Label}

/-- The runs of `M` from `s`, with the labels of their steps, oldest first. -/
inductive Run (M : Machine State Label) (s : State) : List Label → State → Prop
  | nil : Run M s [] s
  | snoc {ls : List Label} {t u : State} {l : Label} :
      Run M s ls t → M.step t l u → Run M s (ls ++ [l]) u

/-- The states some run from an initial state ends in. -/
def Reachable (M : Machine State Label) (t : State) : Prop :=
  ∃ s ls, M.init s ∧ M.Run s ls t

/-- `M` with only the steps that meet `C`. -/
def restrict (M : Machine State Label) (C : State → Label → Prop) : Machine State Label where
  init := M.init
  step s l t := M.step s l t ∧ C s l

/-! ### Building runs -/

theorem Run.append {s t u : State} {ls ls' : List Label}
    (h : M.Run s ls t) (h' : M.Run t ls' u) : M.Run s (ls ++ ls') u := by
  induction h' with
  | nil => simpa using h
  | snoc _ hstep ih =>
    rw [← List.append_assoc]
    exact ih.snoc hstep

theorem Reachable.of_init {s : State} (h : M.init s) : M.Reachable s :=
  ⟨s, [], h, .nil⟩

theorem Reachable.step {s t : State} {l : Label}
    (h : M.Reachable s) (hstep : M.step s l t) : M.Reachable t := by
  obtain ⟨s₀, ls, h₀, hrun⟩ := h
  exact ⟨s₀, ls ++ [l], h₀, hrun.snoc hstep⟩

theorem Reachable.run {s t : State} {ls : List Label}
    (h : M.Reachable s) (hrun : M.Run s ls t) : M.Reachable t := by
  obtain ⟨s₀, ls₀, h₀, hrun₀⟩ := h
  exact ⟨s₀, ls₀ ++ ls, h₀, hrun₀.append hrun⟩

/-! ### The invariant rules -/

/-- What one step preserves, a run preserves. -/
theorem Run.invariant {I : State → Prop} {s t : State} {ls : List Label}
    (hstep : ∀ s l t, I s → M.step s l t → I t) (hrun : M.Run s ls t) (hs : I s) : I t := by
  induction hrun with
  | nil => exact hs
  | snoc _ h ih => exact hstep _ _ _ ih h

/-- **The invariant rule.** What holds initially and is preserved by every step
holds of every reachable state. -/
theorem Reachable.invariant {I : State → Prop} {t : State} (ht : M.Reachable t)
    (hinit : ∀ s, M.init s → I s) (hstep : ∀ s l t, I s → M.step s l t → I t) : I t := by
  obtain ⟨s, ls, hs, hrun⟩ := ht
  exact hrun.invariant hstep (hinit s hs)

/-! ### The rank rule -/

/-- An endless run from a reachable state. -/
structure Endless (M : Machine State Label) (states : ℕ → State) (labels : ℕ → Label) :
    Prop where
  start : M.Reachable (states 0)
  step : ∀ n, M.step (states n) (labels n) (states (n + 1))

variable {states : ℕ → State} {labels : ℕ → Label}

theorem Endless.reachable (h : M.Endless states labels) (n : ℕ) : M.Reachable (states n) := by
  induction n with
  | zero => exact h.start
  | succ n ih => exact ih.step (h.step n)

/-- **The rank rule.** Away from the goal, calm steps do not raise the rank and
those that work lower it. An endless run that is calm from some point on and
works again and again reaches the goal from there. -/
theorem Endless.eventually {α : Type*} [Preorder α] [WellFoundedLT α] {rank : State → α}
    {goal : State → Prop} {calm works : State → Label → Prop} (h : M.Endless states labels)
    (hstep : ∀ s l t, M.Reachable s → M.step s l t → ¬ goal s → calm s l →
      rank t ≤ rank s ∧ (works s l → rank t < rank s))
    {m : ℕ} (hcalm : ∀ n ≥ m, calm (states n) (labels n))
    (hworks : ∀ n, ∃ k ≥ n, works (states k) (labels k)) :
    ∃ n ≥ m, goal (states n) := by
  -- suppose the goal is never reached: then every step from `m` on is one of `hstep`
  by_contra hnever
  have hmove (n : ℕ) := hstep _ _ _ (h.reachable (m + n)) (h.step (m + n))
    (fun hgoal => hnever ⟨m + n, Nat.le_add_right m n, hgoal⟩) (hcalm _ (Nat.le_add_right m n))
  have hanti : Antitone fun n => rank (states (m + n)) :=
    antitone_nat_of_succ_le fun n => (hmove n).1
  -- past the least rank of the run a step that works would go below it
  obtain ⟨_, ⟨least, rfl⟩, hleast⟩ := WellFounded.has_min (wellFounded_lt (α := α))
    (Set.range fun n => rank (states (m + n))) ⟨_, 0, rfl⟩
  obtain ⟨k, hk, hwork⟩ := hworks (m + least)
  obtain ⟨n, rfl⟩ := Nat.exists_eq_add_of_le (le_trans (Nat.le_add_right m least) hk)
  refine hleast _ ⟨n + 1, rfl⟩ (lt_of_lt_of_le ((hmove n).2 hwork) (hanti ?_))
  exact Nat.le_of_add_le_add_left hk

end Machine
