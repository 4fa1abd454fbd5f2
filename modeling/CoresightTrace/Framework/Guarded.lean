import CoresightTrace.Framework.Transition

/-!
# Guarded machines

A machine whose steps are deterministic under their label, given by a guard and
an effect that both compute. Interleaved threads are of this kind: the label
says which thread moves and what its environment answers, the guard is the
thread's program counter and what it waits for.

* `Guarded.machine` — the machine it denotes;
* `Guarded.restrict C` — the same with a further, computable condition on every
  step. Its runs are the runs of the machine all of whose steps meet `C`;
* `Guarded.applicable`, `Guarded.run` — whether a label sequence can be run,
  and where it leads; a concrete run is checked by evaluating them
  (`Guarded.run_of_applicable`, `Guarded.reachable_of_applicable`).
-/

/-- A machine given by a guard and an effect. -/
structure Guarded (State Label : Type*) where
  /-- The states a run may start in. -/
  init : State → Prop
  /-- Whether the label's step can be taken. -/
  enabled : State → Label → Bool
  /-- The state the label's step leads to. -/
  effect : State → Label → State

namespace Guarded

variable {State Label : Type*}

/-- The machine a guard and an effect denote. -/
def machine (G : Guarded State Label) : Machine State Label where
  init := G.init
  step s l t := G.enabled s l = true ∧ t = G.effect s l

/-- `G` with only the steps that meet `C`. -/
def restrict (G : Guarded State Label) (C : State → Label → Bool) : Guarded State Label where
  init := G.init
  enabled s l := G.enabled s l && C s l
  effect := G.effect

variable {G : Guarded State Label}

/-- **The invariant rule for effects.** What holds initially and is preserved by
the effect of every enabled step holds of every reachable state. -/
theorem invariant {I : State → Prop} {t : State} (ht : G.machine.Reachable t)
    (hinit : ∀ s, G.init s → I s)
    (hstep : ∀ s l, I s → G.enabled s l = true → I (G.effect s l)) : I t := by
  refine ht.invariant hinit ?_
  rintro s l _ hs ⟨hen, rfl⟩
  exact hstep s l hs hen

/-- The invariant rule for a restriction, with what the condition gives. -/
theorem invariant_restrict {I : State → Prop} {C : State → Label → Bool} {t : State}
    (ht : (G.restrict C).machine.Reachable t) (hinit : ∀ s, G.init s → I s)
    (hstep : ∀ s l, I s → G.enabled s l = true → C s l = true → I (G.effect s l)) : I t := by
  refine invariant ht hinit fun s l hs hen => ?_
  obtain ⟨hg, hc⟩ := Bool.and_eq_true_iff.mp hen
  exact hstep s l hs hg hc

/-- A run of a restriction is a run of the machine. -/
theorem reachable_of_restrict {C : State → Label → Bool} {t : State}
    (ht : (G.restrict C).machine.Reachable t) : G.machine.Reachable t := by
  refine invariant_restrict ht ?_ fun s l hs hen _ => hs.step ⟨hen, rfl⟩
  intro s hs
  exact .of_init (M := G.machine) hs

/-! ### Concrete runs -/

/-- The labels can be run one after the other from `s`. -/
def applicable (G : Guarded State Label) : State → List Label → Bool
  | _, [] => true
  | s, l :: ls => G.enabled s l && G.applicable (G.effect s l) ls

/-- Where the labels lead. -/
def run (G : Guarded State Label) (s : State) (ls : List Label) : State :=
  ls.foldl G.effect s

theorem run_of_applicable {s : State} {ls : List Label} (h : G.applicable s ls = true) :
    G.machine.Run s ls (G.run s ls) := by
  induction ls generalizing s with
  | nil => exact .nil
  | cons l ls ih =>
    -- the first label is taken, and the rest runs from where it leads
    obtain ⟨hen, hrest⟩ := Bool.and_eq_true_iff.mp h
    have hfirst : G.machine.Run s ([] ++ [l]) (G.effect s l) := .snoc .nil ⟨hen, rfl⟩
    exact hfirst.append (ih hrest)

theorem reachable_of_applicable {s : State} {ls : List Label} (hs : G.machine.Reachable s)
    (h : G.applicable s ls = true) : G.machine.Reachable (G.run s ls) :=
  hs.run (run_of_applicable h)

end Guarded
