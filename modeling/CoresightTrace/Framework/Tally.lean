import CoresightTrace.Framework.Interference
import Mathlib.Data.Set.Card

/-!
# Tallies along a run

A component often counts the operations of a run that meet a condition on what
came before them. `Ops.tally P ops` is that number: the positions of `ops` whose
operation `op` satisfies `P before op`, where `before` are the operations that
precede it. A counter that grows by one exactly at such operations holds the
tally of the run (`Ops.counter_eq_tally`).
-/

namespace Ops

variable {State Op Answer : Type*}

/-- A run of one operation more. -/
theorem run_concat (act : State → Op → State × List Answer) (s : State) (ops : List Op) (op : Op) :
    (run act s (ops ++ [op])).1 = (act (run act s ops).1 op).1 := by
  induction ops generalizing s with
  | nil => rfl
  | cons op' ops ih => exact ih (act s op').1

theorem run_concat_answers (act : State → Op → State × List Answer) (s : State) (ops : List Op)
    (op : Op) :
    (run act s (ops ++ [op])).2 = (run act s ops).2 ++ (act (run act s ops).1 op).2 := by
  induction ops generalizing s with
  | nil => exact List.append_nil _
  | cons op' ops ih =>
    change (act s op').2 ++ (run act (act s op').1 (ops ++ [op])).2 = _
    rw [ih]
    exact (List.append_assoc _ _ _).symm

/-- The positions of `ops` whose operation meets the condition. -/
def hits (P : List Op → Op → Prop) (ops : List Op) : Set ℕ :=
  {k | ∃ op, ops[k]? = some op ∧ P (ops.take k) op}

/-- The number of operations of `ops` that meet a condition on themselves and the
operations before them. -/
noncomputable def tally (P : List Op → Op → Prop) (ops : List Op) : ℕ := (hits P ops).ncard

variable {P : List Op → Op → Prop}

theorem lt_length_of_mem_hits {ops : List Op} {k : ℕ} (h : k ∈ hits P ops) : k < ops.length := by
  obtain ⟨op, hop, -⟩ := h
  exact (List.getElem?_eq_some_iff.mp hop).1

theorem hits_finite (P : List Op → Op → Prop) (ops : List Op) : (hits P ops).Finite :=
  (Set.finite_lt_nat ops.length).subset fun _ => lt_length_of_mem_hits

/-- The positions before the last one. -/
theorem mem_hits_concat {ops : List Op} {op : Op} {k : ℕ} :
    k ∈ hits P (ops ++ [op]) ↔ k ∈ hits P ops ∨ (k = ops.length ∧ P ops op) := by
  rcases Nat.lt_trichotomy k ops.length with hk | hk | hk
  · -- a position of the shorter run, with the same operations before it
    have htake : (ops ++ [op]).take k = ops.take k := List.take_append_of_le_length hk.le
    have hget : (ops ++ [op])[k]? = ops[k]? := List.getElem?_append_left hk
    unfold hits
    simp [htake, hget, hk.ne]
  · subst hk
    simp [hits]
  · -- past the end of both
    have hno : k ∉ hits P ops := fun h => (lt_length_of_mem_hits h).asymm hk
    have hno' : k ∉ hits P (ops ++ [op]) := by
      intro h
      have hlt := lt_length_of_mem_hits h
      rw [List.length_append, List.length_singleton] at hlt
      omega
    simp [hno, hno', hk.ne']

theorem tally_nil : tally P [] = 0 := by
  simp [tally, hits]

open Classical in
/-- One operation more. -/
theorem tally_concat (ops : List Op) (op : Op) :
    tally P (ops ++ [op]) = tally P ops + if P ops op then 1 else 0 := by
  unfold tally
  by_cases hP : P ops op
  · have hset : hits P (ops ++ [op]) = insert ops.length (hits P ops) := by
      ext k
      rw [mem_hits_concat, Set.mem_insert_iff]
      simp [hP, or_comm]
    have hnew : ops.length ∉ hits P ops := fun h => (lt_length_of_mem_hits h).false
    rw [hset, Set.ncard_insert_of_notMem hnew (hits_finite P ops), if_pos hP]
  · have hset : hits P (ops ++ [op]) = hits P ops := by
      ext k
      rw [mem_hits_concat]
      simp [hP]
    rw [hset, if_neg hP, Nat.add_zero]

open Classical in
/-- **Counters.** A counter that starts at 0 and grows by one exactly at the
operations that meet the condition holds their tally. -/
theorem counter_eq_tally {act : State → Op → State × List Answer} {init : State}
    (counter : State → ℕ) (hinit : counter init = 0)
    (hstep : ∀ ops op, counter (act (run act init ops).1 op).1 =
      counter (run act init ops).1 + if P ops op then 1 else 0) (ops : List Op) :
    counter (run act init ops).1 = tally P ops := by
  induction ops using List.reverseRecOn with
  | nil => rw [tally_nil]; exact hinit
  | append_singleton ops op ih => rw [run_concat, hstep, tally_concat, ih]

end Ops
