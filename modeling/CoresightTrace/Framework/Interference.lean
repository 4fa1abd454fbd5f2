import Mathlib.Data.List.Basic

/-!
# Operations that leave a view alone

Two runs of a deterministic component are compared through a *view* of its
state. Some operations are hidden: they answer nothing and do not change the
view. The others answer and change the view by what they see of it. Then what
a run answers, and the view it ends in, are decided by its visible operations
alone (`ops_agree`), wherever the hidden ones stand.

* `Ops.run act s ops` — the state `ops` lead to from `s`, and the answers on the
  way, oldest first;
* `Ops.Noninterfering act view hidden` — the two conditions on single operations.

Two components with operations in common are compared through a relation of their
states (`run_related`).
-/

namespace Ops

variable {State Op Answer View : Type*}

/-- Where the operations lead from `s`, and what they answer. -/
def run (act : State → Op → State × List Answer) (s : State) : List Op → State × List Answer
  | [] => (s, [])
  | op :: ops =>
    let after := run act (act s op).1 ops
    (after.1, (act s op).2 ++ after.2)

/-- A map of states that commutes with every operation commutes with a run. Taken
as the inclusion of the states that meet an invariant, it lets the conditions below
be shown for these states only. -/
theorem run_map {State' : Type*} {act : State → Op → State × List Answer}
    {act' : State' → Op → State' × List Answer} (f : State → State')
    (h : ∀ s op, (f (act s op).1, (act s op).2) = act' (f s) op) (s : State) (ops : List Op) :
    run act' (f s) ops = (f (run act s ops).1, (run act s ops).2) := by
  induction ops generalizing s with
  | nil => rfl
  | cons op ops ih =>
    unfold run
    rw [← h s op, ih]

/-- Two components that answer alike from related states, and stay related, answer a
run alike. -/
theorem run_related {State' : Type*} {act : State → Op → State × List Answer}
    {act' : State' → Op → State' × List Answer} {R : State → State' → Prop} {ops : List Op}
    (h : ∀ op ∈ ops, ∀ s t, R s t → R (act s op).1 (act' t op).1 ∧ (act s op).2 = (act' t op).2)
    {s : State} {t : State'} (hst : R s t) :
    R (run act s ops).1 (run act' t ops).1 ∧ (run act s ops).2 = (run act' t ops).2 := by
  induction ops generalizing s t with
  | nil => exact ⟨hst, rfl⟩
  | cons op ops ih =>
    obtain ⟨hnext, hanswer⟩ := h op List.mem_cons_self s t hst
    obtain ⟨hend, hanswers⟩ := ih (fun op' hop => h op' (List.mem_cons_of_mem op hop)) hnext
    refine ⟨hend, ?_⟩
    change (act s op).2 ++ _ = (act' t op).2 ++ _
    rw [hanswer, hanswers]

/-- Hidden operations are silent and leave the view alone, and the others go by
the view. -/
structure Noninterfering (act : State → Op → State × List Answer) (view : State → View)
    (hidden : Op → Bool) : Prop where
  silent : ∀ s op, hidden op = true → view (act s op).1 = view s ∧ (act s op).2 = []
  blind : ∀ s t op, hidden op = false → view s = view t →
    view (act s op).1 = view (act t op).1 ∧ (act s op).2 = (act t op).2

variable {act : State → Op → State × List Answer} {view : State → View} {hidden : Op → Bool}

/-- Hidden operations may be deleted. -/
theorem Noninterfering.run_filter (h : Noninterfering act view hidden) {s t : State}
    (hview : view s = view t) (ops : List Op) :
    view (run act s ops).1 = view (run act t (ops.filter fun op => !hidden op)).1 ∧
      (run act s ops).2 = (run act t (ops.filter fun op => !hidden op)).2 := by
  induction ops generalizing s t with
  | nil => exact ⟨hview, rfl⟩
  | cons op ops ih =>
    cases hop : hidden op with
    | true =>
      -- the shorter run stays where it is
      obtain ⟨hsame, hnone⟩ := h.silent s op hop
      rw [List.filter_cons_of_neg (by simp [hop])]
      obtain ⟨hend, hanswers⟩ := ih (hsame.trans hview)
      refine ⟨hend, ?_⟩
      change (act s op).2 ++ _ = _
      rw [hnone]
      exact hanswers
    | false =>
      -- both runs make the step
      obtain ⟨hnext, hanswer⟩ := h.blind s t op hop hview
      rw [List.filter_cons_of_pos (by simp [hop])]
      obtain ⟨hend, hanswers⟩ := ih hnext
      refine ⟨hend, ?_⟩
      change (act s op).2 ++ _ = (act t op).2 ++ _
      rw [hanswer, hanswers]

/-- **Noninterference.** Runs that agree on the visible operations answer the same
and end in the same view. -/
theorem Noninterfering.ops_agree (h : Noninterfering act view hidden) {s t : State}
    (hview : view s = view t) {ops ops' : List Op}
    (hops : (ops.filter fun op => !hidden op) = ops'.filter fun op => !hidden op) :
    (run act s ops).2 = (run act t ops').2 ∧ view (run act s ops).1 = view (run act t ops').1 := by
  obtain ⟨hend, hanswers⟩ := h.run_filter (rfl : view t = view t) ops'
  obtain ⟨hend', hanswers'⟩ := h.run_filter hview ops
  rw [hops] at hend' hanswers'
  exact ⟨hanswers'.trans hanswers.symm, hend'.trans hend.symm⟩

end Ops
