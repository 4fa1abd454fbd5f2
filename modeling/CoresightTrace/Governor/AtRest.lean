import CoresightTrace.Governor.Evidence
import CoresightTrace.Governor.Pinned

/-!
# The governor between two runs

After each run the maximum is restored, so a run of either mode finds the policy as
the run before it did and leaves it so: pinning a frequency and lifting it again is
no change at all (`AtRest.restore_apply`). What is left of a run is its result, and a
result of the addr pass is left in the addr search alone. `FreqGov.unaddressed` is
the governor without that search. The calls of the atom pass go by it, and the
results of the addr pass do not change it.

`Prepared` is what the first run finds: the governor is disabled, or it is steered and
no forced run is pending. Calibration keeps it, also where a shot has failed and its
frequency was not lifted (`Prepared.calibrate`).
-/

namespace CsTrace
namespace Governor

variable {g : FreqGov}

/-! ### Prepared for a run -/

/-- The governor is disabled, or it is steered and no forced run is pending. -/
def Prepared (g : FreqGov) : Prop :=
  g.enabled = false ∨ Steered g ∧ g.forceMinPending = false

theorem Prepared.restoreMax (h : Prepared g) : Prepared (freqGovRestoreMax g) := by
  rcases h with he | ⟨hs, hforce⟩
  · exact .inl ((freqGovRestoreMax_fixed g).enabled.trans he)
  · refine .inr ⟨hs.restoreMax, ?_⟩
    rw [freqGovRestoreMax_eq hs.enabled, setFreq_forceMinPending]
    exact hforce

theorem Prepared.apply (h : Prepared g) (mode : FreqMode) : Prepared (freqGovApply g mode) := by
  rcases h with he | ⟨hs, -⟩
  · exact .inl ((freqGovApply_fixed g mode).enabled.trans he)
  · obtain ⟨hsteered, -, hforce, -⟩ := hs.apply mode
    exact .inr ⟨hsteered, hforce⟩

theorem Prepared.copyStart (h : Prepared g) (dst src : FreqMode) :
    Prepared (freqGovCopyStart g dst src) := by
  rcases h with he | ⟨hs, hforce⟩
  · exact .inl he
  · exact .inr ⟨hs.copyStart dst src, hforce⟩

/-- A shot that fails leaves its frequency pinned. -/
theorem Steered.runOneShot (h : Steered g) (hforce : g.forceMinPending = false) (shot : Shot) :
    Steered (Governor.runOneShot g shot).1 ∧
      (Governor.runOneShot g shot).1.forceMinPending = false := by
  cases shot with
  | failed => exact ⟨h, hforce⟩
  | ran o =>
    refine ⟨h.restoreMax, ?_⟩
    change (freqGovRestoreMax g).forceMinPending = false
    rw [freqGovRestoreMax_eq h.enabled, setFreq_forceMinPending]
    exact hforce

theorem Steered.rampLoop {mode : FreqMode} {shots : ℕ → Shot} {rest : List ℕ} {i : ℕ}
    (h : Steered g) (hforce : g.forceMinPending = false)
    (hi : i + rest.length = g.freqTable.length) (hrest : ∀ f ∈ rest, g.InBounds f) :
    Steered (Governor.rampLoop mode shots rest i g).1 ∧
      (Governor.rampLoop mode shots rest i g).1.forceMinPending = false := by
  induction rest generalizing i g with
  | nil => exact ⟨h, hforce⟩
  | cons f rest ih =>
    have hfixed := (setFreq_fixed g f).trans (runOneShot_fixed (Governor.setFreq g f) (shots i))
    have hset : (Governor.setFreq g f).forceMinPending = false := by
      rw [setFreq_forceMinPending]
      exact hforce
    obtain ⟨hshot, hforce'⟩ :=
      (h.setFreq (hrest f List.mem_cons_self)).runOneShot hset (shots i)
    unfold Governor.rampLoop
    dsimp only
    split
    · exact ⟨hshot, hforce'⟩
    · -- the rung that ran clean is the position so far
      have hlt : i < (Governor.runOneShot (Governor.setFreq g f) (shots i)).1.freqTable.length := by
        rw [hfixed.table, ← hi, List.length_cons]
        omega
      refine ih (hshot.setIdx mode hlt) hforce' ?_ ?_
      · change i + 1 + rest.length =
          (Governor.runOneShot (Governor.setFreq g f) (shots i)).1.freqTable.length
        rw [hfixed.table, ← hi, List.length_cons]
        omega
      · intro f' hf'
        change _ ≤ f' ∧ f' ≤ _
        have hin := hrest f' (List.mem_cons_of_mem f hf')
        unfold FreqGov.InBounds at hin
        rw [← hfixed.min, ← hfixed.max] at hin
        exact hin

/-- **Calibration leaves the governor ready.** -/
theorem Prepared.calibrate (h : Prepared g) (mode : FreqMode) (shots : ℕ → Shot) :
    Prepared (freqGovCalibrate g mode shots).1 := by
  unfold freqGovCalibrate
  rcases h with he | ⟨hs, hforce⟩
  · rw [if_pos (by simp [he])]
    exact .inl he
  · rw [if_neg (by simp [hs.enabled])]
    have hstart := hs.setIdx mode (Nat.zero_lt_of_lt (hs.tabled.curIdx mode))
    exact .inr (hstart.rampLoop hforce (Nat.zero_add _) hs.tabled.bounds)

/-! ### At rest -/

/-- The governor is disabled, or the maximum is restored. -/
def AtRest (g : FreqGov) : Prop :=
  g.enabled = false ∨
    Steered g ∧ g.forceMinPending = false ∧ g.lastSetFreq = g.systemMaxCpufreq

theorem AtRest.prepared (h : AtRest g) : Prepared g := by
  rcases h with he | ⟨hs, hforce, -⟩
  · exact .inl he
  · exact .inr ⟨hs, hforce⟩

theorem AtRest.onResult (h : AtRest g) (mode : FreqMode) (o : Bool) :
    AtRest (freqGovOnResult g mode o) := by
  rcases h with he | ⟨hs, hforce, hlast⟩
  · rw [freqGovOnResult_disabled he]
    exact .inl he
  · refine .inr ⟨hs.onResult mode o, (freqGovOnResult_frame g mode o).2.2.trans hforce, ?_⟩
    rw [freqGovOnResult_searched g mode o]
    exact hlast

/-- A run ends with the governor at rest. -/
theorem Prepared.atRest_restore (h : Prepared g) : AtRest (freqGovRestoreMax g) := by
  rcases h.restoreMax with he | ⟨hs, hforce⟩
  · exact .inl he
  · have henabled : g.enabled = true := (freqGovRestoreMax_fixed g).enabled.symm.trans hs.enabled
    refine .inr ⟨hs, hforce, ?_⟩
    rw [freqGovRestoreMax_eq henabled, setFreq_lastSetFreq, (setFreq_fixed g _).max]

/-- The policy of a governor at rest. -/
theorem Steered.policy_eq (h : Steered g) (hlast : g.lastSetFreq = g.systemMaxCpufreq) :
    g.policy = ⟨g.systemMaxCpufreq, g.systemMaxCpufreq, g.systemMaxCpufreq, "userspace"⟩ := by
  have hpos : 0 < g.systemMaxCpufreq := lt_of_lt_of_le h.pos h.tabled.ordered
  obtain ⟨hmin, hmax, hspeed⟩ := h.mirrors.pinnedAt hlast hpos
  rw [← hmin, ← h.mirrors.userspace]
  conv_lhs => rw [show g.policy = ⟨g.policy.scalingMinFreq, g.policy.scalingMaxFreq,
    g.policy.scalingSetspeed, g.policy.scalingGovernor⟩ from rfl]
  rw [hmin, hmax, hspeed]

/-- Pinning a frequency writes the policy and `last_set_freq` only. -/
theorem setFreq_eq (g : FreqGov) (f : ℕ) :
    setFreq g f =
      { g with policy := (setFreq g f).policy, lastSetFreq := (setFreq g f).lastSetFreq } := by
  unfold setFreq
  split <;> rfl

theorem freqGovApply_of_noForce (hforce : g.forceMinPending = false) (he : g.enabled = true)
    (mode : FreqMode) : freqGovApply g mode = setFreq g (g.freqAt (g.curIdx mode)) := by
  unfold freqGovApply
  rw [if_neg (by simp [he]), if_neg (by simp [hforce])]

/-- **A run leaves a governor at rest as it was**, but for its result. -/
theorem AtRest.restore_apply (h : AtRest g) (mode : FreqMode) :
    freqGovRestoreMax (freqGovApply g mode) = g := by
  rcases h with he | ⟨hs, hforce, hlast⟩
  · have happly : freqGovApply g mode = g := by
      unfold freqGovApply
      rw [if_pos (by simp [he])]
    rw [happly]
    unfold freqGovRestoreMax
    rw [if_pos (by simp [he])]
  · have hrun := (hs.apply mode).1
    rw [freqGovRestoreMax_eq hrun.enabled]
    have hend := hrun.restoreMax
    rw [freqGovRestoreMax_eq hrun.enabled] at hend
    have hmax := (freqGovApply_fixed g mode).max
    -- the policy is pinned at the maximum again
    have hpolicy := hend.policy_eq (by rw [setFreq_lastSetFreq, (setFreq_fixed _ _).max])
    rw [(setFreq_fixed _ _).max, hmax, ← hs.policy_eq hlast] at hpolicy
    calc setFreq (freqGovApply g mode) (freqGovApply g mode).systemMaxCpufreq
      _ = setFreq (freqGovApply g mode) g.systemMaxCpufreq := by rw [hmax]
      _ = { freqGovApply g mode with policy := g.policy, lastSetFreq := g.lastSetFreq } := by
          rw [setFreq_eq, hpolicy, setFreq_lastSetFreq, hlast]
      _ = g := by rw [freqGovApply_of_noForce hforce hs.enabled, setFreq_eq]

/-! ### Without the addr search -/

/-- The governor without the search of the addr pass. -/
def FreqGov.unaddressed (g : FreqGov) : FreqGov :=
  { g with
    curIdx := setMode g.curIdx .addr 0
    optIdxSum := setMode g.optIdxSum .addr 0
    stableNums := setMode g.stableNums .addr 0
    nonOverflowNums := setMode g.nonOverflowNums .addr 0
    totalExecs := setMode g.totalExecs .addr 0
    totalOverflowExecs := setMode g.totalOverflowExecs .addr 0 }

theorem setMode_comm {α : Type*} (f : FreqMode → α) {m m' : FreqMode} (h : m ≠ m') (v v' : α) :
    setMode (setMode f m v) m' v' = setMode (setMode f m' v') m v := by
  ext k
  unfold setMode
  by_cases hk : k = m
  · rw [if_pos hk, if_pos hk, if_neg (by rw [hk]; exact h)]
  · rw [if_neg hk, if_neg hk]

@[simp] theorem setMode_setMode {α : Type*} (f : FreqMode → α) (m : FreqMode) (v v' : α) :
    setMode (setMode f m v) m v' = setMode f m v' := by
  ext k
  unfold setMode
  split <;> rfl

@[simp] theorem setMode_addr_atom {α : Type*} (f : FreqMode → α) (v : α) :
    setMode f .addr v .atom = f .atom :=
  rfl

theorem setFreq_unaddressed (g : FreqGov) (f : ℕ) :
    (setFreq g f).unaddressed = setFreq g.unaddressed f := by
  unfold setFreq
  change _ = if f = g.lastSetFreq then _ else _
  split <;> rfl

theorem freqGovRestoreMax_unaddressed (g : FreqGov) :
    (freqGovRestoreMax g).unaddressed = freqGovRestoreMax g.unaddressed := by
  unfold freqGovRestoreMax
  change _ = if ¬ g.enabled = true then _ else _
  split
  · rfl
  · exact setFreq_unaddressed g _

/-- The atom pass is pinned by what `unaddressed` keeps. -/
theorem freqGovApply_unaddressed (g : FreqGov) :
    (freqGovApply g .atom).unaddressed = freqGovApply g.unaddressed .atom := by
  unfold freqGovApply
  change _ = if ¬ g.enabled = true then _ else if g.forceMinPending = true then _ else _
  split
  · rfl
  · split
    · exact setFreq_unaddressed _ _
    · exact setFreq_unaddressed g _

theorem adaptInterval_unaddressed (g : FreqGov) :
    (adaptInterval g).unaddressed = adaptInterval g.unaddressed := by
  unfold adaptInterval
  change _ = if ¬ g.addrOnlyMode = true ∧ 0 < g.totalOverflowExecs .atom then _ else _
  split <;> rfl

theorem onOverflow_unaddressed (g : FreqGov) :
    (onOverflow g .atom).unaddressed = onOverflow g.unaddressed .atom := by
  have hne : FreqMode.atom ≠ .addr := by decide
  unfold onOverflow FreqGov.unaddressed
  simp only [setMode_addr_atom, setMode_comm _ hne]
  by_cases hidx : 0 < g.curIdx .atom
  · simp [hidx, setMode_comm _ hne]
  · simp [hidx]

theorem onClean_unaddressed (g : FreqGov) :
    (onClean g .atom).unaddressed = onClean g.unaddressed .atom := by
  have hne : FreqMode.atom ≠ .addr := by decide
  unfold onClean
  change _ = if g.freqInterval ≤ g.nonOverflowNums .atom + 1 then _ else _
  dsimp only
  split
  · unfold FreqGov.unaddressed
    simp only [setMode_addr_atom, setMode_comm _ hne]
    by_cases hidx : g.curIdx .atom + 1 < g.freqTable.length
    · simp [hidx, setMode_comm _ hne]
    · simp [hidx]
  · unfold FreqGov.unaddressed
    simp only [setMode_addr_atom, setMode_comm _ hne]

/-- A result of the atom pass goes by what `unaddressed` keeps. -/
theorem freqGovOnResult_unaddressed (g : FreqGov) (o : Bool) :
    (freqGovOnResult g .atom o).unaddressed = freqGovOnResult g.unaddressed .atom o := by
  have hne : FreqMode.atom ≠ .addr := by decide
  have hcounted : ({ g with
      totalExecs := setMode g.totalExecs .atom (g.totalExecs .atom + 1) } : FreqGov).unaddressed =
      { g.unaddressed with
        totalExecs :=
          setMode g.unaddressed.totalExecs .atom (g.unaddressed.totalExecs .atom + 1) } := by
    unfold FreqGov.unaddressed
    simp only [setMode_addr_atom, setMode_comm _ hne]
  unfold freqGovOnResult
  change _ = if ¬ g.enabled = true then _ else _
  split
  · rfl
  · dsimp only
    rw [adaptInterval_unaddressed]
    cases o with
    | true => rw [if_pos rfl, if_pos rfl, onOverflow_unaddressed, hcounted]
    | false =>
      rw [if_neg Bool.false_ne_true, if_neg Bool.false_ne_true, onClean_unaddressed, hcounted]

/-- **A result of the addr pass is left in the addr search.** -/
theorem Adapted.unaddressed_onResult (h : Adapted g) (o : Bool) :
    (freqGovOnResult g .addr o).unaddressed = g.unaddressed := by
  have hatom := freqGovOnResult_search_of_ne g o (show FreqMode.atom ≠ .addr by decide)
  have hwindow := h.freqInterval_onResult_addr o
  have hsearch {α : Type} (f f' : FreqMode → α) (v : α) (hf : f .atom = f' .atom) :
      setMode f .addr v = setMode f' .addr v := by
    ext m
    cases m with
    | atom => exact hf
    | addr => rfl
  rw [freqGovOnResult_searched g .addr o]
  unfold FreqGov.unaddressed
  dsimp only
  rw [hwindow, hsearch _ g.curIdx 0 (congrArg ModeSearch.curIdx hatom),
    hsearch _ g.optIdxSum 0 (congrArg ModeSearch.optIdxSum hatom),
    hsearch _ g.stableNums 0 (congrArg ModeSearch.stableNums hatom),
    hsearch _ g.nonOverflowNums 0 (congrArg ModeSearch.nonOverflowNums hatom),
    hsearch _ g.totalExecs 0 (congrArg ModeSearch.totalExecs hatom),
    hsearch _ g.totalOverflowExecs 0 (congrArg ModeSearch.totalOverflowExecs hatom)]

/-! ### A run and its result -/

/-- The governor after a run of `mode` with its result. -/
def FreqGov.afterRun (g : FreqGov) (mode : FreqMode) (o : Bool) : FreqGov :=
  freqGovOnResult (freqGovRestoreMax (freqGovApply g mode)) mode o

theorem afterRun_fixed (g : FreqGov) (mode : FreqMode) (o : Bool) :
    Fixed g (g.afterRun mode o) :=
  ((freqGovApply_fixed g mode).trans (freqGovRestoreMax_fixed _)).trans
    (freqGovOnResult_fixed _ mode o)

theorem Prepared.afterRun (h : Prepared g) (mode : FreqMode) (o : Bool) :
    AtRest (g.afterRun mode o) :=
  (h.apply mode).atRest_restore.onResult mode o

theorem Adapted.afterRun (h : Adapted g) (mode : FreqMode) (o : Bool) :
    Adapted (g.afterRun mode o) :=
  ((h.run (.apply mode)).run .restoreMax).onResult mode o

theorem afterRun_unaddressed (g : FreqGov) (o : Bool) :
    (g.afterRun .atom o).unaddressed = g.unaddressed.afterRun .atom o := by
  unfold FreqGov.afterRun
  rw [freqGovOnResult_unaddressed, freqGovRestoreMax_unaddressed, freqGovApply_unaddressed]

/-- **A run of the addr pass is left in the addr search.** -/
theorem AtRest.unaddressed_afterRun (h : AtRest g) (ha : Adapted g) (o : Bool) :
    (g.afterRun .addr o).unaddressed = g.unaddressed := by
  unfold FreqGov.afterRun
  rw [h.restore_apply]
  exact ha.unaddressed_onResult o

end Governor
end CsTrace
