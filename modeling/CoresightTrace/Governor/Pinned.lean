import CoresightTrace.Governor.Calls

/-!
# The frequency that is pinned

`set_freq()` skips its writes when `last_set_freq` says that the frequency is set
already. This is sound as long as the variable mirrors the policy: when it is not
0, both bounds and the speed are what it says (`Mirrors`). The four writes establish
it from any policy with ordered bounds (`pins_of_writes`), and every call keeps it,
since its targets are within the hardware bounds and so never 0.

Before `freq_gov_init()` the table is empty and all frequencies read as 0
(`Unset`): no call writes anything then.
-/

namespace CsTrace
namespace Governor

/-! ### Pinning -/

/-- Both bounds and the speed are `f`. -/
structure CpuPolicy.PinnedAt (p : CpuPolicy) (f : ℕ) : Prop where
  min : p.scalingMinFreq = f
  max : p.scalingMaxFreq = f
  speed : p.scalingSetspeed = f

/-- **The writes of `set_freq()` pin the frequency.** If the first is rejected, the
upper bound is below the hardware's floor, and raised by the second. -/
theorem pins_of_writes {p : CpuPolicy} {lo f : ℕ} (hle : p.scalingMinFreq ≤ p.scalingMaxFreq)
    (hlo : lo ≤ f) (hu : p.scalingGovernor = "userspace") :
    ([.scalingMinFreq lo, .scalingMaxFreq f, .scalingMinFreq f, .scalingSetspeed f].foldl
      CpuPolicy.write p) = ⟨f, f, f, "userspace"⟩ := by
  by_cases hfirst : lo ≤ p.scalingMaxFreq
  · simp [CpuPolicy.write, hfirst, hlo, hu]
  · have hmin : p.scalingMinFreq ≤ f := by omega
    simp [CpuPolicy.write, hfirst, hmin, hu]

/-- `last_set_freq` mirrors the policy. -/
structure Mirrors (g : FreqGov) : Prop where
  userspace : g.policy.scalingGovernor = "userspace"
  ordered : g.policy.scalingMinFreq ≤ g.policy.scalingMaxFreq
  pinned : g.lastSetFreq ≠ 0 → g.policy.PinnedAt g.lastSetFreq

/-- A step that leaves the policy alone. -/
theorem Mirrors.keep {g g' : FreqGov} (h : Mirrors g) (hpolicy : g'.policy = g.policy)
    (hlast : g'.lastSetFreq = g.lastSetFreq) : Mirrors g' := by
  refine ⟨?_, ?_, ?_⟩ <;> rw [hpolicy]
  · exact h.userspace
  · exact h.ordered
  · rw [hlast]
    exact h.pinned

theorem Mirrors.setFreq {g : FreqGov} (h : Mirrors g) {f : ℕ} (hlo : g.systemMinCpufreq ≤ f) :
    Mirrors (Governor.setFreq g f) := by
  unfold Governor.setFreq
  split
  · exact h
  · have hwrites : (g.setFreqWrites f).foldl CpuPolicy.write g.policy = ⟨f, f, f, "userspace"⟩ :=
      pins_of_writes h.ordered hlo h.userspace
    refine ⟨?_, ?_, ?_⟩ <;> dsimp only <;> rw [hwrites]
    intro _
    exact ⟨rfl, rfl, rfl⟩

/-- The policy after `set_freq()`, skipped or not. -/
theorem Mirrors.pinnedAt {g : FreqGov} (h : Mirrors g) {f : ℕ} (hlast : g.lastSetFreq = f)
    (hpos : 0 < f) : g.policy.PinnedAt f := by
  rw [← hlast]
  exact h.pinned (by omega)

/-! ### The governor at work -/

/-- The governor is initialized and enabled, its search is in order and
`last_set_freq` mirrors the policy. -/
structure Steered (g : FreqGov) : Prop where
  enabled : g.enabled = true
  tabled : Tabled g
  mirrors : Mirrors g
  pos : 0 < g.systemMinCpufreq

theorem Steered.setFreq {g : FreqGov} (h : Steered g) {f : ℕ} (hf : g.InBounds f) :
    Steered (Governor.setFreq g f) := by
  have hfixed := setFreq_fixed g f
  refine ⟨hfixed.enabled.trans h.enabled, h.tabled.setFreq f, h.mirrors.setFreq hf.1, ?_⟩
  rw [hfixed.min]
  exact h.pos

theorem Steered.restoreMax {g : FreqGov} (h : Steered g) : Steered (freqGovRestoreMax g) := by
  rw [freqGovRestoreMax_eq h.enabled]
  exact h.setFreq ⟨h.tabled.ordered, le_rfl⟩

theorem Steered.setIdx {g : FreqGov} (h : Steered g) (mode : FreqMode) {i : ℕ}
    (hi : i < g.freqTable.length) : Steered (g.setIdx mode i) :=
  ⟨h.enabled, h.tabled.setIdx mode hi, h.mirrors.keep rfl rfl, h.pos⟩

theorem Steered.copyStart {g : FreqGov} (h : Steered g) (dst src : FreqMode) :
    Steered (freqGovCopyStart g dst src) :=
  h.setIdx dst (h.tabled.curIdx src)

theorem Steered.forceMin {g : FreqGov} (h : Steered g) : Steered (freqGovForceMin g) :=
  ⟨h.enabled, h.tabled.forceMin, h.mirrors.keep rfl rfl, h.pos⟩

theorem Steered.spent {g : FreqGov} (h : Steered g) :
    Steered { g with forceMinPending := false } :=
  ⟨h.enabled, ⟨h.tabled.bounds, h.tabled.curIdx, h.tabled.ordered⟩, h.mirrors.keep rfl rfl, h.pos⟩

theorem Steered.onResult {g : FreqGov} (h : Steered g) (mode : FreqMode) (o : Bool) :
    Steered (freqGovOnResult g mode o) := by
  have hfixed := freqGovOnResult_fixed g mode o
  refine ⟨hfixed.enabled.trans h.enabled, h.tabled.onResult mode o, ?_, ?_⟩
  · rw [freqGovOnResult_searched g mode o]
    exact h.mirrors.keep rfl rfl
  · rw [hfixed.min]
    exact h.pos

/-- The frequency `freq_gov_apply()` is meant to set. -/
def FreqGov.wanted (g : FreqGov) (mode : FreqMode) : ℕ :=
  if g.forceMinPending then g.freqAt 0 else g.freqAt (g.curIdx mode)

/-- **`freq_gov_apply()` sets the frequency it is meant to, and spends the forced
run.** -/
theorem Steered.apply {g : FreqGov} (h : Steered g) (mode : FreqMode) :
    Steered (freqGovApply g mode) ∧ (freqGovApply g mode).lastSetFreq = g.wanted mode ∧
      (freqGovApply g mode).forceMinPending = false ∧
      (freqGovApply g mode).freqTable = g.freqTable ∧
      (freqGovApply g mode).curIdx = g.curIdx := by
  unfold freqGovApply FreqGov.wanted
  rw [if_neg (by simp [h.enabled])]
  split
  · exact ⟨h.spent.setFreq h.tabled.inBounds_zero, by simp, by simp, by simp, by simp⟩
  · next hf =>
    exact ⟨h.setFreq (h.tabled.inBounds_curIdx mode), by simp, by simpa using hf, by simp, by simp⟩

/-- What is wanted is a frequency of the table, so never 0. -/
theorem Steered.freqAt_pos {g : FreqGov} (h : Steered g) {i : ℕ} (hi : i < g.freqTable.length) :
    0 < g.freqAt i :=
  lt_of_lt_of_le h.pos (h.tabled.freqAt hi).1

/-! ### Before initialization -/

/-- The governor was not initialized: its table is empty and nothing is pinned. -/
structure Unset (g : FreqGov) : Prop where
  enabled : g.enabled = true
  table : g.freqTable = []
  max : g.systemMaxCpufreq = 0
  last : g.lastSetFreq = 0
  idx : ∀ m, g.curIdx m = 0
  noForce : g.forceMinPending = false
  ordered : g.policy.scalingMinFreq ≤ g.policy.scalingMaxFreq

theorem Unset.static {p : CpuPolicy} (h : p.scalingMinFreq ≤ p.scalingMaxFreq) :
    Unset (.static p) :=
  ⟨rfl, rfl, rfl, rfl, fun _ => rfl, rfl, h⟩

theorem Unset.freqAt {g : FreqGov} (h : Unset g) (i : ℕ) : g.freqAt i = 0 := by
  simp [FreqGov.freqAt, h.table]

/-- Setting 0 is skipped: it is what was set last. -/
theorem Unset.setFreq {g : FreqGov} (h : Unset g) {f : ℕ} (hf : f = 0) :
    Governor.setFreq g f = g := by
  unfold Governor.setFreq
  rw [if_pos (by rw [hf, h.last])]

theorem Unset.restoreMax {g : FreqGov} (h : Unset g) : freqGovRestoreMax g = g := by
  rw [freqGovRestoreMax_eq h.enabled]
  exact h.setFreq h.max

theorem Unset.apply {g : FreqGov} (h : Unset g) (mode : FreqMode) : freqGovApply g mode = g := by
  unfold freqGovApply
  rw [if_neg (by simp [h.enabled]), if_neg (by simp [h.noForce])]
  exact h.setFreq (h.freqAt _)

theorem Unset.onResult {g : FreqGov} (h : Unset g) (mode : FreqMode) (o : Bool) :
    Unset (freqGovOnResult g mode o) := by
  have hidx (m : FreqMode) : (freqGovOnResult g mode o).curIdx m = 0 := by
    -- there is no rung to step to
    unfold freqGovOnResult
    rw [if_neg (by simp [h.enabled]), adaptInterval_curIdx]
    cases o with
    | true => simp [onOverflow, h.idx]
    | false =>
      simp only [Bool.false_eq_true, if_false, onClean]
      split <;> simp [h.table, h.idx]
  rw [freqGovOnResult_searched g mode o]
  exact ⟨h.enabled, h.table, h.max, h.last, hidx, h.noForce, h.ordered⟩

/-- An attempt is neither repeated nor forced. -/
theorem Unset.endAttempt {g : FreqGov} (h : Unset g) (mode : FreqMode) (rep : ℕ)
    (forced o : Bool) :
    (Governor.endAttempt g mode rep forced o).2 = .done ∧
      Unset (Governor.endAttempt g mode rep forced o).1 := by
  have hon := h.onResult mode o
  have hretry : freqGovShouldRetry g mode o rep = false := by
    simp [freqGovShouldRetry, h.idx]
  have hfloor : freqGovAtFloor (freqGovOnResult g mode o) mode = true := by
    simp [freqGovAtFloor, hon.idx]
  have hend : Governor.endAttempt g mode rep forced o = (freqGovOnResult g mode o, .done) := by
    unfold Governor.endAttempt
    simp [h.restoreMax, hretry, hfloor]
  rw [hend]
  exact ⟨rfl, hon⟩

/-- **Initialization makes the governor work.** -/
theorem Unset.init {g : FreqGov} (h : Unset g) {r : InitReads} (addrOnly : Bool)
    (hd : r.disabled = false) (hpos : 0 < r.cpuinfoMinFreq)
    (hle : r.cpuinfoMinFreq ≤ r.cpuinfoMaxFreq) :
    Steered (freqGovInit g r addrOnly) ∧
      (freqGovInit g r addrOnly).forceMinPending = false := by
  have htab := Tabled.init g addrOnly hd hle
  unfold freqGovInit at htab ⊢
  simp only [hd, Bool.false_eq_true, if_false] at htab ⊢
  refine ⟨⟨h.enabled, htab, ⟨rfl, h.ordered, ?_⟩, hpos⟩, h.noForce⟩
  intro hlast
  exact absurd rfl hlast

end Governor
end CsTrace
