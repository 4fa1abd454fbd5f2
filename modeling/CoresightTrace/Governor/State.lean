import Mathlib.Data.List.Sort

/-!
# The frequency governor

`freq_gov.c` keeps, for each of the two pass modes, a position in the board's
table of available frequencies. Each exec's outcome moves the position: an
overflow steps down at once, and a window of clean execs steps up. The position
is applied before an exec by pinning the cpufreq policy, and lifted after it.

The kernel's side is `CpuPolicy`: it accepts a bound only when the bounds stay
ordered, and a `scaling_setspeed` only under the `userspace` governor. A
redundant write is skipped, so `last_set_freq` is part of the state.

Diagnostics (`freq_diag`, the `[FREQ_GOV]` lines and `freq_gov_report()`) change
no state and are left out, and so are the exit hooks and the restore guard.
-/

namespace CsTrace
namespace Governor

/-- `freq_mode_t`. -/
inductive FreqMode where
  | atom
  | addr
deriving DecidableEq, Repr

/-- `FREQ_GOV_MAX_REPETITION_NUM`. -/
def maxRepetitionNum : ℕ := 3

/-- `FREQ_INTERVAL`. -/
def freqIntervalInit : ℕ := 1000

/-- `MIN_FREQ_INTERVAL`. -/
def minFreqInterval : ℕ := 100

/-- `MAX_FREQ_INTERVAL`. -/
def maxFreqInterval : ℕ := 1000

/-- Entries of `freq_table`. -/
def freqTableSize : ℕ := 64

/-! ### The cpufreq policy -/

/-- A write to one file of the policy's sysfs directory. -/
inductive SysfsWrite where
  | scalingMinFreq (val : ℕ)
  | scalingMaxFreq (val : ℕ)
  | scalingSetspeed (val : ℕ)
  | scalingGovernor (val : String)
deriving DecidableEq, Repr

/-- The traced CPU's policy, as the kernel holds it. -/
structure CpuPolicy where
  scalingMinFreq : ℕ
  scalingMaxFreq : ℕ
  scalingSetspeed : ℕ
  scalingGovernor : String
deriving DecidableEq, Repr

/-- The policy after a write, which the kernel may reject. -/
def CpuPolicy.write (p : CpuPolicy) : SysfsWrite → CpuPolicy
  | .scalingMinFreq v => if v ≤ p.scalingMaxFreq then { p with scalingMinFreq := v } else p
  | .scalingMaxFreq v => if p.scalingMinFreq ≤ v then { p with scalingMaxFreq := v } else p
  | .scalingSetspeed v =>
    if p.scalingGovernor = "userspace" then { p with scalingSetspeed := v } else p
  | .scalingGovernor v => { p with scalingGovernor := v }

/-! ### State -/

/-- The static variables of `freq_gov.c`. `opt_idx_sum` is an `int`, and the
entries of `freq_table` from `freq_table_num` on are its initial zeros. -/
structure FreqGov where
  systemMinCpufreq : ℕ
  systemMaxCpufreq : ℕ
  freqTable : List ℕ
  curIdx : FreqMode → ℕ
  optIdxSum : FreqMode → BitVec 32
  stableNums : FreqMode → ℕ
  nonOverflowNums : FreqMode → ℕ
  totalExecs : FreqMode → ℕ
  totalOverflowExecs : FreqMode → ℕ
  freqInterval : ℕ
  addrOnlyMode : Bool
  enabled : Bool
  forceMinPending : Bool
  lastSetFreq : ℕ
  restoreOps : List SysfsWrite
  policy : CpuPolicy

/-- The governor before `freq_gov_init()`, over a policy. -/
def FreqGov.static (p : CpuPolicy) : FreqGov where
  systemMinCpufreq := 0
  systemMaxCpufreq := 0
  freqTable := []
  curIdx _ := 0
  optIdxSum _ := 0
  stableNums _ := 0
  nonOverflowNums _ := 0
  totalExecs _ := 0
  totalOverflowExecs _ := 0
  freqInterval := minFreqInterval
  addrOnlyMode := false
  enabled := true
  forceMinPending := false
  lastSetFreq := 0
  restoreOps := []
  policy := p

/-- `freq_table[i]`. -/
def FreqGov.freqAt (g : FreqGov) (i : ℕ) : ℕ :=
  g.freqTable.getD i 0

/-- A per-mode variable with the entry of `mode` set. -/
def setMode {α : Type*} (f : FreqMode → α) (mode : FreqMode) (v : α) : FreqMode → α :=
  fun m => if m = mode then v else f m

@[simp] theorem setMode_self {α : Type*} (f : FreqMode → α) (mode : FreqMode) (v : α) :
    setMode f mode v mode = v :=
  if_pos rfl

/-! ### Pinning a frequency -/

/-- The writes of `set_freq()`, in order. -/
def FreqGov.setFreqWrites (g : FreqGov) (target : ℕ) : List SysfsWrite :=
  [.scalingMinFreq g.systemMinCpufreq, .scalingMaxFreq target, .scalingMinFreq target,
    .scalingSetspeed target]

/-- `set_freq()`. -/
def setFreq (g : FreqGov) (target : ℕ) : FreqGov :=
  if target = g.lastSetFreq then g
  else
    { g with
      policy := (g.setFreqWrites target).foldl CpuPolicy.write g.policy
      lastSetFreq := target }

/-- `freq_gov_apply()`. -/
def freqGovApply (g : FreqGov) (mode : FreqMode) : FreqGov :=
  if ¬ g.enabled then g
  else if g.forceMinPending then
    -- the forced run is spent by the run that makes it
    setFreq { g with forceMinPending := false } (g.freqAt 0)
  else setFreq g (g.freqAt (g.curIdx mode))

/-- `freq_gov_restore_max()`. -/
def freqGovRestoreMax (g : FreqGov) : FreqGov :=
  if ¬ g.enabled then g else setFreq g g.systemMaxCpufreq

/-- `freq_gov_force_min()`. -/
def freqGovForceMin (g : FreqGov) : FreqGov :=
  { g with forceMinPending := true }

/-! ### One exec's outcome -/

/-- `freq_interval` recomputed from the atom pass's totals. -/
def adaptInterval (g : FreqGov) : FreqGov :=
  if ¬ g.addrOnlyMode ∧ 0 < g.totalOverflowExecs .atom then
    -- one fifth of the mean distance between overflows, within the bounds
    let fi := g.totalExecs .atom / g.totalOverflowExecs .atom / 5
    { g with
      freqInterval :=
        if fi < minFreqInterval then minFreqInterval
        else if maxFreqInterval < fi then maxFreqInterval
        else fi }
  else g

/-- `freq_gov_on_result()` of an overflowed exec, `total_execs` counted. -/
def onOverflow (g : FreqGov) (mode : FreqMode) : FreqGov :=
  { g with
    totalOverflowExecs :=
      setMode g.totalOverflowExecs mode (g.totalOverflowExecs mode + 1)
    curIdx :=
      -- one rung down, at once
      if 0 < g.curIdx mode then setMode g.curIdx mode (g.curIdx mode - 1) else g.curIdx
    nonOverflowNums := setMode g.nonOverflowNums mode 0 }

/-- `freq_gov_on_result()` of a clean exec, `total_execs` counted. -/
def onClean (g : FreqGov) (mode : FreqMode) : FreqGov :=
  let clean := g.nonOverflowNums mode + 1
  if g.freqInterval ≤ clean then
    { g with
      -- an interval without overflow: the rung counts as stable, and one rung up
      stableNums := setMode g.stableNums mode (g.stableNums mode + 1)
      optIdxSum :=
        setMode g.optIdxSum mode (g.optIdxSum mode + BitVec.ofNat 32 (g.curIdx mode))
      curIdx :=
        if g.curIdx mode + 1 < g.freqTable.length then
          setMode g.curIdx mode (g.curIdx mode + 1)
        else g.curIdx
      nonOverflowNums := setMode g.nonOverflowNums mode 0 }
  else { g with nonOverflowNums := setMode g.nonOverflowNums mode clean }

/-- `freq_gov_on_result()`. -/
def freqGovOnResult (g : FreqGov) (mode : FreqMode) (overflowed : Bool) : FreqGov :=
  if ¬ g.enabled then g
  else
    -- `cur_idx` moves here, after the caller has asked whether to retry
    let g := { g with totalExecs := setMode g.totalExecs mode (g.totalExecs mode + 1) }
    adaptInterval (if overflowed then onOverflow g mode else onClean g mode)

/-! ### Queries -/

/-- `freq_gov_should_retry()`. -/
def freqGovShouldRetry (g : FreqGov) (mode : FreqMode) (overflowed : Bool)
    (curRepetitionNum : ℕ) : Bool :=
  g.enabled && overflowed && mode == .addr && decide (0 < g.curIdx .addr) &&
    decide (curRepetitionNum < maxRepetitionNum)

/-- `freq_gov_at_floor()`. -/
def freqGovAtFloor (g : FreqGov) (mode : FreqMode) : Bool :=
  !g.enabled || decide (g.curIdx mode = 0)

/-- `freq_gov_copy_start()`. -/
def freqGovCopyStart (g : FreqGov) (dst src : FreqMode) : FreqGov :=
  { g with curIdx := setMode g.curIdx dst (g.curIdx src) }

/-! ### Initialization -/

/-- What `freq_gov_init()` reads from its environment and from sysfs. A read
that fails gives 0, an unreadable governor the empty string, and an unreadable
list of frequencies the empty list. -/
structure InitReads where
  disabled : Bool
  cpuinfoMaxFreq : ℕ
  cpuinfoMinFreq : ℕ
  scalingAvailableFrequencies : List ℕ
  scalingGovernor : String
  scalingMinFreq : ℕ
  scalingMaxFreq : ℕ
  scalingSetspeed : ℕ

/-- `read_available_frequencies()`: the first listed values within the hardware
bounds, or the bounds when there is none, sorted by the insertion sort. -/
def readAvailableFrequencies (lo hi : ℕ) (listed : List ℕ) : List ℕ :=
  -- values outside the hardware bounds are skipped before the table is full
  let read := (listed.filter fun f => decide (lo ≤ f ∧ f ≤ hi)).take freqTableSize
  (if read = [] then [lo, hi] else read).insertionSort (· ≤ ·)

/-- The restore targets `freq_gov_init()` stages, in order. -/
def stagedRestore (r : InitReads) : List SysfsWrite :=
  (if r.cpuinfoMinFreq ≠ 0 then [.scalingMinFreq r.cpuinfoMinFreq] else []) ++
    (if r.scalingMaxFreq ≠ 0 then [.scalingMaxFreq r.scalingMaxFreq] else []) ++
    (if r.scalingMinFreq ≠ 0 then [.scalingMinFreq r.scalingMinFreq] else []) ++
    (if r.scalingGovernor ≠ "" then [.scalingGovernor r.scalingGovernor] else []) ++
    (if r.scalingGovernor = "userspace" ∧ r.scalingSetspeed ≠ 0 then
      [.scalingSetspeed r.scalingSetspeed] else [])

/-- `freq_gov_init()`. -/
def freqGovInit (g : FreqGov) (r : InitReads) (addrOnly : Bool) : FreqGov :=
  let g := { g with addrOnlyMode := addrOnly }
  if r.disabled then { g with enabled := false }
  else
    let table :=
      readAvailableFrequencies r.cpuinfoMinFreq r.cpuinfoMaxFreq r.scalingAvailableFrequencies
    { g with
      systemMaxCpufreq := r.cpuinfoMaxFreq
      systemMinCpufreq := r.cpuinfoMinFreq
      freqTable := table
      restoreOps := g.restoreOps ++ stagedRestore r
      policy := g.policy.write (.scalingGovernor "userspace")
      lastSetFreq := 0
      -- both modes start at the top
      curIdx := fun _ => table.length - 1
      optIdxSum := fun _ => 0
      stableNums := fun _ => 0
      nonOverflowNums := fun _ => 0
      totalExecs := fun _ => 0
      totalOverflowExecs := fun _ => 0
      freqInterval := if addrOnly then minFreqInterval else freqIntervalInit }

/-! ### What an operation leaves alone

The search writes neither the table nor the pinned frequency, and pinning
writes nothing of the search. -/

section Frame

variable (g : FreqGov) (mode : FreqMode)

@[simp] theorem setFreq_lastSetFreq (target : ℕ) : (setFreq g target).lastSetFreq = target := by
  unfold setFreq
  split
  · next h => exact h.symm
  · rfl

@[simp] theorem setFreq_freqTable (target : ℕ) : (setFreq g target).freqTable = g.freqTable := by
  unfold setFreq
  split <;> rfl

@[simp] theorem setFreq_curIdx (target : ℕ) : (setFreq g target).curIdx = g.curIdx := by
  unfold setFreq
  split <;> rfl

@[simp] theorem setFreq_enabled (target : ℕ) : (setFreq g target).enabled = g.enabled := by
  unfold setFreq
  split <;> rfl

@[simp] theorem setFreq_forceMinPending (target : ℕ) :
    (setFreq g target).forceMinPending = g.forceMinPending := by
  unfold setFreq
  split <;> rfl

@[simp] theorem adaptInterval_freqTable : (adaptInterval g).freqTable = g.freqTable := by
  unfold adaptInterval
  split <;> rfl

@[simp] theorem adaptInterval_curIdx : (adaptInterval g).curIdx = g.curIdx := by
  unfold adaptInterval
  split <;> rfl

@[simp] theorem adaptInterval_enabled : (adaptInterval g).enabled = g.enabled := by
  unfold adaptInterval
  split <;> rfl

@[simp] theorem adaptInterval_forceMinPending :
    (adaptInterval g).forceMinPending = g.forceMinPending := by
  unfold adaptInterval
  split <;> rfl

end Frame

end Governor
end CsTrace
