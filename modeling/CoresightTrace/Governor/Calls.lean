import CoresightTrace.Governor.Retry

/-!
# The governor's calls

What the proxy does to the governor once it is initialized is a sequence of six
calls (`Call`). A call writes the policy through `set_freq()` only, so all it does
to the policy is given by the frequencies it passes there (`Call.targets`), and
the sysfs writes in their order follow from these (`pinWrites`,
`Call.policy_run`).

`Tabled` is the invariant of the search: the table holds frequencies within the
hardware bounds and the positions point into it. It makes every target one within
the bounds (`Tabled.targets`).

The callback of `freq_gov_calibrate()` is `calibration_run_one_shot()`, whose
outcome is an answer of the environment: it fails before it has lifted the
frequency again, or it makes the run.
-/

namespace CsTrace
namespace Governor

/-! ### Calibration -/

/-- `cur_idx[mode] = i`. -/
def FreqGov.setIdx (g : FreqGov) (mode : FreqMode) (i : ℕ) : FreqGov :=
  { g with curIdx := setMode g.curIdx mode i }

/-- What a call of `run_one_shot()` comes to. -/
inductive Shot where
  | failed
  | ran (overflowed : Bool)
deriving DecidableEq, Repr

/-- `calibration_run_one_shot()`: the governor after it, and whether the ramp is
over. -/
def runOneShot (g : FreqGov) : Shot → FreqGov × Bool
  | .failed => (g, true)
  | .ran overflowed => (freqGovRestoreMax g, overflowed)

/-- The loop of `freq_gov_calibrate()` from rung `i` on, over the rest of the table,
with the number of runs. -/
def rampLoop (mode : FreqMode) (shots : ℕ → Shot) : List ℕ → ℕ → FreqGov → FreqGov × ℕ
  | [], i, g => (g, i)
  | f :: rest, i, g =>
    let shot := runOneShot (setFreq g f) (shots i)
    if shot.2 then (shot.1, i + 1)
    else
      -- the highest rung that ran clean so far
      rampLoop mode shots rest (i + 1) (shot.1.setIdx mode i)

/-- `freq_gov_calibrate()`. -/
def freqGovCalibrate (g : FreqGov) (mode : FreqMode) (shots : ℕ → Shot) : FreqGov × ℕ :=
  if ¬ g.enabled then (g, 0)
  else rampLoop mode shots g.freqTable 0 (g.setIdx mode 0)

/-! ### Calls -/

/-- A call of the proxy after `freq_gov_init()`. -/
inductive Call where
  | calibrate (mode : FreqMode) (shots : ℕ → Shot)
  | apply (mode : FreqMode)
  | restoreMax
  | forceMin
  | onResult (mode : FreqMode) (overflowed : Bool)
  | copyStart (dst src : FreqMode)

/-- The governor after a call. -/
def Call.run (g : FreqGov) : Call → FreqGov
  | .calibrate mode shots => (freqGovCalibrate g mode shots).1
  | .apply mode => freqGovApply g mode
  | .restoreMax => freqGovRestoreMax g
  | .forceMin => freqGovForceMin g
  | .onResult mode overflowed => freqGovOnResult g mode overflowed
  | .copyStart dst src => freqGovCopyStart g dst src

/-- The frequencies a ramp passes to `set_freq()`. -/
def rampTargets (hi : ℕ) (shots : ℕ → Shot) : List ℕ → ℕ → List ℕ
  | [], _ => []
  | f :: rest, i =>
    match shots i with
    | .failed => [f]
    | .ran true => [f, hi]
    | .ran false => f :: hi :: rampTargets hi shots rest (i + 1)

/-- The frequencies a call passes to `set_freq()`, in order. -/
def Call.targets (g : FreqGov) (c : Call) : List ℕ :=
  if ¬ g.enabled then []
  else
    match c with
    | .calibrate _ shots => rampTargets g.systemMaxCpufreq shots g.freqTable 0
    | .apply mode => [if g.forceMinPending then g.freqAt 0 else g.freqAt (g.curIdx mode)]
    | .restoreMax => [g.systemMaxCpufreq]
    | .forceMin | .onResult _ _ | .copyStart _ _ => []

/-- The writes of `set_freq()` over a sequence of targets, the last frequency set
being `last`. -/
def pinWrites (lo : ℕ) : ℕ → List ℕ → List SysfsWrite
  | _, [] => []
  | last, f :: rest =>
    (if f = last then []
      else [.scalingMinFreq lo, .scalingMaxFreq f, .scalingMinFreq f, .scalingSetspeed f]) ++
      pinWrites lo f rest

/-- The writes of a call, in order. -/
def Call.writes (g : FreqGov) (c : Call) : List SysfsWrite :=
  pinWrites g.systemMinCpufreq g.lastSetFreq (c.targets g)

/-! ### What a call leaves alone -/

/-- The parts of the governor that only `freq_gov_init()` writes. -/
structure Fixed (g g' : FreqGov) : Prop where
  min : g'.systemMinCpufreq = g.systemMinCpufreq
  max : g'.systemMaxCpufreq = g.systemMaxCpufreq
  table : g'.freqTable = g.freqTable
  enabled : g'.enabled = g.enabled
  restoreOps : g'.restoreOps = g.restoreOps

theorem Fixed.refl (g : FreqGov) : Fixed g g :=
  ⟨rfl, rfl, rfl, rfl, rfl⟩

theorem Fixed.trans {g g' g'' : FreqGov} (h : Fixed g g') (h' : Fixed g' g'') : Fixed g g'' :=
  ⟨h'.min.trans h.min, h'.max.trans h.max, h'.table.trans h.table, h'.enabled.trans h.enabled,
    h'.restoreOps.trans h.restoreOps⟩

theorem setFreq_fixed (g : FreqGov) (target : ℕ) : Fixed g (setFreq g target) := by
  unfold setFreq
  split
  · exact .refl g
  · exact ⟨rfl, rfl, rfl, rfl, rfl⟩

theorem freqGovRestoreMax_fixed (g : FreqGov) : Fixed g (freqGovRestoreMax g) := by
  unfold freqGovRestoreMax
  split
  · exact .refl g
  · exact setFreq_fixed g _

theorem runOneShot_fixed (g : FreqGov) (shot : Shot) : Fixed g (runOneShot g shot).1 := by
  cases shot with
  | failed => exact .refl g
  | ran overflowed => exact freqGovRestoreMax_fixed g

/-- `g'` differs from `g` in the variables of the search only. -/
def Searched (g g' : FreqGov) : Prop :=
  g' = { g with
    curIdx := g'.curIdx
    optIdxSum := g'.optIdxSum
    stableNums := g'.stableNums
    nonOverflowNums := g'.nonOverflowNums
    totalExecs := g'.totalExecs
    totalOverflowExecs := g'.totalOverflowExecs
    freqInterval := g'.freqInterval }

theorem Searched.trans {g g' g'' : FreqGov} (h : Searched g g') (h' : Searched g' g'') :
    Searched g g'' := by
  unfold Searched at h h' ⊢
  calc g'' = _ := h'
    _ = _ := by rw [h]

theorem adaptInterval_searched (g : FreqGov) : Searched g (adaptInterval g) := by
  unfold adaptInterval
  split <;> rfl

theorem onClean_searched (g : FreqGov) (mode : FreqMode) : Searched g (onClean g mode) := by
  unfold onClean
  dsimp only
  split <;> rfl

/-- `freq_gov_on_result()` writes the variables of the search only. -/
theorem freqGovOnResult_searched (g : FreqGov) (mode : FreqMode) (o : Bool) :
    Searched g (freqGovOnResult g mode o) := by
  unfold freqGovOnResult
  split
  · rfl
  · have hcounted : Searched g
        { g with totalExecs := setMode g.totalExecs mode (g.totalExecs mode + 1) } := rfl
    refine hcounted.trans (.trans ?_ (adaptInterval_searched _))
    cases o with
    | true => rfl
    | false => exact onClean_searched _ mode

theorem freqGovOnResult_fixed (g : FreqGov) (mode : FreqMode) (o : Bool) :
    Fixed g (freqGovOnResult g mode o) := by
  rw [freqGovOnResult_searched g mode o]
  exact ⟨rfl, rfl, rfl, rfl, rfl⟩

theorem setIdx_fixed (g : FreqGov) (mode : FreqMode) (i : ℕ) : Fixed g (g.setIdx mode i) :=
  ⟨rfl, rfl, rfl, rfl, rfl⟩

theorem freqGovApply_fixed (g : FreqGov) (mode : FreqMode) : Fixed g (freqGovApply g mode) := by
  unfold freqGovApply
  split
  · exact .refl g
  · split
    · have hspent : Fixed g { g with forceMinPending := false } := ⟨rfl, rfl, rfl, rfl, rfl⟩
      exact hspent.trans (setFreq_fixed _ _)
    · exact setFreq_fixed g _

theorem rampLoop_fixed (mode : FreqMode) (shots : ℕ → Shot) (rest : List ℕ) (i : ℕ) (g : FreqGov) :
    Fixed g (rampLoop mode shots rest i g).1 := by
  induction rest generalizing i g with
  | nil => exact .refl g
  | cons f rest ih =>
    have hshot := (setFreq_fixed g f).trans (runOneShot_fixed (setFreq g f) (shots i))
    unfold rampLoop
    dsimp only
    split
    · exact hshot
    · exact (hshot.trans (setIdx_fixed _ mode i)).trans (ih _ _)

/-- **A call leaves alone what initialization has set.** -/
theorem Call.fixed (g : FreqGov) (c : Call) : Fixed g (c.run g) := by
  cases c with
  | calibrate mode shots =>
    change Fixed g (freqGovCalibrate g mode shots).1
    unfold freqGovCalibrate
    split
    · exact .refl g
    · exact (setIdx_fixed g mode 0).trans (rampLoop_fixed _ _ _ _ _)
  | apply mode => exact freqGovApply_fixed g mode
  | restoreMax => exact freqGovRestoreMax_fixed g
  | forceMin | copyStart => exact ⟨rfl, rfl, rfl, rfl, rfl⟩
  | onResult mode o => exact freqGovOnResult_fixed g mode o

/-! ### The table and the positions -/

/-- The table is within the hardware bounds, and the positions are in the table. -/
structure Tabled (g : FreqGov) : Prop where
  bounds : ∀ f ∈ g.freqTable, g.systemMinCpufreq ≤ f ∧ f ≤ g.systemMaxCpufreq
  curIdx : ∀ m, g.curIdx m < g.freqTable.length
  ordered : g.systemMinCpufreq ≤ g.systemMaxCpufreq

/-- A frequency within the hardware bounds. -/
def FreqGov.InBounds (g : FreqGov) (f : ℕ) : Prop :=
  g.systemMinCpufreq ≤ f ∧ f ≤ g.systemMaxCpufreq

theorem Tabled.freqAt {g : FreqGov} (h : Tabled g) {i : ℕ} (hi : i < g.freqTable.length) :
    g.InBounds (g.freqAt i) := by
  refine h.bounds _ ?_
  unfold FreqGov.freqAt
  rw [List.getD_eq_getElem?_getD, List.getElem?_eq_getElem hi, Option.getD_some]
  exact List.getElem_mem hi

theorem Tabled.inBounds_curIdx {g : FreqGov} (h : Tabled g) (mode : FreqMode) :
    g.InBounds (g.freqAt (g.curIdx mode)) :=
  h.freqAt (h.curIdx mode)

/-- The floor is in the table. -/
theorem Tabled.inBounds_zero {g : FreqGov} (h : Tabled g) : g.InBounds (g.freqAt 0) :=
  h.freqAt (Nat.zero_lt_of_lt (h.curIdx .addr))

theorem Tabled.of_fixed {g g' : FreqGov} (h : Tabled g) (hf : Fixed g g')
    (hidx : ∀ m, g'.curIdx m < g.freqTable.length) : Tabled g' := by
  refine ⟨?_, ?_, ?_⟩
  · rw [hf.table, hf.min, hf.max]
    exact h.bounds
  · rw [hf.table]
    exact hidx
  · rw [hf.min, hf.max]
    exact h.ordered

/-- A position is moved to a rung of the table. -/
theorem setMode_lt {f : FreqMode → ℕ} {n : ℕ} (h : ∀ m, f m < n) (mode : FreqMode) {v : ℕ}
    (hv : v < n) (m : FreqMode) : setMode f mode v m < n := by
  unfold setMode
  split
  · exact hv
  · exact h m

theorem freqGovOnResult_curIdx_lt {g : FreqGov} {mode : FreqMode} (o : Bool)
    (h : ∀ m, g.curIdx m < g.freqTable.length) (m : FreqMode) :
    (freqGovOnResult g mode o).curIdx m < g.freqTable.length := by
  have hdown : g.curIdx mode - 1 < g.freqTable.length := lt_of_le_of_lt (Nat.sub_le _ _) (h mode)
  unfold freqGovOnResult
  split
  · exact h m
  · rw [adaptInterval_curIdx]
    cases o with
    | true =>
      simp only [if_true, onOverflow]
      split
      · exact setMode_lt h mode hdown m
      · exact h m
    | false =>
      simp only [Bool.false_eq_true, if_false, onClean]
      split
      · dsimp only
        -- one rung up, unless it is the top
        split
        · next hup => exact setMode_lt h mode hup m
        · exact h m
      · exact h m

theorem Tabled.setFreq {g : FreqGov} (h : Tabled g) (target : ℕ) :
    Tabled (Governor.setFreq g target) :=
  h.of_fixed (setFreq_fixed g target) (by rw [setFreq_curIdx]; exact h.curIdx)

theorem Tabled.restoreMax {g : FreqGov} (h : Tabled g) : Tabled (freqGovRestoreMax g) := by
  unfold freqGovRestoreMax
  split
  · exact h
  · exact h.setFreq _

theorem Tabled.setIdx {g : FreqGov} (h : Tabled g) (mode : FreqMode) {i : ℕ}
    (hi : i < g.freqTable.length) : Tabled (g.setIdx mode i) :=
  h.of_fixed (setIdx_fixed g mode i) (setMode_lt h.curIdx mode hi)

theorem Tabled.onResult {g : FreqGov} (h : Tabled g) (mode : FreqMode) (o : Bool) :
    Tabled (freqGovOnResult g mode o) :=
  h.of_fixed (freqGovOnResult_fixed g mode o) (freqGovOnResult_curIdx_lt o h.curIdx)

theorem Tabled.apply {g : FreqGov} (h : Tabled g) (mode : FreqMode) :
    Tabled (freqGovApply g mode) := by
  unfold freqGovApply
  split
  · exact h
  · split
    · have hspent : Tabled { g with forceMinPending := false } := ⟨h.bounds, h.curIdx, h.ordered⟩
      exact hspent.setFreq _
    · exact h.setFreq _

theorem Tabled.copyStart {g : FreqGov} (h : Tabled g) (dst src : FreqMode) :
    Tabled (freqGovCopyStart g dst src) :=
  h.setIdx dst (h.curIdx src)

theorem Tabled.forceMin {g : FreqGov} (h : Tabled g) : Tabled (freqGovForceMin g) :=
  ⟨h.bounds, h.curIdx, h.ordered⟩

theorem Tabled.runOneShot {g : FreqGov} (h : Tabled g) (shot : Shot) :
    Tabled (Governor.runOneShot g shot).1 := by
  cases shot with
  | failed => exact h
  | ran o => exact h.restoreMax

theorem Tabled.rampLoop {mode : FreqMode} {shots : ℕ → Shot} {rest : List ℕ} {i : ℕ} {g : FreqGov}
    (h : Tabled g) (hi : i + rest.length = g.freqTable.length) :
    Tabled (Governor.rampLoop mode shots rest i g).1 := by
  induction rest generalizing i g with
  | nil => exact h
  | cons f rest ih =>
    have hshot := (h.setFreq f).runOneShot (shots i)
    have hfixed := (setFreq_fixed g f).trans (runOneShot_fixed (Governor.setFreq g f) (shots i))
    rw [List.length_cons] at hi
    unfold Governor.rampLoop
    dsimp only
    split
    · exact hshot
    · -- rung `i` is in the table, since the loop has reached it
      refine ih (hshot.setIdx mode ?_) ?_
      · rw [hfixed.table]
        omega
      · change i + 1 + rest.length = (Governor.runOneShot _ _).1.freqTable.length
        rw [hfixed.table]
        omega

/-- **The table and the positions stay in order.** -/
theorem Tabled.run {g : FreqGov} (h : Tabled g) (c : Call) : Tabled (c.run g) := by
  cases c with
  | calibrate mode shots =>
    change Tabled (freqGovCalibrate g mode shots).1
    unfold freqGovCalibrate
    split
    · exact h
    · exact (h.setIdx mode (Nat.zero_lt_of_lt (h.curIdx mode))).rampLoop (Nat.zero_add _)
  | apply mode => exact h.apply mode
  | restoreMax => exact h.restoreMax
  | forceMin => exact h.forceMin
  | onResult mode o => exact h.onResult mode o
  | copyStart dst src => exact h.copyStart dst src

/-! ### The policy -/

/-- The writes change the policy and nothing else does. -/
theorem setFreq_policy (g : FreqGov) (target : ℕ) :
    (setFreq g target).policy =
      (pinWrites g.systemMinCpufreq g.lastSetFreq [target]).foldl CpuPolicy.write g.policy := by
  unfold setFreq
  split
  · next h => simp [pinWrites, h]
  · next h => simp [pinWrites, h, FreqGov.setFreqWrites]

/-- The writes over two sequences of targets. -/
theorem pinWrites_append (lo last : ℕ) (ts ts' : List ℕ) :
    pinWrites lo last (ts ++ ts') =
      pinWrites lo last ts ++ pinWrites lo ((last :: ts).getLast (List.cons_ne_nil _ _)) ts' := by
  induction ts generalizing last with
  | nil => rfl
  | cons f ts ih =>
    rw [List.cons_append, pinWrites, ih, pinWrites, List.append_assoc,
      List.getLast_cons (List.cons_ne_nil f ts)]

/-- `g'` is `g` after `set_freq()` of the targets, as far as the policy goes. -/
structure Pins (g g' : FreqGov) (targets : List ℕ) : Prop where
  min : g'.systemMinCpufreq = g.systemMinCpufreq
  last : g'.lastSetFreq = (g.lastSetFreq :: targets).getLast (List.cons_ne_nil _ _)
  policy : g'.policy =
    (pinWrites g.systemMinCpufreq g.lastSetFreq targets).foldl CpuPolicy.write g.policy

/-- A step that leaves the policy alone. -/
theorem Pins.none {g g' : FreqGov} (hmin : g'.systemMinCpufreq = g.systemMinCpufreq)
    (hlast : g'.lastSetFreq = g.lastSetFreq) (hpolicy : g'.policy = g.policy) : Pins g g' [] :=
  ⟨hmin, hlast, hpolicy⟩

theorem Pins.trans {g g' g'' : FreqGov} {ts ts' : List ℕ} (h : Pins g g' ts)
    (h' : Pins g' g'' ts') : Pins g g'' (ts ++ ts') := by
  refine ⟨h'.min.trans h.min, ?_, ?_⟩
  · rw [h'.last, h.last]
    cases ts' with
    | nil => simp
    | cons f ts' => simp [List.getLast_cons]
  · rw [h'.policy, h.policy, h.min, h.last, pinWrites_append, List.foldl_append]

theorem Pins.setFreq (g : FreqGov) (target : ℕ) : Pins g (Governor.setFreq g target) [target] :=
  ⟨(setFreq_fixed g target).min, setFreq_lastSetFreq g target, setFreq_policy g target⟩

theorem Pins.restoreMax {g : FreqGov} (he : g.enabled = true) :
    Pins g (freqGovRestoreMax g) [g.systemMaxCpufreq] := by
  rw [freqGovRestoreMax_eq he]
  exact .setFreq g _

theorem Pins.rampLoop (mode : FreqMode) (shots : ℕ → Shot) (rest : List ℕ) (i : ℕ) {g : FreqGov}
    (he : g.enabled = true) :
    Pins g (Governor.rampLoop mode shots rest i g).1
      (rampTargets g.systemMaxCpufreq shots rest i) := by
  induction rest generalizing i g with
  | nil => exact .none rfl rfl rfl
  | cons f rest ih =>
    have hf := setFreq_fixed g f
    have hrung := Pins.setFreq g f
    unfold Governor.rampLoop rampTargets
    cases hshot : shots i with
    | failed => exact hrung
    | ran o =>
      -- the run lifts the frequency again before its outcome is looked at
      have hlift := hrung.trans (.restoreMax (hf.enabled.trans he))
      rw [hf.max] at hlift
      cases o with
      | true => exact hlift
      | false =>
        have hfixed := hf.trans (freqGovRestoreMax_fixed (Governor.setFreq g f))
        have hrest := ih (i + 1) (g := (freqGovRestoreMax (Governor.setFreq g f)).setIdx mode i)
          (hfixed.enabled.trans he)
        change Pins _ _ (rampTargets (freqGovRestoreMax _).systemMaxCpufreq _ _ _) at hrest
        rw [hfixed.max] at hrest
        have hkeep : Pins (freqGovRestoreMax (Governor.setFreq g f))
            ((freqGovRestoreMax (Governor.setFreq g f)).setIdx mode i) [] := .none rfl rfl rfl
        exact (hlift.trans hkeep).trans hrest

/-- **A call does to the policy what its targets do.** -/
theorem Call.pins (g : FreqGov) (c : Call) : Pins g (c.run g) (c.targets g) := by
  unfold Call.targets
  cases he : g.enabled with
  | false =>
    cases c with
    | calibrate | apply | restoreMax | onResult =>
      simp only [Call.run, freqGovCalibrate, freqGovApply, freqGovRestoreMax, freqGovOnResult, he]
      exact .none rfl rfl rfl
    | forceMin | copyStart => exact .none rfl rfl rfl
  | true =>
    rw [if_neg (by simp)]
    cases c with
    | calibrate mode shots =>
      have hreset : Pins g (g.setIdx mode 0) [] := .none rfl rfl rfl
      have hramp := hreset.trans (.rampLoop mode shots g.freqTable 0 he)
      rw [Call.run, freqGovCalibrate, if_neg (by simp [he])]
      exact hramp
    | apply mode =>
      rw [Call.run, freqGovApply, if_neg (by simp [he])]
      dsimp only
      split
      · -- the request that is spent is no part of the policy
        have hspent : Pins g { g with forceMinPending := false } [] := .none rfl rfl rfl
        exact hspent.trans (.setFreq _ _)
      · exact .setFreq g _
    | restoreMax => exact .restoreMax he
    | onResult mode o =>
      change Pins g (freqGovOnResult g mode o) []
      rw [freqGovOnResult_searched g mode o]
      exact .none rfl rfl rfl
    | forceMin | copyStart => exact .none rfl rfl rfl

/-! ### Targets -/

theorem rampTargets_mem {hi i f : ℕ} {shots : ℕ → Shot} {rest : List ℕ}
    (h : f ∈ rampTargets hi shots rest i) : f ∈ rest ∨ f = hi := by
  induction rest generalizing i with
  | nil => cases h
  | cons r rest ih =>
    unfold rampTargets at h
    split at h
    · rw [List.mem_singleton.mp h]
      exact .inl List.mem_cons_self
    · simp only [List.mem_cons, List.not_mem_nil, or_false] at h
      exact h.imp_left fun hr => by simp [hr]
    · simp only [List.mem_cons] at h
      rcases h with rfl | rfl | h
      · exact .inl List.mem_cons_self
      · exact .inr rfl
      · exact (ih h).imp_left (List.mem_cons_of_mem r)

/-- **Every target is within the hardware bounds.** -/
theorem Tabled.targets {g : FreqGov} (h : Tabled g) {c : Call} {f : ℕ} (hf : f ∈ c.targets g) :
    g.InBounds f := by
  have hmax : g.InBounds g.systemMaxCpufreq := ⟨h.ordered, le_rfl⟩
  unfold Call.targets at hf
  split at hf
  · cases hf
  · cases c with
    | calibrate mode shots =>
      rcases rampTargets_mem hf with hf | rfl
      · exact h.bounds f hf
      · exact hmax
    | apply mode =>
      rw [List.mem_singleton.mp hf]
      split
      · exact h.inBounds_zero
      · exact h.inBounds_curIdx mode
    | restoreMax =>
      rw [List.mem_singleton.mp hf]
      exact hmax
    | forceMin | onResult | copyStart => cases hf

/-! ### Initialization -/

theorem readAvailableFrequencies_bounds {lo hi f : ℕ} {listed : List ℕ} (hle : lo ≤ hi)
    (hf : f ∈ readAvailableFrequencies lo hi listed) : lo ≤ f ∧ f ≤ hi := by
  unfold readAvailableFrequencies at hf
  rw [List.mem_insertionSort] at hf
  split at hf
  · -- no table: the bounds themselves
    rcases List.mem_pair.mp hf with rfl | rfl
    · exact ⟨le_rfl, hle⟩
    · exact ⟨hle, le_rfl⟩
  · simpa using (List.mem_filter.mp (List.mem_of_mem_take hf)).2

theorem readAvailableFrequencies_length_pos (lo hi : ℕ) (listed : List ℕ) :
    0 < (readAvailableFrequencies lo hi listed).length := by
  unfold readAvailableFrequencies
  rw [List.length_insertionSort]
  split
  · exact Nat.two_pos
  · next h => exact List.length_pos_of_ne_nil h

/-- Initialization makes a table and starts both modes at its top. -/
theorem Tabled.init (g : FreqGov) {r : InitReads} (addrOnly : Bool) (he : r.disabled = false)
    (hle : r.cpuinfoMinFreq ≤ r.cpuinfoMaxFreq) : Tabled (freqGovInit g r addrOnly) := by
  unfold freqGovInit
  rw [he]
  refine ⟨fun f hf => readAvailableFrequencies_bounds hle hf, fun _ => ?_, hle⟩
  exact Nat.sub_lt (readAvailableFrequencies_length_pos _ _ _) Nat.one_pos

end Governor
end CsTrace
