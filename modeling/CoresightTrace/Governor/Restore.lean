import CoresightTrace.Framework.Guarded
import CoresightTrace.Governor.Calls

/-!
# The policy is restored

`freq_gov_init()` stages the writes that put the policy back the way it found it,
and `freq_gov_restore_system()` replays them: at exit, in a signal handler, or in
the guard process once the proxy is dead. It may find any policy the proxy was
stopped at, between two writes of `set_freq()` or within an earlier, cut-off
restore.

Of all that the replay needs one fact only, that the upper bound is never below
the hardware's lower bound (`Floored`). The first write of the replay is then
accepted, and makes room for the others. Every write of the governor keeps it,
since all targets are within the hardware bounds (`Tabled.targets`).

The machine's steps are the governor's calls, a call cut off after any number of
its writes, and a restore cut off likewise. Once something was cut off the proxy
is dead, and what is left to happen are restores.
-/

namespace CsTrace
namespace Governor

/-! ### Restoring -/

/-- `freq_gov_restore_system()`. -/
def freqGovRestoreSystem (g : FreqGov) : FreqGov :=
  { g with
    policy := g.restoreOps.foldl CpuPolicy.write g.policy
    lastSetFreq := 0 }

/-- The kernel accepts the write. -/
def CpuPolicy.accepts (p : CpuPolicy) : SysfsWrite → Bool
  | .scalingMinFreq v => decide (v ≤ p.scalingMaxFreq)
  | .scalingMaxFreq v => decide (p.scalingMinFreq ≤ v)
  | .scalingSetspeed _ => decide (p.scalingGovernor = "userspace")
  | .scalingGovernor _ => true

/-- The kernel accepts all of the writes, one after the other. -/
def CpuPolicy.acceptsAll : CpuPolicy → List SysfsWrite → Bool
  | _, [] => true
  | p, w :: ws => p.accepts w && (p.write w).acceptsAll ws

/-- The state of a run: the governor, and whether the proxy is dead. -/
structure GovRun where
  gov : FreqGov
  dead : Bool

/-- A step of a run. -/
inductive GovLabel where
  | call (c : Call)
  /-- The proxy dies after `k` writes of the call. -/
  | cut (c : Call) (k : ℕ)
  /-- A restore that gets as far as `k` of its writes. -/
  | restore (k : ℕ)

/-- The governor with the writes made. -/
def FreqGov.write (g : FreqGov) (ws : List SysfsWrite) : FreqGov :=
  { g with policy := ws.foldl CpuPolicy.write g.policy }

/-- The runs over a policy, from the initialization with the reads `r`. The proxy
may die before the only write of the initialization. -/
def governorSystem (policy : CpuPolicy) (r : InitReads) (addrOnly : Bool) :
    Guarded GovRun GovLabel where
  init s :=
    s = ⟨freqGovInit (.static policy) r addrOnly, false⟩ ∨
      s = ⟨{ freqGovInit (.static policy) r addrOnly with policy := policy }, true⟩
  enabled s l :=
    match l with
    | .call _ | .cut _ _ => !s.dead
    | .restore _ => true
  effect s l :=
    match l with
    | .call c => { s with gov := c.run s.gov }
    | .cut c k => ⟨s.gov.write ((c.writes s.gov).take k), true⟩
    | .restore k => ⟨s.gov.write (s.gov.restoreOps.take k), true⟩

/-- `freq_gov_init()` has read the policy it found, one within the hardware
bounds. -/
structure Found (policy : CpuPolicy) (r : InitReads) : Prop where
  min : r.scalingMinFreq = policy.scalingMinFreq
  max : r.scalingMaxFreq = policy.scalingMaxFreq
  governor : r.scalingGovernor = policy.scalingGovernor
  named : policy.scalingGovernor ≠ ""
  setspeed : policy.scalingGovernor = "userspace" →
    r.scalingSetspeed = policy.scalingSetspeed ∧ policy.scalingSetspeed ≠ 0
  pos : 0 < r.cpuinfoMinFreq
  floor : r.cpuinfoMinFreq ≤ policy.scalingMinFreq
  ordered : policy.scalingMinFreq ≤ policy.scalingMaxFreq
  ceiling : policy.scalingMaxFreq ≤ r.cpuinfoMaxFreq

/-! ### The upper bound -/

/-- The upper bound of the policy is at least `lo`. -/
def Floored (lo : ℕ) (p : CpuPolicy) : Prop :=
  lo ≤ p.scalingMaxFreq

/-- The write asks for no upper bound below `lo`. -/
def SysfsWrite.Above (lo : ℕ) : SysfsWrite → Prop
  | .scalingMaxFreq v => lo ≤ v
  | _ => True

theorem Floored.write {lo : ℕ} {p : CpuPolicy} (h : Floored lo p) {w : SysfsWrite}
    (hw : w.Above lo) : Floored lo (p.write w) := by
  cases w with
  | scalingMaxFreq v =>
    unfold CpuPolicy.write
    dsimp only
    split
    · exact hw
    · exact h
  | scalingMinFreq v | scalingSetspeed v =>
    unfold CpuPolicy.write
    dsimp only
    split <;> exact h
  | scalingGovernor v => exact h

/-- What one write keeps, any number of them keeps. -/
theorem Floored.writes {lo : ℕ} {p : CpuPolicy} {ws : List SysfsWrite} (h : Floored lo p)
    (hws : ∀ w ∈ ws, w.Above lo) : Floored lo (ws.foldl CpuPolicy.write p) := by
  induction ws generalizing p with
  | nil => exact h
  | cons w ws ih =>
    refine ih (h.write (hws w List.mem_cons_self)) ?_
    intro w' hw'
    exact hws w' (List.mem_cons_of_mem w hw')

theorem pinWrites_above {lo last : ℕ} {ts : List ℕ} (h : ∀ f ∈ ts, lo ≤ f) :
    ∀ w ∈ pinWrites lo last ts, w.Above lo := by
  induction ts generalizing last with
  | nil =>
    intro w hw
    cases hw
  | cons f ts ih =>
    intro w hw
    rcases List.mem_append.mp hw with hw | hw
    · split at hw
      · cases hw
      · simp only [List.mem_cons, List.not_mem_nil, or_false] at hw
        rcases hw with rfl | rfl | rfl | rfl
        · trivial
        · exact h f List.mem_cons_self
        · trivial
        · trivial
    · exact ih (fun g hg => h g (List.mem_cons_of_mem f hg)) w hw

theorem stagedRestore_above {policy : CpuPolicy} {r : InitReads} (h : Found policy r) :
    ∀ w ∈ stagedRestore r, w.Above r.cpuinfoMinFreq := by
  intro w hw
  cases w with
  | scalingMaxFreq v =>
    have hv : v = r.scalingMaxFreq := by
      simp only [stagedRestore, List.mem_append] at hw
      split_ifs at hw <;> simp at hw <;> exact hw
    rw [hv, h.max]
    exact h.floor.trans h.ordered
  | _ => trivial

/-! ### The replay -/

/-- The writes that were staged: every read has succeeded. -/
theorem Found.stagedRestore_eq {policy : CpuPolicy} {r : InitReads} (h : Found policy r) :
    stagedRestore r =
      [.scalingMinFreq r.cpuinfoMinFreq, .scalingMaxFreq policy.scalingMaxFreq,
        .scalingMinFreq policy.scalingMinFreq, .scalingGovernor policy.scalingGovernor] ++
        (if policy.scalingGovernor = "userspace" then
          [.scalingSetspeed policy.scalingSetspeed] else []) := by
  have hpos := h.pos
  have hfloor := h.floor
  have hle := h.ordered
  unfold stagedRestore
  rw [h.min, h.max, h.governor, if_pos (by omega), if_pos (by omega), if_pos (by omega),
    if_pos h.named]
  by_cases hu : policy.scalingGovernor = "userspace"
  · obtain ⟨hspeed, hne⟩ := h.setspeed hu
    simp [hu, hspeed, hne]
  · simp [hu]

/-- **The replay is accepted and puts the policy back.** The first write lowers the
lower bound, so that any upper bound above it is accepted, and the lower bound
after that. -/
theorem Found.replay {policy p : CpuPolicy} {r : InitReads} (h : Found policy r)
    (hp : Floored r.cpuinfoMinFreq p) :
    p.acceptsAll (stagedRestore r) = true ∧
      (stagedRestore r).foldl CpuPolicy.write p =
        { policy with
          scalingSetspeed :=
            if policy.scalingGovernor = "userspace" then policy.scalingSetspeed
            else p.scalingSetspeed } := by
  have hmin : r.cpuinfoMinFreq ≤ p.scalingMaxFreq := hp
  have hmax : r.cpuinfoMinFreq ≤ policy.scalingMaxFreq := h.floor.trans h.ordered
  have hle := h.ordered
  rw [h.stagedRestore_eq]
  by_cases hu : policy.scalingGovernor = "userspace"
  · simp [hu, CpuPolicy.acceptsAll, CpuPolicy.accepts, CpuPolicy.write, hmin, hmax, hle]
  · simp [hu, CpuPolicy.acceptsAll, CpuPolicy.accepts, CpuPolicy.write, hmin, hmax, hle]

/-! ### Runs -/

/-- A restore from here puts the policy back. A governor that was switched off has
never written it. -/
structure Restorable (policy : CpuPolicy) (r : InitReads) (s : GovRun) : Prop where
  off : r.disabled = true →
    s.gov.enabled = false ∧ s.gov.restoreOps = [] ∧ s.gov.policy = policy
  on : r.disabled = false →
    Tabled s.gov ∧ s.gov.systemMinCpufreq = r.cpuinfoMinFreq ∧
      s.gov.restoreOps = stagedRestore r ∧ Floored r.cpuinfoMinFreq s.gov.policy

theorem Restorable.init {policy : CpuPolicy} {r : InitReads} {addrOnly : Bool} {s : GovRun}
    (h : Found policy r) (hs : (governorSystem policy r addrOnly).init s) :
    Restorable policy r s := by
  have hle : r.cpuinfoMinFreq ≤ r.cpuinfoMaxFreq := (h.floor.trans h.ordered).trans h.ceiling
  have hfloor : Floored r.cpuinfoMinFreq policy := h.floor.trans h.ordered
  have hinit (he : r.disabled = false) := Tabled.init (.static policy) addrOnly he hle
  constructor
  · intro hd
    rcases hs with rfl | rfl <;> simp [freqGovInit, hd, FreqGov.static]
  · intro he
    have htab := hinit he
    rcases hs with rfl | rfl
    · refine ⟨htab, ?_, ?_, ?_⟩ <;> simp only [freqGovInit, he]
      · rfl
      · rfl
      · -- the governor's name is all the initialization writes
        exact hfloor
    · refine ⟨⟨htab.bounds, htab.curIdx, htab.ordered⟩, ?_, ?_, hfloor⟩ <;>
        simp only [freqGovInit, he]
      · rfl
      · rfl

/-- Some writes of the governor's own. -/
theorem Restorable.write {policy : CpuPolicy} {r : InitReads} {s : GovRun}
    (h : Restorable policy r s) {ws : List SysfsWrite} (dead : Bool)
    (hoff : r.disabled = true → ws = [])
    (hon : r.disabled = false → ∀ w ∈ ws, w.Above r.cpuinfoMinFreq) :
    Restorable policy r ⟨s.gov.write ws, dead⟩ := by
  constructor
  · intro hd
    obtain ⟨he, hops, hpolicy⟩ := h.off hd
    rw [hoff hd]
    exact ⟨he, hops, hpolicy⟩
  · intro he
    obtain ⟨htab, hmin, hops, hfloor⟩ := h.on he
    exact ⟨⟨htab.bounds, htab.curIdx, htab.ordered⟩, hmin, hops, hfloor.writes (hon he)⟩

/-- A call's writes, when the governor is on, and that it has none otherwise. -/
theorem Restorable.call_writes {policy : CpuPolicy} {r : InitReads} {s : GovRun}
    (h : Restorable policy r s) (c : Call) :
    (r.disabled = true → c.writes s.gov = []) ∧
      (r.disabled = false → ∀ w ∈ c.writes s.gov, w.Above r.cpuinfoMinFreq) := by
  constructor
  · intro hd
    simp [Call.writes, Call.targets, (h.off hd).1, pinWrites]
  · intro he
    obtain ⟨htab, hmin, -, -⟩ := h.on he
    rw [← hmin]
    exact pinWrites_above fun f hf => (htab.targets hf).1

theorem Restorable.call {policy : CpuPolicy} {r : InitReads} {s : GovRun}
    (h : Restorable policy r s) (c : Call) : Restorable policy r { s with gov := c.run s.gov } := by
  have hfixed := c.fixed s.gov
  have hpolicy : (c.run s.gov).policy = (s.gov.write (c.writes s.gov)).policy :=
    (c.pins s.gov).policy
  -- the policy is the one the writes alone would leave
  have hw := h.write s.dead (h.call_writes c).1 (h.call_writes c).2
  constructor
  · intro hd
    obtain ⟨he, hops, -⟩ := h.off hd
    exact ⟨hfixed.enabled.trans he, hfixed.restoreOps.trans hops, hpolicy.trans (hw.off hd).2.2⟩
  · intro he
    obtain ⟨htab, hmin, hops, -⟩ := h.on he
    refine ⟨htab.run c, hfixed.min.trans hmin, hfixed.restoreOps.trans hops, ?_⟩
    change Floored _ (c.run s.gov).policy
    rw [hpolicy]
    exact (hw.on he).2.2.2

theorem Restorable.step {policy : CpuPolicy} {r : InitReads} {addrOnly : Bool} {s : GovRun}
    (hf : Found policy r) (h : Restorable policy r s) (l : GovLabel) :
    Restorable policy r ((governorSystem policy r addrOnly).effect s l) := by
  cases l with
  | call c => exact h.call c
  | cut c k =>
    obtain ⟨hoff, hon⟩ := h.call_writes c
    refine h.write true (fun hd => by rw [hoff hd, List.take_nil]) fun he w hw => ?_
    exact hon he w (List.mem_of_mem_take hw)
  | restore k =>
    refine h.write true (fun hd => by rw [(h.off hd).2.1, List.take_nil]) fun he w hw => ?_
    rw [(h.on he).2.2.1] at hw
    exact stagedRestore_above hf w (List.mem_of_mem_take hw)

/-- **The policy is always restored.** Wherever the governor's calls or earlier
restores were cut off, a complete `freq_gov_restore_system()` has no write
rejected, and leaves the bounds and the governor, and under `userspace` the speed,
as `freq_gov_init()` found them. -/
theorem restore_system_restores (policy : CpuPolicy) (r : InitReads) (addrOnly : Bool)
    (hf : Found policy r) (s : GovRun)
    (hs : (governorSystem policy r addrOnly).machine.Reachable s) :
    s.gov.policy.acceptsAll s.gov.restoreOps = true ∧
      (freqGovRestoreSystem s.gov).policy.scalingMinFreq = policy.scalingMinFreq ∧
      (freqGovRestoreSystem s.gov).policy.scalingMaxFreq = policy.scalingMaxFreq ∧
      (freqGovRestoreSystem s.gov).policy.scalingGovernor = policy.scalingGovernor ∧
      (policy.scalingGovernor = "userspace" →
        (freqGovRestoreSystem s.gov).policy.scalingSetspeed = policy.scalingSetspeed) := by
  have hinv : Restorable policy r s :=
    Guarded.invariant hs (fun s h => .init hf h) fun s l h _ => h.step hf l
  have hpolicy : (freqGovRestoreSystem s.gov).policy =
      s.gov.restoreOps.foldl CpuPolicy.write s.gov.policy := rfl
  rw [hpolicy]
  cases hd : r.disabled with
  | true =>
    -- a governor that is off has staged and written nothing
    obtain ⟨-, hops, hp⟩ := hinv.off hd
    rw [hops, hp]
    exact ⟨rfl, rfl, rfl, rfl, fun _ => rfl⟩
  | false =>
    -- wherever it was cut off, the upper bound is above the floor, where the replay starts
    obtain ⟨-, -, hops, hfloor⟩ := hinv.on hd
    obtain ⟨hacc, heq⟩ := hf.replay hfloor
    rw [hops, heq]
    exact ⟨hacc, rfl, rfl, rfl, fun hu => if_pos hu⟩

/-- A board of two frequencies, found under `ondemand`. -/
def twoRungReads : InitReads where
  disabled := false
  cpuinfoMaxFreq := 1200000
  cpuinfoMinFreq := 408000
  scalingAvailableFrequencies := [1200000, 408000]
  scalingGovernor := "ondemand"
  scalingMinFreq := 408000
  scalingMaxFreq := 1200000
  scalingSetspeed := 0

/-- The policy it is found with. -/
def ondemandPolicy : CpuPolicy :=
  ⟨408000, 1200000, 0, "ondemand"⟩

/-- The proxy dies with the policy pinned halfway to the floor, and a first restore
gets as far as its first write. -/
theorem restore_system_restores_halfway :
    let s := (governorSystem ondemandPolicy twoRungReads false).run
      ⟨freqGovInit (.static ondemandPolicy) twoRungReads false, false⟩
      [.call .forceMin, .cut (.apply .atom) 3, .restore 1]
    s.gov.policy.scalingMaxFreq = 408000 ∧
      (freqGovRestoreSystem s.gov).policy.scalingMaxFreq = 1200000 := by
  refine ⟨by decide, ?_⟩
  have hfound : Found ondemandPolicy twoRungReads := by
    refine ⟨rfl, rfl, rfl, ?_, ?_, ?_, ?_, ?_, ?_⟩ <;> decide
  exact (restore_system_restores _ _ _ hfound _
    (Guarded.reachable_of_applicable (.of_init (.inl rfl)) (by decide))).2.2.1

end Governor
end CsTrace
