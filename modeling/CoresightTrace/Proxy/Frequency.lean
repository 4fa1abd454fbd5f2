import CoresightTrace.Governor.Pinned
import CoresightTrace.Proxy.Faults
import CoresightTrace.Proxy.InStep

/-!
# The frequency a child runs at

Between the moment a frequency is chosen for a child and its `SIGCONT` lie the fork
of the child, the start of the trace and the report to AFL++, and between two
children the maximum is restored, or not if a calibration run has failed. What is
meant is in `FSys.intended`: the rung's own frequency in a ramp, the floor for the
forced attempt, and the position of the mode otherwise. `Tuned` carries it from
where the frequency is set to the `SIGCONT`, in every run of the machine with
faults, and `child_runs_as_intended` is the result.

The request for the forced run is a flag that `freq_gov_force_min()` sets and the
next `freq_gov_apply()` clears. It is set from the decision to make the forced
attempt to the start of that attempt, and at no other time
(`Tuned.pending`).

A governor whose `freq_gov_init()` was not reached, because `init_trace()` has
failed, has no frequencies and writes none; nothing is claimed about children that
run then.
-/

namespace CsTrace
namespace CsProxy

open Governor

variable {cfg : Config} {s : FSys} {l : FLabel} {p : Proxy} {forced : Bool}

/-! ### What is meant -/

/-- The frequency a child of a governor is meant to run at. -/
def aim (cfg : Config) (g : FreqGov) (forced : Bool) : Task → ℕ
  | .calibrate _ rung _ => g.freqAt rung
  | .attempt first =>
    -- the forced attempt is never the first
    if first = false ∧ forced = true then g.freqAt 0
    else g.freqAt (g.curIdx cfg.currentFreqMode)
  | .confirm | .sample => g.freqAt (g.curIdx .addr)

/-- The frequency the next child is meant to run at. -/
def FSys.intended (cfg : Config) (s : FSys) (t : Task) : ℕ :=
  aim cfg s.sys.proxy.gov s.forced t

/-- The rung of a calibration run. -/
def Task.rung : Task → Option ℕ
  | .calibrate _ i _ => some i
  | _ => none

/-- A child of a ramp is forked, run or waited for. -/
def Pc.rung : Pc → Option ℕ
  | .fork t | .forked t | .start t | .cont t | .wait t | .finish t => t.rung
  | _ => none

/-- The proxy is on its way from the decision on another attempt to its start. -/
def Pc.relaunches : Pc → Bool
  | .fork t | .forked t | .start t => t == .attempt false
  | _ => false

/-- The run conditions: the governor is enabled and reads sensible hardware
bounds. -/
def Governed (s : FSys) : FLabel → Bool
  | .inl (.handed r _) =>
    !s.sys.proxy.firstRun || (!r.disabled && decide (0 < r.cpuinfoMinFreq) &&
      decide (r.cpuinfoMinFreq ≤ r.cpuinfoMaxFreq))
  | _ => true

/-! ### The invariant -/

/-- What the frequency set last is, where it matters: a rung has set its own before
its child is forked. -/
def Pinned (cfg : Config) (g : FreqGov) (forced : Bool) : Pc → Prop
  | .fork t | .forked t | .start t => ∀ i, t.rung = some i → g.lastSetFreq = g.freqAt i
  | .report => g.lastSetFreq = aim cfg g forced (.attempt true)
  | .cont t => g.lastSetFreq = aim cfg g forced t
  | _ => True

/-- The governor once it is initialized. -/
structure Tuned (cfg : Config) (p : Proxy) (forced : Bool) : Prop where
  steered : Steered p.gov
  rung : ∀ i, p.pc.rung = some i → i < p.gov.freqTable.length
  pinned : Pinned cfg p.gov forced p.pc
  /-- The forced run is pending from its decision to its start. -/
  pending : p.gov.forceMinPending = (forced && p.pc.relaunches)

/-- The governor in either case. -/
structure Regulated (cfg : Config) (p : Proxy) (forced : Bool) : Prop where
  before : p.firstRun = true → Unset p.gov ∧ p.pc.rung = none
  after : p.firstRun = false → Tuned cfg p forced

/-! ### The control between two calls -/

/-- The proxy between two calls, once the governor is initialized. -/
structure Calm (p : Proxy) : Prop where
  initialized : p.firstRun = false
  steered : Steered p.gov
  noForce : p.gov.forceMinPending = false

/-- A place at which nothing is promised. -/
theorem Calm.at_pc (h : Calm p) (hrung : p.pc.rung = none) (hpin : Pinned cfg p.gov forced p.pc)
    (hpc : p.pc.relaunches = false) : Regulated cfg p forced := by
  constructor
  · intro hfirst
    exact absurd hfirst (by simp [h.initialized])
  · intro _
    refine ⟨h.steered, ?_, hpin, ?_⟩
    · intro i hi
      simp [hrung] at hi
    · simp [h.noForce, hpc]

theorem Calm.launch (h : Calm p) : Regulated cfg p.launch forced := by
  have hcalm : Calm p.launch := ⟨h.initialized, h.steered, h.noForce⟩
  unfold Proxy.launch at hcalm ⊢
  split
  · next hd =>
    rw [if_pos hd] at hcalm
    exact hcalm.at_pc rfl (by rintro _ ⟨⟩) rfl
  · next hd =>
    rw [if_neg hd] at hcalm
    exact hcalm.at_pc rfl (by rintro _ ⟨⟩) rfl

theorem Calm.setIdx (h : Calm p) (mode : FreqMode) {i : ℕ} (hi : i < p.gov.freqTable.length) :
    Calm (p.setIdx mode i) :=
  ⟨h.initialized, h.steered.setIdx mode hi, h.noForce⟩

/-- A rung sets its frequency. -/
theorem Calm.rungOr (h : Calm p) (mode : FreqMode) (again : Bool) (i : ℕ) {ended : Proxy}
    (hended : Regulated cfg ended forced) :
    Regulated cfg (p.rungOr mode again i ended) forced := by
  unfold Proxy.rungOr
  split
  · next hi =>
    have hsteered := h.steered.setFreq (h.steered.tabled.freqAt hi)
    constructor
    · intro hfirst
      exact absurd hfirst (by simp [h.initialized])
    · intro _
      -- the child that was handed over is used, or one is forked
      cases hchild : p.haveChild with
      | true =>
        refine ⟨hsteered, ?_, ?_, ?_⟩
        · rintro _ ⟨⟩
          simpa using hi
        · rintro _ ⟨⟩
          simp [FreqGov.freqAt]
        · simp [h.noForce, Pc.relaunches]
      | false =>
        refine ⟨hsteered, ?_, ?_, ?_⟩
        · rintro _ ⟨⟩
          simpa using hi
        · rintro _ ⟨⟩
          simp [FreqGov.freqAt]
        · simp [h.noForce, Pc.relaunches]
  · exact hended

theorem Calm.ramp (h : Calm p) (mode : FreqMode) (again : Bool) {ended : Proxy → Proxy}
    (hended : ∀ q, Calm q → Regulated cfg (ended q) forced) :
    Regulated cfg (p.ramp mode again ended) forced := by
  unfold Proxy.ramp
  rw [if_neg (by simp [h.steered.enabled])]
  have hzero := h.setIdx mode (Nat.zero_lt_of_lt (h.steered.tabled.curIdx mode))
  exact hzero.rungOr mode again 0 (hended _ hzero)

theorem Calm.bbEnable (h : Calm p) : Regulated cfg (p.bbEnable cfg) forced := by
  unfold Proxy.bbEnable
  split
  · split
    · have hcalm : Calm { p with needsBbEnable := false, haveChild := false } :=
        ⟨h.initialized, h.steered, h.noForce⟩
      exact hcalm.ramp _ true fun q hq => hq.launch
    · have hcalm : Calm { p with needsBbEnable := false } :=
        ⟨h.initialized, h.steered, h.noForce⟩
      exact hcalm.launch
  · exact h.launch

theorem Calm.endFirstRamp (h : Calm p) (runs : ℕ) :
    Regulated cfg (p.endFirstRamp cfg runs) forced := by
  refine Calm.bbEnable ⟨h.initialized, ?_, ?_⟩ <;> dsimp only <;> split
  · exact h.steered.copyStart .atom .addr
  · exact h.steered
  · exact h.noForce
  · exact h.noForce

theorem Calm.endRamp (h : Calm p) (again : Bool) (runs : ℕ) :
    Regulated cfg (p.endRamp cfg again runs) forced := by
  unfold Proxy.endRamp
  split
  · exact h.launch
  · exact h.endFirstRamp runs

theorem Calm.restoreMax (h : Calm p) : Calm { p with gov := freqGovRestoreMax p.gov } := by
  refine ⟨h.initialized, h.steered.restoreMax, ?_⟩
  change (freqGovRestoreMax p.gov).forceMinPending = false
  rw [freqGovRestoreMax_eq h.steered.enabled, setFreq_forceMinPending]
  exact h.noForce

theorem Calm.endRung (h : Calm p) (mode : FreqMode) {i : ℕ} (again overflowed : Bool)
    (hi : i < p.gov.freqTable.length) :
    Regulated cfg (p.endRung cfg mode i again overflowed) forced := by
  have hmax := h.restoreMax
  have hlen : i < (freqGovRestoreMax p.gov).freqTable.length := by
    rw [(freqGovRestoreMax_fixed p.gov).table]
    exact hi
  have hidx := hmax.setIdx mode hlen
  unfold Proxy.endRung
  dsimp only
  split
  · exact hmax.endRamp again (i + 1)
  · exact hidx.rungOr mode again (i + 1) (hidx.endRamp again (i + 1))

/-! ### Steps -/

/-- A step that leaves the governor alone and goes to a place that promises no more. -/
theorem Regulated.move (h : Regulated cfg p forced) {q : Proxy} (hgov : q.gov = p.gov)
    (hfirst : q.firstRun = p.firstRun) (hrung : ∀ i, q.pc.rung = some i → p.pc.rung = some i)
    (hpin : Pinned cfg p.gov forced p.pc → Pinned cfg p.gov forced q.pc)
    (hpc : q.pc.relaunches = p.pc.relaunches) : Regulated cfg q forced := by
  constructor
  · rw [hfirst, hgov]
    intro hf
    obtain ⟨hunset, hnone⟩ := h.before hf
    refine ⟨hunset, ?_⟩
    cases hr : q.pc.rung with
    | none => rfl
    | some i => simp [hrung i hr] at hnone
  · rw [hfirst]
    intro hf
    have ht := h.after hf
    refine ⟨?_, ?_, ?_, ?_⟩ <;> rw [hgov]
    · exact ht.steered
    · intro i hi
      exact ht.rung i (hrung i hi)
    · exact hpin ht.pinned
    · rw [hpc]
      exact ht.pending

/-- Away from a forced attempt's launch no forced run is pending. -/
theorem Regulated.calm (h : Regulated cfg p forced) (hf : p.firstRun = false)
    (hpc : p.pc.relaunches = false) : Calm p := by
  have ht := h.after hf
  refine ⟨hf, ht.steered, ?_⟩
  rw [ht.pending, hpc, Bool.and_false]

theorem Regulated.handed (h : Regulated cfg p forced) (hpc : p.pc = .handed) {r : InitReads}
    (hr : p.firstRun = true →
      r.disabled = false ∧ 0 < r.cpuinfoMinFreq ∧ r.cpuinfoMinFreq ≤ r.cpuinfoMaxFreq)
    (pid : Raw) : Regulated cfg (p.handed cfg r pid) false := by
  -- the governor is initialized here if it was not before
  have hcalm : Calm (({ p with
      childPid := pid
      didCalibrate := false
      curRepetitionNum := 0
      forcedMinDone := false } : Proxy).initOnce cfg r) := by
    unfold Proxy.initOnce
    dsimp only
    cases hf : p.firstRun with
    | true =>
      obtain ⟨hd, hpos, hle⟩ := hr hf
      obtain ⟨hsteered, hno⟩ := (h.before hf).1.init (decide (cfg.covType = .edge)) hd hpos hle
      exact ⟨rfl, hsteered, hno⟩
    | false =>
      have hc := h.calm hf (by rw [hpc]; rfl)
      exact ⟨rfl, hc.steered, hc.noForce⟩
  unfold Proxy.handed
  dsimp only
  split
  · refine Calm.ramp ?_ _ false fun q hq => hq.endFirstRamp 0
    exact ⟨hcalm.initialized, hcalm.steered, hcalm.noForce⟩
  · exact hcalm.bbEnable

/-- A child of a mode: the frequency is applied, and the forced run spent. -/
theorem Tuned.apply (h : Tuned cfg p forced) {q : Proxy} (mode : FreqMode)
    (hgov : q.gov = freqGovApply p.gov mode) (hrung : q.pc.rung = none)
    (hpc : q.pc.relaunches = false)
    (hpin : q.gov.lastSetFreq =
        (if p.gov.forceMinPending then q.gov.freqAt 0 else q.gov.freqAt (q.gov.curIdx mode)) →
      Pinned cfg q.gov forced q.pc) : Tuned cfg q forced := by
  obtain ⟨hsteered, hlast, hno, htable, hidx⟩ := h.steered.apply mode
  refine ⟨hgov ▸ hsteered, ?_, hpin ?_, ?_⟩
  · intro i hi
    simp [hrung] at hi
  · rw [hgov, hlast, hidx]
    simp [FreqGov.wanted, FreqGov.freqAt, htable]
  · rw [hgov, hno, hpc, Bool.and_false]

/-- **The frequency is applied as the child's trace is started.** -/
theorem Regulated.start (h : Regulated cfg p forced) {t : Task} (hpc : p.pc = .start t) :
    Regulated cfg (p.start cfg t) forced := by
  constructor
  · intro hf
    obtain ⟨hunset, hnone⟩ := h.before hf
    rw [hpc] at hnone
    cases t with
    | calibrate => cases hnone
    | attempt first =>
      refine ⟨?_, by cases first <;> rfl⟩
      change Unset (freqGovApply p.gov _)
      rw [hunset.apply]
      exact hunset
    | confirm | sample =>
      refine ⟨?_, rfl⟩
      change Unset (freqGovApply p.gov .addr)
      rw [hunset.apply]
      exact hunset
  · intro hf
    have ht := h.after hf
    have hpend := ht.pending
    rw [hpc] at hpend
    cases t with
    | calibrate mode i again =>
      have hpin := ht.pinned
      rw [hpc] at hpin
      exact ⟨ht.steered, fun j hj => ht.rung j (by rw [hpc]; exact hj), hpin i rfl, hpend⟩
    | attempt first =>
      cases first with
      | true =>
        refine ht.apply cfg.currentFreqMode rfl rfl rfl ?_
        rw [hpend]
        simp [Pc.relaunches, Proxy.start, Pinned, aim]
      | false =>
        -- the request is pending exactly if this attempt is the forced one
        refine ht.apply cfg.currentFreqMode rfl rfl rfl ?_
        rw [hpend]
        simp [Pc.relaunches, Proxy.start, Pinned, aim]
    | confirm | sample =>
      refine ht.apply .addr rfl rfl rfl ?_
      rw [hpend]
      simp [Pc.relaunches, Proxy.start, Pinned, aim]

/-- The outcome of an attempt: a forced run is pending if it was asked for. -/
theorem endAttempt_steered {g : FreqGov} (h : Steered g) (hno : g.forceMinPending = false)
    (mode : FreqMode) (rep : ℕ) (done o : Bool) :
    Steered (endAttempt g mode rep done o).1 ∧
      (endAttempt g mode rep done o).1.forceMinPending =
        ((endAttempt g mode rep done o).2 == .forceMin) := by
  have hmax : (freqGovRestoreMax g).forceMinPending = false := by
    rw [freqGovRestoreMax_eq h.enabled, setFreq_forceMinPending]
    exact hno
  have hon := h.restoreMax.onResult mode o
  have hnone := (freqGovOnResult_frame (freqGovRestoreMax g) mode o).2.2.trans hmax
  unfold endAttempt
  dsimp only
  split
  · exact ⟨hon, hnone⟩
  · split
    · exact ⟨hon.forceMin, rfl⟩
    · exact ⟨hon, hnone⟩

/-- The outcome decides whether the next attempt is the forced one. -/
theorem Regulated.finish_attempt (h : Regulated cfg p forced) {first o : Bool}
    (hpc : p.pc = .finish (.attempt first)) :
    Regulated cfg (p.finish cfg (.attempt first) o)
      ((endAttempt p.gov cfg.currentFreqMode p.curRepetitionNum p.forcedMinDone
        (cfg.decodingOn && o)).2 == .forceMin) := by
  -- where the retry loop goes
  have hnext (q : Proxy) (next : Next) :
      (q.afterAttempt cfg next).gov = q.gov ∧ (q.afterAttempt cfg next).firstRun = q.firstRun ∧
        (q.afterAttempt cfg next).pc.rung = none ∧
        (∀ b, Pinned cfg q.gov b (q.afterAttempt cfg next).pc) ∧
        (next ≠ .done → (q.afterAttempt cfg next).pc.relaunches = true) := by
    cases next with
    | done =>
      rcases afterAttempt_done cfg q with hq | hq <;> rw [hq] <;>
        exact ⟨rfl, rfl, rfl, fun _ => trivial, fun hd => absurd rfl hd⟩
    | retry | forceMin => exact ⟨rfl, rfl, rfl, fun _ => by rintro _ ⟨⟩, fun _ => rfl⟩
  unfold Proxy.finish
  dsimp only
  obtain ⟨hgov, hfirst, hrung, hpin, hre⟩ := hnext
    { (({ p with status := p.waitStatus } : Proxy).count (cfg.decodingOn && o)) with
      gov := (endAttempt p.gov cfg.currentFreqMode p.curRepetitionNum p.forcedMinDone
        (cfg.decodingOn && o)).1 }
    (endAttempt p.gov cfg.currentFreqMode p.curRepetitionNum p.forcedMinDone
      (cfg.decodingOn && o)).2
  constructor
  · intro hf
    have hunset := (h.before (hfirst.symm.trans hf)).1
    refine ⟨?_, hrung⟩
    rw [hgov]
    exact (hunset.endAttempt _ _ _ _).2
  · intro hf
    have hcalm := h.calm (hfirst.symm.trans hf) (by rw [hpc]; rfl)
    obtain ⟨hsteered, hpend⟩ := endAttempt_steered hcalm.steered hcalm.noForce
      cfg.currentFreqMode p.curRepetitionNum p.forcedMinDone (cfg.decodingOn && o)
    refine ⟨?_, ?_, ?_, ?_⟩
    · rw [hgov]
      exact hsteered
    · intro i hi
      simp [hrung] at hi
    · rw [hgov]
      exact hpin _
    · rw [hgov, hpend]
      cases hn : (endAttempt p.gov cfg.currentFreqMode p.curRepetitionNum p.forcedMinDone
          (cfg.decodingOn && o)).2 with
      | forceMin => rw [hn] at hre; simp [hre]
      | done | retry => rfl

/-- A ramp is made by an initialized governor. -/
theorem Regulated.calm_of_rung (h : Regulated cfg p forced) {i : ℕ} (hi : p.pc.rung = some i) :
    Calm p ∧ i < p.gov.freqTable.length := by
  have hf : p.firstRun = false := by
    by_contra hf
    simp [(h.before (by simpa using hf)).2] at hi
  refine ⟨h.calm hf ?_, (h.after hf).rung i hi⟩
  cases hpc : p.pc with
  | fork t | forked t | start t =>
    rw [hpc] at hi
    cases t with
    | calibrate => rfl
    | _ => cases hi
  | _ => rfl

theorem Regulated.finish (h : Regulated cfg s.sys.proxy s.forced) {t : Task} {o : Bool}
    (hpc : s.sys.proxy.pc = .finish t) :
    Regulated cfg (s.sys.proxy.finish cfg t o) (s.forces cfg t o) := by
  cases t with
  | calibrate mode i again =>
    obtain ⟨hcalm, hi⟩ := h.calm_of_rung (i := i) (by rw [hpc]; rfl)
    exact hcalm.endRung mode again _ hi
  | attempt first => exact h.finish_attempt hpc
  | confirm | sample =>
    constructor
    · intro hf
      have hunset := (h.before hf).1
      refine ⟨?_, rfl⟩
      change Unset (freqGovOnResult (freqGovRestoreMax s.sys.proxy.gov) .addr o)
      rw [hunset.restoreMax]
      exact hunset.onResult .addr o
    · intro hf
      have hcalm := (h.calm hf (by rw [hpc]; rfl)).restoreMax
      have hno := (freqGovOnResult_frame (freqGovRestoreMax s.sys.proxy.gov) .addr o).2.2
      refine ⟨hcalm.steered.onResult .addr o, nofun, trivial, ?_⟩
      change (freqGovOnResult (freqGovRestoreMax s.sys.proxy.gov) .addr o).forceMinPending = _
      rw [hno, hcalm.noForce]
      exact (Bool.and_false _).symm

/-! ### Faults -/

/-- The proxy stops, or waits for a child it was not given. -/
theorem Regulated.returned (h : Regulated cfg s.sys.proxy s.forced) (ret : Raw)
    (hpc : s.sys.proxy.pc.relaunches = false) :
    Regulated cfg (s.returned ret).sys.proxy (s.returned ret).forced := by
  unfold FSys.returned
  split
  · exact h.move (q := s.sys.proxy.enterLoop) rfl rfl (by rintro _ ⟨⟩) (fun _ => trivial) hpc.symm
  · exact h

/-- A rung is left with its frequency set. -/
theorem Regulated.abandon (h : Regulated cfg p forced) {i : ℕ} {again : Bool}
    (hrung : p.pc.rung = some i) : Regulated cfg (p.endRamp cfg again (i + 1)) forced :=
  (h.calm_of_rung hrung).1.endRamp again (i + 1)

theorem Regulated.failStart (h : Regulated cfg s.sys.proxy s.forced) {t : Task}
    (hpc : s.sys.proxy.pc = .fork t ∨ s.sys.proxy.pc = .forked t ∨ s.sys.proxy.pc = .cont t) :
    Regulated cfg (s.failStart cfg t).sys.proxy (s.failStart cfg t).forced := by
  cases t with
  | calibrate mode i again =>
    refine h.abandon ?_
    rcases hpc with hpc | hpc | hpc <;> rw [hpc] <;> rfl
  | attempt first =>
    cases first with
    | true => exact h.returned _ (by rcases hpc with hpc | hpc | hpc <;> rw [hpc] <;> rfl)
    | false => exact h
  | confirm | sample => exact h

theorem Regulated.failRun (h : Regulated cfg s.sys.proxy s.forced) {t : Task}
    (hpc : s.sys.proxy.pc = .wait t ∨ s.sys.proxy.pc = .finish t) :
    Regulated cfg (s.failRun cfg t).sys.proxy (s.failRun cfg t).forced := by
  cases t with
  | calibrate mode i again =>
    refine h.abandon ?_
    rcases hpc with hpc | hpc <;> rw [hpc] <;> rfl
  | attempt | confirm | sample => exact h

theorem Regulated.fault (h : Regulated cfg s.sys.proxy s.forced) {f : Fault}
    (hen : s.enabled (.inr f) = true) :
    Regulated cfg (s.effect cfg (.inr f)).sys.proxy (s.effect cfg (.inr f)).forced := by
  cases f with
  | readRequest | forward | handed | report =>
    exact h.returned _ (by rw [FSys.pc_of_fault hen rfl]; rfl)
  | initTrace w =>
    have hpc : s.sys.proxy.pc = .handed := FSys.pc_of_fault hen rfl
    refine Regulated.returned
      (s := (s.take w).setProxy { s.sys.proxy with childPid := w.val }) ?_ _ ?_
    · exact h.move rfl rfl (fun _ hi => hi) id rfl
    · change s.sys.proxy.pc.relaunches = false
      rw [hpc]
      rfl
  | fork t => exact h.failStart (.inl (FSys.pc_of_fault hen rfl))
  | forked t => exact h.failStart (.inr (.inl (FSys.pc_of_fault hen rfl)))
  | cont t => exact h.failStart (.inr (.inr (FSys.pc_of_fault hen rfl)))
  | readStatus t => exact h.failRun (.inl (FSys.pc_of_fault hen rfl))
  | finish t => exact h.failRun (.inr (FSys.pc_of_fault hen rfl))
  | endTestcase | abort | early => exact h

/-- A child that runs needs no frequency set any more. -/
theorem Regulated.wait (h : Regulated cfg p forced) {t : Task} (hpc : p.pc = .cont t) :
    Regulated cfg (p.goto (.wait t)) forced := by
  refine h.move rfl rfl ?_ ?_ ?_ <;> rw [hpc]
  · exact fun _ hi => hi
  · exact fun _ => trivial
  · rfl

/-- The verdict leads to a further run of the test case or to its end, with nothing set
and no rung under way. -/
theorem Regulated.verdict (h : Regulated cfg p forced) (hpc : p.pc = .verdict) (confirm : Bool) :
    Regulated cfg (p.verdict cfg confirm) forced := by
  have hkeep : (p.verdict cfg confirm).gov = p.gov ∧
      (p.verdict cfg confirm).firstRun = p.firstRun := by
    unfold Proxy.verdict
    split_ifs <;> exact ⟨rfl, rfl⟩
  have hfree : (p.verdict cfg confirm).pc.rung = none ∧
      Pinned cfg p.gov forced (p.verdict cfg confirm).pc ∧
      (p.verdict cfg confirm).pc.relaunches = false := by
    rcases verdict_spec cfg p confirm with hnext | hnext | hnext <;> rw [hnext]
    · exact ⟨rfl, by rintro _ ⟨⟩, rfl⟩
    · exact ⟨rfl, by rintro _ ⟨⟩, rfl⟩
    · exact ⟨rfl, trivial, rfl⟩
  refine h.move (q := p.verdict cfg confirm) hkeep.1 hkeep.2 ?_ ?_ ?_
  · intro i hi
    simp [hfree.1] at hi
  · exact fun _ => hfree.2.1
  · rw [hfree.2.2, hpc]
    rfl

/-! ### Runs -/

/-- Every step of the parties keeps what the next child needs. -/
theorem Regulated.proceed (h : Regulated cfg s.sys.proxy s.forced) {l : Label}
    (hen : s.enabled (.inl l) = true) (hc : Governed s (.inl l) = true) :
    Regulated cfg (s.proceed cfg l).sys.proxy (s.proceed cfg l).forced := by
  -- most steps leave the governor alone; `move` asks what the place they lead to needs
  cases l with
  | readRequest w =>
    have hpc : s.sys.proxy.pc = .request := FSys.pc_of_enabled hen rfl
    exact h.move (q := { s.sys.proxy with pc := .forward, wasKilled := w }) rfl rfl
      (by rintro _ ⟨⟩) (fun _ => trivial) (by rw [hpc]; rfl)
  | forward =>
    have hpc : s.sys.proxy.pc = .forward := FSys.pc_of_enabled hen rfl
    exact h.move (q := s.sys.proxy.goto .handed) rfl rfl (by rintro _ ⟨⟩) (fun _ => trivial)
      (by rw [hpc]; rfl)
  | handed r w =>
    have hpc : s.sys.proxy.pc = .handed := FSys.pc_of_enabled hen rfl
    refine h.handed hpc ?_ w.val
    intro hf
    simpa [Governed, hf, and_assoc] using hc
  | fork t =>
    have hpc : s.sys.proxy.pc = .fork t := FSys.pc_of_enabled hen rfl
    refine h.move (q := s.sys.proxy.goto (.forked t)) rfl rfl ?_ ?_ ?_ <;> rw [hpc]
    · exact fun _ hi => hi
    · exact id
    · rfl
  | forked t w =>
    have hpc : s.sys.proxy.pc = .forked t := FSys.pc_of_enabled hen rfl
    unfold FSys.proceed
    dsimp only
    -- a negative word is a failed fork, any other the pid of the new child
    split
    · exact Regulated.failStart (s := s.take w) h (.inr (.inl hpc))
    · refine h.move (q := { s.sys.proxy with pc := .start t, childPid := w.val }) rfl rfl
        ?_ ?_ ?_ <;> rw [hpc]
      · exact fun _ hi => hi
      · exact id
      · rfl
  | start t => exact h.start (FSys.pc_of_enabled hen rfl)
  | report =>
    have hpc : s.sys.proxy.pc = .report := FSys.pc_of_enabled hen rfl
    refine h.move (q := s.sys.proxy.goto (.cont (.attempt true))) rfl rfl (by rintro _ ⟨⟩) ?_ ?_ <;>
      rw [hpc]
    · exact id
    · rfl
  | cont t =>
    have hpc : s.sys.proxy.pc = .cont t := FSys.pc_of_enabled hen rfl
    have hwait : Regulated cfg (s.sys.proxy.goto (.wait t)) s.forced := h.wait hpc
    cases t with
    | attempt first =>
      cases first with
      | true =>
        unfold FSys.proceed
        dsimp only
        split <;> exact hwait
      | false => exact hwait
    | _ => exact hwait
  | readStatus t w =>
    have hpc : s.sys.proxy.pc = .wait t := FSys.pc_of_enabled hen rfl
    cases hstop : sigstopped w.val with
    | true =>
      refine h.move rfl rfl ?_ ?_ ?_ <;> simp only [FSys.proceed, CsProxy.effect, hstop, hpc]
      · exact fun _ hi => hi
      · exact id
      · rfl
    | false =>
      refine h.move rfl rfl ?_ ?_ ?_ <;> simp only [FSys.proceed, CsProxy.effect, hstop, hpc]
      · exact fun _ hi => hi
      · exact fun _ => trivial
      · rfl
  | finish t o => exact h.finish (FSys.pc_of_enabled hen rfl)
  | verdict confirm => exact h.verdict (FSys.pc_of_enabled hen rfl) confirm
  | endTestcase =>
    have hpc : s.sys.proxy.pc = .endTestcase := FSys.pc_of_enabled hen rfl
    exact h.move (q := s.sys.proxy.endTestcase cfg) rfl rfl (by rintro _ ⟨⟩) (fun _ => trivial)
      (by rw [hpc]; rfl)
  | ask | fsFork | fsWritePid | relay => exact h

/-- **What a run keeps.** -/
theorem Regulated.of_run {policy : CpuPolicy} {ls : List FLabel}
    (hpolicy : policy.scalingMinFreq ≤ policy.scalingMaxFreq)
    (hrun : ((faultSystem cfg).restrict Governed).machine.Run (.initial cfg policy) ls s) :
    Regulated cfg s.sys.proxy s.forced := by
  refine hrun.invariant (I := fun s => Regulated cfg s.sys.proxy s.forced) ?_ ?_
  · rintro s l _ h ⟨hen, rfl⟩
    obtain ⟨hg, hc⟩ := Bool.and_eq_true_iff.mp hen
    rcases l with l | f
    · exact h.proceed hg hc
    · exact h.fault hg
  · exact ⟨fun _ => ⟨.static hpolicy, rfl⟩, nofun⟩

/-- **Every child runs at the frequency meant for it.** In every run of the proxy
with the governor enabled, once it is initialized:

1. when a child is sent `SIGCONT`, both bounds and the speed of the policy are the
   frequency of the rung in a ramp, the floor in a forced attempt, and the frequency
   of the mode's position otherwise;
2. a forced run is pending exactly from the decision on the forced attempt to the
   start of this attempt. -/
theorem child_runs_as_intended (cfg : Config) (policy : CpuPolicy)
    (hpolicy : policy.scalingMinFreq ≤ policy.scalingMaxFreq) (ls : List FLabel) (s : FSys)
    (hrun : ((faultSystem cfg).restrict Governed).machine.Run (.initial cfg policy) ls s)
    (hinit : s.sys.proxy.firstRun = false) :
    (∀ t, s.sys.proxy.pc = .cont t →
      s.sys.proxy.gov.policy.PinnedAt (s.intended cfg t)) ∧
      s.sys.proxy.gov.forceMinPending = (s.forced && s.sys.proxy.pc.relaunches) := by
  have ht := (Regulated.of_run hpolicy hrun).after hinit
  refine ⟨?_, ht.pending⟩
  intro t hpc
  have hpin := ht.pinned
  rw [hpc] at hpin
  refine ht.steered.mirrors.pinnedAt hpin ?_
  -- what is meant is a frequency of the table
  have htab := ht.steered.tabled
  have hfirst : 0 < s.sys.proxy.gov.freqTable.length := Nat.zero_lt_of_lt (htab.curIdx .addr)
  cases t with
  | calibrate mode i again => exact ht.steered.freqAt_pos (ht.rung i (by rw [hpc]; rfl))
  | attempt first =>
    simp only [FSys.intended, aim]
    split
    · exact ht.steered.freqAt_pos hfirst
    · exact ht.steered.freqAt_pos (htab.curIdx _)
  | confirm | sample => exact ht.steered.freqAt_pos (htab.curIdx .addr)

/-- A first attempt, up to its `SIGCONT`. -/
def untilCont : List FLabel :=
  [.inl (.ask 0), .inl (.readRequest 0), .inl .forward, .inl (.fsFork 10), .inl .fsWritePid,
    .inl (.handed ⟨false, 1200, 600, [1200, 600], "schedutil", 600, 1200, 0⟩ ⟨10, true, 1⟩),
    .inl (.start (.attempt true)), .inl .report]

/-- Its child runs at the top of the table. -/
theorem child_runs_as_intended_first :
    let s := (faultSystem plainConfig).run (.initial plainConfig ⟨600, 1200, 0, "schedutil"⟩)
      untilCont
    s.intended plainConfig (.attempt true) = 1200 ∧
      s.sys.proxy.gov.policy.PinnedAt (s.intended plainConfig (.attempt true)) := by
  intro s
  have hrun : ((faultSystem plainConfig).restrict Governed).machine.Run
      (.initial plainConfig ⟨600, 1200, 0, "schedutil"⟩) untilCont s :=
    Guarded.run_of_applicable (G := (faultSystem plainConfig).restrict Governed)
      (by decide +kernel)
  have hpinned := (child_runs_as_intended plainConfig _ (by decide) untilCont s hrun
    (by decide +kernel)).1
  exact ⟨by decide +kernel, hpinned (.attempt true) (by decide +kernel)⟩

end CsProxy
end CsTrace
