import CoresightTrace.Governor.Retry

/-!
# The control of the proxy

`cs-proxy.c` turns one request of AFL++ into a sequence of child runs: on the
first request the calibration ramps, then the attempts of the retry loop, then
for a hybrid test case possibly a confirm or a sample run. This file is the
control of the Stalker build between two calls on its pipes: where the proxy
goes next, given what it has read and how the decode of a run came out.

A child run is the same five calls each time, for one of four purposes
(`Task`). What comes after it depends on the purpose, and is a function of the
proxy's state (`Proxy.finish`).

The outcomes of the decoder and the verdicts of the hybrid filter are answers of
the environment. Every call succeeds: `init_trace()`, `stop_trace()`,
`trace_set_bb_mode()` and the allocation of the sample's map; the result of
`start_trace()` is ignored by the source. Branch broadcast and the map itself
decide nothing here and are left out, and so is the build option `EXEC_COUNT`.
-/

namespace CsTrace
namespace CsProxy

open Governor

/-! ### Values -/

/-- A four-byte word of the pipes. -/
abbrev Raw := BitVec 32

/-- `WIFSTOPPED(status) && WSTOPSIG(status) == SIGSTOP`. -/
def sigstopped (status : Raw) : Bool :=
  status &&& 0xff#32 == 0x7f#32 && (status &&& 0xff00#32) >>> 8 == 19#32

/-- `WIFSIGNALED(status)`. -/
def wifsignaled (status : Raw) : Bool :=
  status &&& 0x7f#32 != 0#32 && status &&& 0x7f#32 != 0x7f#32

/-- `cov_type_t`. -/
inductive CovType where
  | edge
  | path
  | hybrid
deriving DecidableEq, Repr

/-- What the environment variables of the proxy set. -/
structure Config where
  /-- `AFLCS_COV`. -/
  covType : CovType
  /-- `AFLCS_NO_DECODER` is unset. -/
  decodingOn : Bool
  /-- `AFLCS_FREQ_CALIBRATE` is not 0. -/
  calibrate : Bool
  /-- `AFLCS_HYBRID_SAMPLE`. -/
  hybridSample : ℕ
  /-- `AFLCS_STATS_FILE` is set. -/
  statsFile : Bool

/-- `current_freq_mode()`. -/
def Config.currentFreqMode (c : Config) : FreqMode :=
  if c.covType = .edge then .addr else .atom

/-- `STATS_PERIOD`. -/
def statsPeriod : ℕ := 256

/-- Why a child is run. -/
inductive Task where
  /-- A rung of a calibration ramp; `again` is edge mode's second ramp. -/
  | calibrate (mode : FreqMode) (rung : ℕ) (again : Bool)
  /-- An attempt of the retry loop; the first one is reported to AFL++. -/
  | attempt (first : Bool)
  /-- `confirm_with_branch_broadcast()`. -/
  | confirm
  /-- `sample_with_branch_broadcast()`. -/
  | sample
deriving DecidableEq, Repr

/-- Where the proxy is. -/
inductive Pc where
  /-- The read of a request. -/
  | request
  /-- The write that hands the request on to the forkserver. -/
  | forward
  /-- The read of the child's pid that answers it. -/
  | handed
  /-- `fork_fresh_child()`: the write of the token. -/
  | fork (t : Task)
  /-- `fork_fresh_child()`: the read of the pid. -/
  | forked (t : Task)
  /-- The frequency is applied and the trace started. -/
  | start (t : Task)
  /-- The write of the pid to AFL++. -/
  | report
  /-- `kill(child_pid, SIGCONT)`. -/
  | cont (t : Task)
  /-- `wait_for_child_and_stop_trace()`: the read of a status. -/
  | wait (t : Task)
  /-- The trace is stopped and its outcome taken. -/
  | finish (t : Task)
  /-- `hybrid_after_path()`. -/
  | verdict
  /-- The write of the status to AFL++. -/
  | endTestcase
deriving DecidableEq, Repr

/-- The proxy's variables. -/
structure Proxy where
  pc : Pc
  gov : FreqGov
  firstRun : Bool
  needsCalibration : Bool
  needsBbEnable : Bool
  didCalibrate : Bool
  /-- `calib_ctx.have_child`. -/
  haveChild : Bool
  wasKilled : Raw
  childPid : Raw
  /-- The status `wait_for_child_and_stop_trace()` has read. -/
  waitStatus : Raw
  /-- The status `main()` reports. -/
  status : Raw
  curRepetitionNum : ℕ
  forcedMinDone : Bool
  hybridDiscards : ℕ
  totalExecCount : ℕ
  overflowExecCount : ℕ
  /-- `total_exec_count` at the last `write_stats()`. -/
  lastStats : Option ℕ

/-- The proxy before its first request. -/
def Proxy.initial (cfg : Config) (policy : CpuPolicy) : Proxy where
  pc := .request
  gov := .static policy
  firstRun := true
  needsCalibration := cfg.calibrate
  needsBbEnable := true
  didCalibrate := false
  haveChild := false
  wasKilled := 0
  childPid := 0
  waitStatus := 0
  status := 0
  curRepetitionNum := 0
  forcedMinDone := false
  hybridDiscards := 0
  totalExecCount := 0
  overflowExecCount := 0
  lastStats := none

/-! ### The start of a test case -/

/-- The end of `__afl_next_testcase()`: the ramps consumed the child that was
handed over, and a replacement is asked for, or it is still there. -/
def Proxy.launch (p : Proxy) : Proxy :=
  { p with pc := if p.didCalibrate then .fork (.attempt true) else .start (.attempt true) }

/-- The head of `freq_gov_calibrate()`'s loop at rung `i`, and `ended` past the
last rung. `calibration_run_one_shot()` uses the child that was handed over, or
forks one. -/
def Proxy.rungOr (p : Proxy) (mode : FreqMode) (again : Bool) (i : ℕ) (ended : Proxy) : Proxy :=
  if i < p.gov.freqTable.length then
    { p with
      gov := setFreq p.gov (p.gov.freqAt i)
      haveChild := false
      pc := if p.haveChild then .start (.calibrate mode i again)
        else .fork (.calibrate mode i again) }
  else ended

/-- `cur_idx[mode]` set by the calibration. -/
def Proxy.setIdx (p : Proxy) (mode : FreqMode) (i : ℕ) : Proxy :=
  { p with gov := { p.gov with curIdx := setMode p.gov.curIdx mode i } }

/-- `freq_gov_calibrate()` up to its first run, and `ended` if it makes none. -/
def Proxy.ramp (p : Proxy) (mode : FreqMode) (again : Bool) (ended : Proxy → Proxy) : Proxy :=
  if ¬ p.gov.enabled then ended p
  else (p.setIdx mode 0).rungOr mode again 0 (ended (p.setIdx mode 0))

/-- Branch broadcast is switched on once in edge mode, before the first test
case, and the ramp repeated with it on if there was one. -/
def Proxy.bbEnable (cfg : Config) (p : Proxy) : Proxy :=
  if p.needsBbEnable ∧ cfg.covType = .edge then
    if p.didCalibrate then
      ({ p with needsBbEnable := false, haveChild := false } : Proxy).ramp cfg.currentFreqMode true
        Proxy.launch
    else ({ p with needsBbEnable := false } : Proxy).launch
  else p.launch

/-- The first ramp is over after `runs` runs. Hybrid starts the path pass where
the addr pass settled. -/
def Proxy.endFirstRamp (cfg : Config) (runs : ℕ) (p : Proxy) : Proxy :=
  ({ p with
    didCalibrate := decide (0 < runs)
    gov := if cfg.covType = .hybrid then freqGovCopyStart p.gov .atom .addr else p.gov } :
      Proxy).bbEnable cfg

/-- The mode of the first ramp: hybrid calibrates the addr pass. -/
def Config.rampMode (cfg : Config) : FreqMode :=
  if cfg.covType = .hybrid then .addr else cfg.currentFreqMode

/-- The governor is initialized on the first request. -/
def Proxy.initOnce (cfg : Config) (p : Proxy) (r : InitReads) : Proxy :=
  { p with
    firstRun := false
    gov := if p.firstRun then freqGovInit p.gov r (decide (cfg.covType = .edge)) else p.gov }

/-- `__afl_next_testcase()` from the read of the pid on. The first ramp runs over
the child that was handed over. -/
def Proxy.handed (cfg : Config) (p : Proxy) (r : InitReads) (pid : Raw) : Proxy :=
  let p := ({ p with
    childPid := pid
    didCalibrate := false
    curRepetitionNum := 0
    forcedMinDone := false } : Proxy).initOnce cfg r
  if p.needsCalibration then
    ({ p with needsCalibration := false, haveChild := true } : Proxy).ramp cfg.rampMode false
      (Proxy.endFirstRamp cfg 0)
  else p.bbEnable cfg

/-- The frequency is applied, except on a rung, which has set its own. -/
def Proxy.start (cfg : Config) (p : Proxy) (t : Task) : Proxy :=
  { p with
    gov := match t with
      | .calibrate _ _ _ => p.gov
      | .attempt _ => freqGovApply p.gov cfg.currentFreqMode
      | .confirm | .sample => freqGovApply p.gov .addr
    pc := if t = .attempt true then .report else .cont t }

/-! ### The end of a child run -/

/-- An execution is counted. -/
def Proxy.count (p : Proxy) (overflowed : Bool) : Proxy :=
  { p with
    totalExecCount := p.totalExecCount + 1
    overflowExecCount := if overflowed then p.overflowExecCount + 1 else p.overflowExecCount }

/-- The end of a ramp after `runs` runs. -/
def Proxy.endRamp (cfg : Config) (again : Bool) (runs : ℕ) (p : Proxy) : Proxy :=
  if again then p.launch else p.endFirstRamp cfg runs

/-- The end of rung `i`. -/
def Proxy.endRung (cfg : Config) (p : Proxy) (mode : FreqMode) (i : ℕ) (again overflowed : Bool) :
    Proxy :=
  let p := { p with gov := freqGovRestoreMax p.gov }
  if overflowed then p.endRamp cfg again (i + 1)
  else (p.setIdx mode i).rungOr mode again (i + 1) ((p.setIdx mode i).endRamp cfg again (i + 1))

/-- Where the retry loop goes after an attempt. A crash or a timeout keeps its
path map. -/
def Proxy.afterAttempt (cfg : Config) (p : Proxy) : Next → Proxy
  | .retry =>
    { p with curRepetitionNum := p.curRepetitionNum + 1, pc := .fork (.attempt false) }
  | .forceMin => { p with forcedMinDone := true, pc := .fork (.attempt false) }
  | .done =>
    { p with
      pc := if cfg.covType = .hybrid ∧ cfg.decodingOn ∧ ¬ wifsignaled p.status then .verdict
        else .endTestcase }

/-- What comes after a child run whose decode did or did not overflow. -/
def Proxy.finish (cfg : Config) (p : Proxy) (t : Task) (didOverflow : Bool) : Proxy :=
  match t with
  | .calibrate mode i again => p.endRung cfg mode i again (cfg.decodingOn && didOverflow)
  | .attempt _ =>
    let overflowed := cfg.decodingOn && didOverflow
    let after := endAttempt p.gov cfg.currentFreqMode p.curRepetitionNum p.forcedMinDone overflowed
    let p := ({ p with status := p.waitStatus } : Proxy).count overflowed
    ({ p with gov := after.1 } : Proxy).afterAttempt cfg after.2
  | .confirm | .sample =>
    let p := p.count didOverflow
    { p with
      gov := freqGovOnResult (freqGovRestoreMax p.gov) .addr didOverflow
      pc := .endTestcase }

/-- After `hybrid_after_path()`: a new path is confirmed, and every
`hybrid_sample`-th discarded input sampled. -/
def Proxy.verdict (cfg : Config) (p : Proxy) (confirm : Bool) : Proxy :=
  if confirm then { p with pc := .fork .confirm }
  else if cfg.hybridSample ≠ 0 then
    { p with
      hybridDiscards := p.hybridDiscards + 1
      pc := if (p.hybridDiscards + 1) % cfg.hybridSample = 0 then .fork .sample
        else .endTestcase }
  else { p with pc := .endTestcase }

/-- The end of a test case, with the statistics written every `statsPeriod`
executions. -/
def Proxy.endTestcase (cfg : Config) (p : Proxy) : Proxy :=
  { p with
    pc := .request
    lastStats :=
      if cfg.statsFile ∧ p.totalExecCount % statsPeriod = 0 then some p.totalExecCount
      else p.lastStats }

/-! ### Where the control goes

The ramps are the only part that may or may not use up the child that was handed
over. Whichever way they go, the child of the first attempt is then a live one:
the one handed over if no rung ran, a fresh one otherwise. -/

/-- A rung is at work: the ramp forks its own children from now on, and a second
ramp is one that follows a first. -/
def Proxy.Ramping (p : Proxy) (again : Bool) : Prop :=
  p.haveChild = false ∧ (again = true → p.didCalibrate = true)

/-- A bound on the child runs of the test case that come after one. -/
def Proxy.runsLeft (p : Proxy) : Task → ℕ
  | .calibrate _ i again =>
    (p.gov.freqTable.length - 1 - i) + (if again then 0 else p.gov.freqTable.length) +
      (maxRepetitionNum + 3)
  | .attempt _ =>
    (maxRepetitionNum - p.curRepetitionNum) + (if p.forcedMinDone then 0 else 1) + 1
  | .confirm | .sample => 0

/-- The proxy asks for a child, for the first attempt or for a rung after which at
most `n` runs are left. -/
def Proxy.Refork (p : Proxy) (n : ℕ) : Prop :=
  p.pc = .fork (.attempt true) ∨
    ∃ mode i again, p.pc = .fork (.calibrate mode i again) ∧ p.Ramping again ∧
      p.runsLeft (.calibrate mode i again) ≤ n

theorem launch_of_didCalibrate {p : Proxy} (n : ℕ) (h : p.didCalibrate = true) :
    p.launch.Refork n := by
  refine .inl ?_
  simp [Proxy.launch, h]

theorem bbEnable_of_not_didCalibrate (cfg : Config) {p : Proxy} (h : p.didCalibrate = false) :
    (p.bbEnable cfg).pc = .start (.attempt true) ∧ (p.bbEnable cfg).childPid = p.childPid := by
  unfold Proxy.bbEnable
  rw [h]
  split <;> simp [Proxy.launch, h]

theorem afterAttempt_done (cfg : Config) (p : Proxy) :
    (p.afterAttempt cfg .done).pc = .verdict ∨ (p.afterAttempt cfg .done).pc = .endTestcase := by
  unfold Proxy.afterAttempt
  dsimp only
  split
  · exact .inl rfl
  · exact .inr rfl

/-- A rung that forks its child. -/
theorem rungOr_refork {p ended : Proxy} (mode : FreqMode) {again : Bool} {i n : ℕ}
    (h : p.Ramping again)
    (hn : i < p.gov.freqTable.length → p.runsLeft (.calibrate mode i again) ≤ n)
    (hended : ended.Refork n) : (p.rungOr mode again i ended).Refork n := by
  unfold Proxy.rungOr
  split
  · next hi =>
    refine .inr ⟨mode, i, again, by simp [h.1], ⟨rfl, h.2⟩, ?_⟩
    have hruns := hn hi
    unfold Proxy.runsLeft at hruns ⊢
    simpa using hruns
  · exact hended

theorem bbEnable_of_didCalibrate (cfg : Config) {p : Proxy} {n : ℕ} (h : p.didCalibrate = true)
    (hn : p.gov.freqTable.length + (maxRepetitionNum + 2) ≤ n) : (p.bbEnable cfg).Refork n := by
  unfold Proxy.bbEnable
  split
  · unfold Proxy.ramp
    split
    · exact launch_of_didCalibrate n h
    · refine rungOr_refork _ ⟨rfl, fun _ => h⟩ (fun hi => ?_) (launch_of_didCalibrate n h)
      simp only [Proxy.setIdx, Proxy.runsLeft, if_true] at hi ⊢
      omega
  · exact launch_of_didCalibrate n h

/-- **The child that was handed over is run.** It is the child of the first rung
or that of the first attempt. -/
theorem handed_spec (cfg : Config) (p : Proxy) (r : InitReads) (pid : Raw) :
    (p.handed cfg r pid).childPid = pid ∧
      ((p.handed cfg r pid).pc = .start (.attempt true) ∨
        ∃ mode, (p.handed cfg r pid).pc = .start (.calibrate mode 0 false) ∧
          (p.handed cfg r pid).Ramping false) := by
  -- a ramp that made no run has used up no child
  have hnone (q : Proxy) : (q.endFirstRamp cfg 0).pc = .start (.attempt true) ∧
      (q.endFirstRamp cfg 0).childPid = q.childPid := bbEnable_of_not_didCalibrate cfg rfl
  unfold Proxy.handed Proxy.ramp
  dsimp only
  split
  · split
    · exact ⟨(hnone _).2, .inl (hnone _).1⟩
    · unfold Proxy.rungOr
      split
      · exact ⟨rfl, .inr ⟨cfg.rampMode, rfl, rfl, nofun⟩⟩
      · exact ⟨(hnone _).2, .inl (hnone _).1⟩
  · have hlaunch := bbEnable_of_not_didCalibrate cfg (p := ({ p with
      childPid := pid
      didCalibrate := false
      curRepetitionNum := 0
      forcedMinDone := false } : Proxy).initOnce cfg r) rfl
    exact ⟨hlaunch.2, .inl hlaunch.1⟩

/-- **A rung is followed by a fork.** The child of a rung is used up, and the
next rung or the first attempt gets a fresh one. -/
theorem endRung_refork (cfg : Config) {p : Proxy} (mode : FreqMode) (i : ℕ) {again : Bool}
    (overflowed : Bool) (h : p.Ramping again) :
    (p.endRung cfg mode i again overflowed).Refork
      (p.runsLeft (.calibrate mode i again) - 1) := by
  have hmax : (freqGovRestoreMax p.gov).freqTable = p.gov.freqTable := by
    unfold freqGovRestoreMax
    split
    · rfl
    · exact setFreq_freqTable _ _
  -- past the last rung, or after an overflow, the ramp ends
  have hend (q : Proxy) (hq : again = true → q.didCalibrate = true)
      (hqt : q.gov.freqTable = p.gov.freqTable) :
      (q.endRamp cfg again (i + 1)).Refork (p.runsLeft (.calibrate mode i again) - 1) := by
    unfold Proxy.endRamp
    cases again with
    | true => exact launch_of_didCalibrate _ (hq rfl)
    | false =>
      refine bbEnable_of_didCalibrate cfg (by simp) ?_
      have htable : (if cfg.covType = .hybrid then freqGovCopyStart q.gov .atom .addr
          else q.gov).freqTable = p.gov.freqTable := by
        split <;> exact hqt
      simp only [htable, Proxy.runsLeft, Bool.false_eq_true, if_false]
      omega
  unfold Proxy.endRung
  dsimp only
  split
  · exact hend _ h.2 hmax
  · refine rungOr_refork mode h (fun hi => ?_) (hend _ h.2 hmax)
    simp only [Proxy.setIdx, hmax, Proxy.runsLeft] at hi ⊢
    omega

end CsProxy
end CsTrace
