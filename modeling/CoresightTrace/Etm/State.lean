import CoresightTrace.Framework.Guarded
import Mathlib.Algebra.Ring.Int.Defs
import Mathlib.Algebra.Ring.Nat

/-!
# Programming the ETMs

Each CPU has an ETM that emits its trace. Two things about it change from one
execution to the next: whether it broadcasts every branch (`TRCCONFIGR.BB`), and the
process whose trace it emits, which is gated on context ID comparator 0. The decoder
has to know the first, and the second is a new process in every execution.

`enable_cs_trace()` programs the ETMs along one of two paths. The first execution, and
the first one after `trace_set_bb_mode()`, goes through `configure_trace()` and
`enable_trace()`; all others write the comparator in `enable_trace_sinks_only()`,
which relies on `disable_trace_sinks_only()` having left the ETMs in programming mode.

The model is of `common.c` and `config.c` on top of CSAL, whose calls are taken not to
fail. What CSAL and the hardware are free to do is in the `Answer` for each ETM. The
loops over the CPUs do the same to each ETM and are functions of its index. The sinks
are left out: the ETMs do not depend on them.
-/

namespace CsTrace
namespace EtmConfig

/-! ### An ETM -/

/-- The registers of an ETM that change between executions. -/
structure Etm where
  /-- The ETM is tracing. Otherwise it is in programming mode. -/
  enabled : Bool
  /-- `TRCCONFIGR.BB`. -/
  bb : ℤ
  /-- Context ID comparator 0, its lower and its upper word. -/
  cidcvrL : ℕ
  cidcvrH : ℕ
  /-- History: the comparator was written while the ETM was enabled. -/
  wroteEnabled : Bool

/-- `cs_etmv4_config_t`: the branch-broadcast bit, and the comparator if
`CS_ETMC_CXID_COMP` is among the flags. -/
structure TConfig where
  bb : ℤ
  cxidComp : Option (ℕ × ℕ)

/-- What CSAL and the hardware decide about an ETM in a call. -/
structure Answer where
  /-- `configure_trace()` clears the branch-broadcast bit. -/
  clears : Bool
  /-- What `cs_etm_clean()` leaves in the comparator. -/
  cleanedL : ℕ
  cleanedH : ℕ
  /-- A write to the comparator of an enabled ETM takes effect. -/
  takes : Bool

namespace Etm

/-- `cs_trace_enable()`. -/
def traceEnable (e : Etm) : Etm :=
  { e with enabled := true }

/-- `cs_trace_disable()`. -/
def traceDisable (e : Etm) : Etm :=
  { e with enabled := false }

/-- `cs_etm_config_get_ex()`. -/
def configGetEx (e : Etm) : TConfig :=
  ⟨e.bb, none⟩

/-- `cs_etm_config_put_ex()`. It puts the ETM in programming mode first. -/
def configPutEx (e : Etm) (tconfig : TConfig) : Etm :=
  { e with
    enabled := false
    bb := tconfig.bb
    cidcvrL := (tconfig.cxidComp.map Prod.fst).getD e.cidcvrL
    cidcvrH := (tconfig.cxidComp.map Prod.snd).getD e.cidcvrH }

/-- `cs_etm_clean()`. -/
def clean (e : Etm) (a : Answer) : Etm :=
  { e with
    enabled := false
    bb := if a.clears then 0 else e.bb
    cidcvrL := a.cleanedL
    cidcvrH := a.cleanedH }

/-- `cs_device_write()` of both words of the comparator. -/
def writeCidcvr (e : Etm) (a : Answer) (low high : ℕ) : Etm :=
  if e.enabled then
    { e with
      cidcvrL := if a.takes then low else e.cidcvrL
      cidcvrH := if a.takes then high else e.cidcvrH
      wroteEnabled := true }
  else { e with cidcvrL := low, cidcvrH := high }

/-! ### `config.c` -/

/-- `init_etm()`. -/
def init (e : Etm) (a : Answer) : Etm :=
  let e := e.clean a
  e.configPutEx e.configGetEx

/-- `configure_etmv4_addr_range_cid()`. -/
def configureAddrRangeCid (e : Etm) (cid : ℕ) : Etm :=
  let tconfig := e.configGetEx
  e.configPutEx
    (if 0 < cid then { tconfig with cxidComp := some (cid % 2 ^ 32, cid / 2 ^ 32 % 2 ^ 32) }
    else tconfig)

/-- The body of `set_etm_bb_mode()`. -/
def setBbMode (e : Etm) (bbMode : ℤ) : Etm :=
  let tconfig := e.configGetEx
  (e.configPutEx { tconfig with bb := if bbMode ≠ 0 then 1 else 0 }).traceEnable

end Etm

/-- What does not change in a process. -/
structure Config where
  /-- `AFLCS_STALKER_DECODER`. -/
  stalker : Bool
  /-- `pid_filter_enabled()`. -/
  pidFilter : Bool

/-- `etm_cycled_per_window()`. -/
def Config.etmCycledPerWindow (c : Config) : Bool :=
  c.stalker || c.pidFilter

/-- A pid as an `unsigned long`. -/
def cidOf (pid : ℤ) : ℕ :=
  (pid % 2 ^ 64).toNat

variable {n : ℕ}

/-- `configure_trace()`. -/
def configureTrace (ptm : Fin n → Etm) (a : Fin n → Answer) (pid : ℤ) : Fin n → Etm :=
  fun i => ((ptm i).init (a i)).configureAddrRangeCid (cidOf pid)

/-- `set_etm_bb_mode()`. -/
def setEtmBbMode (ptm : Fin n → Etm) (bbMode : ℤ) : Fin n → Etm :=
  fun i => (ptm i).setBbMode bbMode

/-- `enable_trace()`. -/
def enableTrace (ptm : Fin n → Etm) : Fin n → Etm :=
  fun i => (ptm i).traceEnable

/-- `enable_trace_sinks_only()`. -/
def enableTraceSinksOnly (c : Config) (ptm : Fin n → Etm) (a : Fin n → Answer) (tracedPid : ℤ) :
    Fin n → Etm :=
  if c.etmCycledPerWindow then
    fun i =>
      (if 0 < tracedPid ∧ c.pidFilter then
        (ptm i).writeCidcvr (a i) (tracedPid % 2 ^ 32).toNat 0
      else ptm i).traceEnable
  else ptm

/-- `disable_trace_sinks_only()`. -/
def disableTraceSinksOnly (c : Config) (ptm : Fin n → Etm) : Fin n → Etm :=
  if c.etmCycledPerWindow then fun i => (ptm i).traceDisable else ptm

/-! ### `common.c` -/

/-- How far the proxy is with an execution. -/
inductive Exec where
  /-- Stopped, or not yet started. -/
  | idle
  | running
  /-- Abandoned: it was started, and will not be stopped. -/
  | left
deriving DecidableEq

/-- The variables of `common.c` and `config.c` that are about the ETMs, with these. -/
structure Session (n : ℕ) where
  ptm : Fin n → Etm
  /-- The decoder's `bb_mode`. -/
  decoderBb : ℤ
  currentBbMode : ℤ
  isFirstTrace : Bool
  traceEverConfigured : Bool
  childPid : ℤ
  tracedPid : ℤ
  exec : Exec
  /-- History: the last argument of `trace_set_bb_mode()`, 0 before. -/
  lastBb : ℤ
  /-- History: the last argument of `start_trace()`. -/
  lastPid : ℤ

/-- The variables after `init_trace()`, which sets the decoder's `bb_mode` to 0. -/
def Session.initial (ptm : Fin n → Etm) : Session n :=
  ⟨ptm, 0, 0, true, false, -1, -1, .idle, 0, -1⟩

/-- `trace_set_bb_mode()`. -/
def traceSetBbMode (c : Config) (s : Session n) (bbMode : ℤ) : Session n :=
  { s with
    ptm := if s.traceEverConfigured then setEtmBbMode s.ptm bbMode else s.ptm
    currentBbMode := if bbMode ≠ 0 then 1 else 0
    isFirstTrace := true
    decoderBb := if c.stalker then bbMode else s.decoderBb
    lastBb := bbMode }

/-- `enable_cs_trace()`. -/
def enableCsTrace (c : Config) (s : Session n) (a : Fin n → Answer) (pid : ℤ) : Session n :=
  if s.isFirstTrace then
    let s :=
      if !c.stalker && !c.pidFilter then { s with ptm := configureTrace s.ptm a pid }
      else { s with tracedPid := s.childPid, ptm := configureTrace s.ptm a s.childPid }
    let s :=
      { s with ptm := enableTrace s.ptm, isFirstTrace := false, traceEverConfigured := true }
    -- the bit may have been wiped
    if s.currentBbMode ≠ 0 then { s with ptm := setEtmBbMode s.ptm s.currentBbMode } else s
  else
    { s with
      tracedPid := s.childPid
      ptm := enableTraceSinksOnly c s.ptm a s.childPid }

/-- `disable_cs_trace(false)`. -/
def disableCsTrace (c : Config) (s : Session n) : Session n :=
  { s with ptm := disableTraceSinksOnly c s.ptm }

/-- `start_trace(pid, false)` from where it sets `child_pid`. -/
def startTrace (c : Config) (s : Session n) (a : Fin n → Answer) (pid : ℤ) : Session n :=
  { enableCsTrace c { s with childPid := pid, lastPid := pid } a 0 with exec := .running }

/-- `stop_trace(false)`, as far as the ETMs go. -/
def stopTrace (c : Config) (s : Session n) : Session n :=
  { disableCsTrace c s with exec := .idle }

/-! ### The machine -/

/-- What the proxy does. -/
inductive Label (n : ℕ) where
  | setBbMode (bbMode : ℤ)
  | start (pid : ℤ) (a : Fin n → Answer)
  /-- `start_trace()` that fails in `set_cpu_affinity()`. -/
  | startFails (pid : ℤ)
  /-- The trace is disabled and enabled again to drain the ETR. -/
  | reenable (a : Fin n → Answer)
  | stop
  /-- A calibration run is given up without `stop_trace()`. -/
  | leave

/-- A number the proxy may take for a pid: a pid, or the status of a child that has
exited early. -/
def isPid (pid : ℤ) : Bool :=
  decide (0 ≤ pid) && decide (pid < 2 ^ 31)

/-- Whether the proxy may do so. It leaves the branch-broadcast mode alone while an
execution runs, and sets it to 0 and 1 only. -/
def enabled (s : Session n) : Label n → Bool
  | .setBbMode bbMode => s.exec != .running && (bbMode == 0 || bbMode == 1)
  | .start pid _ => s.exec != .running && isPid pid
  | .startFails pid => s.exec != .running && isPid pid
  | .reenable _ => s.exec == .running
  | .stop => true
  | .leave => s.exec == .running

/-- The state it leads to. -/
def effect (c : Config) (s : Session n) : Label n → Session n
  | .setBbMode bbMode => traceSetBbMode c s bbMode
  | .start pid a => startTrace c s a pid
  | .startFails pid => { s with lastPid := pid }
  | .reenable a => enableCsTrace c (disableCsTrace c s) a s.childPid
  | .stop => stopTrace c s
  | .leave => { s with exec := .left }

/-- The ETMs under everything the proxy does. They come up without branch broadcast. -/
def etmSystem (c : Config) (n : ℕ) : Guarded (Session n) (Label n) where
  init s := ∃ ptm : Fin n → Etm,
    (∀ i, (ptm i).bb = 0 ∧ (ptm i).wroteEnabled = false) ∧ s = .initial ptm
  enabled := enabled
  effect := effect c

/-! ### What the calls do to an ETM -/

variable {c : Config}

/-- A pid is a comparator value of one word. -/
theorem cidOf_pid {pid : ℤ} (h : isPid pid = true) : (cidOf pid : ℤ) = pid := by
  obtain ⟨hlo, hhi⟩ := Bool.and_eq_true_iff.mp h
  rw [decide_eq_true_eq] at hlo hhi
  unfold cidOf
  omega

/-- `configure_trace()` may clear the branch-broadcast bit, and leaves the ETM in
programming mode. -/
theorem configureTrace_spec (ptm : Fin n → Etm) (a : Fin n → Answer) (pid : ℤ) (i : Fin n) :
    (configureTrace ptm a pid i).bb = (if (a i).clears then 0 else (ptm i).bb) ∧
      (configureTrace ptm a pid i).wroteEnabled = (ptm i).wroteEnabled := by
  unfold configureTrace Etm.configureAddrRangeCid
  split <;> exact ⟨rfl, rfl⟩

/-- `configure_trace()` writes a pid into the comparator. -/
theorem configureTrace_cid (ptm : Fin n → Etm) (a : Fin n → Answer) {pid : ℤ}
    (hpid : isPid pid = true) (hpos : 0 < pid) (i : Fin n) :
    ((configureTrace ptm a pid i).cidcvrL : ℤ) = pid ∧
      (configureTrace ptm a pid i).cidcvrH = 0 := by
  obtain ⟨-, hhi⟩ := Bool.and_eq_true_iff.mp hpid
  rw [decide_eq_true_eq] at hhi
  have hcid := cidOf_pid hpid
  unfold configureTrace Etm.configureAddrRangeCid
  dsimp only
  rw [if_pos (by omega)]
  change ((cidOf pid % 2 ^ 32 : ℕ) : ℤ) = pid ∧ cidOf pid / 2 ^ 32 % 2 ^ 32 = 0
  omega

theorem writeCidcvr_bb (e : Etm) (a : Answer) (low high : ℕ) :
    (e.writeCidcvr a low high).bb = e.bb := by
  unfold Etm.writeCidcvr
  split <;> rfl

/-- What `enable_cs_trace()` leaves alone, and that it is not the first any more. -/
theorem enableCsTrace_frame (c : Config) (s : Session n) (a : Fin n → Answer) (pid : ℤ) :
    let t := enableCsTrace c s a pid
    t.decoderBb = s.decoderBb ∧ t.currentBbMode = s.currentBbMode ∧ t.childPid = s.childPid ∧
      t.exec = s.exec ∧ t.lastBb = s.lastBb ∧ t.lastPid = s.lastPid ∧
      t.isFirstTrace = false ∧
      t.traceEverConfigured = (s.isFirstTrace || s.traceEverConfigured) := by
  cases hfirst : s.isFirstTrace with
  | false => simp [enableCsTrace, hfirst]
  | true =>
    simp only [enableCsTrace, hfirst, if_true, Bool.true_or]
    split <;> split <;> simp

/-- **The branch-broadcast bit after `enable_cs_trace()`.** On the first path a bit
that was wiped is set again; it stays 0 if it was. -/
theorem enableCsTrace_bb (c : Config) (s : Session n) (a : Fin n → Answer) (pid : ℤ)
    (i : Fin n) (hbit : s.currentBbMode = 0 ∨ s.currentBbMode = 1)
    (hbb : (s.ptm i).bb = s.currentBbMode ∨ s.isFirstTrace = true ∧ (s.ptm i).bb = 0) :
    ((enableCsTrace c s a pid).ptm i).bb = s.currentBbMode := by
  cases hfirst : s.isFirstTrace with
  | false =>
    rw [hfirst] at hbb
    have hsame : (s.ptm i).bb = s.currentBbMode := hbb.resolve_right (by rintro ⟨⟨⟩, -⟩)
    simp only [enableCsTrace, hfirst, Bool.false_eq_true, if_false, enableTraceSinksOnly]
    split
    · split
      · exact (writeCidcvr_bb ..).trans hsame
      · exact hsame
    · exact hsame
  | true =>
    -- the configuration wipes the bit, and only the mode 1 sets it again
    rcases hbit with hzero | hone
    · have hptm : (s.ptm i).bb = 0 := by
        rcases hbb with hbb | ⟨-, hbb⟩
        · rw [hbb, hzero]
        · exact hbb
      have hconf (pid : ℤ) : (configureTrace s.ptm a pid i).bb = 0 := by
        rw [(configureTrace_spec s.ptm a pid i).1, hptm, ite_self]
      simp only [enableCsTrace, hfirst, if_true]
      rw [hzero]
      split <;> exact hconf _
    · simp only [enableCsTrace, hfirst, if_true]
      split <;> simp [hone, setEtmBbMode, Etm.setBbMode, Etm.configPutEx, Etm.traceEnable]

/-- The Stalker build leaves every ETM enabled. -/
theorem enableCsTrace_enabled (hstalker : c.stalker = true) (s : Session n)
    (a : Fin n → Answer) (pid : ℤ) (i : Fin n) :
    ((enableCsTrace c s a pid).ptm i).enabled = true := by
  cases hfirst : s.isFirstTrace with
  | false =>
    simp [enableCsTrace, hfirst, enableTraceSinksOnly, Config.etmCycledPerWindow, hstalker,
      Etm.traceEnable]
  | true =>
    simp only [enableCsTrace, hfirst, if_true, hstalker, Bool.not_true, Bool.false_and,
      Bool.false_eq_true, if_false]
    split <;> rfl

/-- **The comparator after `enable_cs_trace()`** under the PID filter. It holds the
child's pid and was written in programming mode, if the ETM was or the path is the
first. -/
theorem enableCsTrace_cid (hfilter : c.pidFilter = true) (s : Session n)
    (a : Fin n → Answer) (pid : ℤ) (i : Fin n) (hpid : isPid s.childPid = true)
    (hpos : 0 < s.childPid) (hprog : s.isFirstTrace = true ∨ (s.ptm i).enabled = false) :
    (((enableCsTrace c s a pid).ptm i).cidcvrL : ℤ) = s.childPid ∧
      ((enableCsTrace c s a pid).ptm i).cidcvrH = 0 ∧
      ((enableCsTrace c s a pid).ptm i).wroteEnabled = (s.ptm i).wroteEnabled := by
  cases hfirst : s.isFirstTrace with
  | false =>
    -- the later path writes the comparator itself, with the ETM disabled
    have hdis : (s.ptm i).enabled = false := hprog.resolve_left (by simp [hfirst])
    obtain ⟨-, hhi⟩ := Bool.and_eq_true_iff.mp hpid
    rw [decide_eq_true_eq] at hhi
    have hword : ((s.childPid % 2 ^ 32).toNat : ℤ) = s.childPid := by omega
    have hptm : (enableCsTrace c s a pid).ptm i =
        { s.ptm i with
          enabled := true
          cidcvrL := (s.childPid % 2 ^ 32).toNat
          cidcvrH := 0 } := by
      simp [enableCsTrace, hfirst, enableTraceSinksOnly, Config.etmCycledPerWindow, hfilter,
        hpos, Etm.writeCidcvr, hdis, Etm.traceEnable]
    rw [hptm]
    exact ⟨hword, rfl, rfl⟩
  | true =>
    -- the first path configures the ETM as a whole
    obtain ⟨hlow, hhigh⟩ := configureTrace_cid s.ptm a hpid hpos i
    have hwrote := (configureTrace_spec s.ptm a s.childPid i).2
    simp only [enableCsTrace, hfirst, if_true, hfilter, Bool.not_true, Bool.and_false,
      Bool.false_eq_true, if_false]
    split <;> exact ⟨hlow, hhigh, hwrote⟩

/-- On the sinks-only path the comparator of an enabled ETM is written. -/
theorem enableCsTrace_live (hfilter : c.pidFilter = true) (s : Session n)
    (a : Fin n → Answer) (pid : ℤ) (i : Fin n) (hpos : 0 < s.childPid)
    (hfirst : s.isFirstTrace = false) (hlive : (s.ptm i).enabled = true) :
    ((enableCsTrace c s a pid).ptm i).wroteEnabled = true := by
  simp [enableCsTrace, hfirst, enableTraceSinksOnly, Config.etmCycledPerWindow, hfilter, hpos,
    Etm.writeCidcvr, hlive, Etm.traceEnable]

end EtmConfig
end CsTrace
