import CoresightTrace.Etm.State
import CoresightTrace.Framework.Calls
import Mathlib.Data.List.FinRange

/-!
# The sinks, and calls that fail

`Etm/State.lean` leaves out the trace sinks and takes every CSAL call to succeed. Here are
the ETR, with its formatter, the ETFs and whether each ETM is enabled, and every call may
fail and count errors. The functions of `config.c` return where some of the calls fail; of
the others they ignore the result and look at `cs_error_count()` in the end, which also has
the errors of `fetch_trace()` and of the polling in it. Only `disable_cs_trace()` clears the
count, after an attempt that failed.

A failed enable shuts CSAL down, and the drain does not look at its result: the child runs
on untraced (`Window.down`). `sinks_armed` says when that is, and what can be relied on
while a window is open: every sink is enabled, the formatter is off in the Stalker build,
and every ETM is enabled, also where only the first window enables them and every later
one leaves them running.
-/

open Calls

namespace CsTrace
namespace Sinks

open EtmConfig (Config)

/-! ### Devices and calls -/

/-- The devices, as far as they are on or off. -/
structure Devices (n m : ℕ) where
  etr : Bool
  /-- `EnFTC` and `EnFCont` are clear. -/
  bypass : Bool
  etf : Fin m → Bool
  etm : Fin n → Bool

/-- The calls, by place. Register accesses that only read are left out. -/
inductive Site (n m : ℕ) where
  -- `configure_trace()`
  | disableTpiu
  | sinkDisable
  | getDevice (i : Fin n)
  | setTraceSourceId (i : Fin n)
  | etmClean (i : Fin n)
  | initConfig (i : Fin n)
  | checkpoint
  | addrRangeConfig (i : Fin n)
  | stopOnFlush
  -- `enable_trace()` and `enable_trace_sinks_only()`
  | etrSetup
  | sinkEnable
  | formatter
  | etfSetup (j : Fin m)
  | hwFifoEnable (j : Fin m)
  | cidcvr (i : Fin n)
  | traceEnable (i : Fin n)
  | enableCheckpoint
  -- `set_etm_bb_mode()`
  | bbConfig (i : Fin n)
  | bbEnable (i : Fin n)
  -- `disable_trace_sinks_only()`
  | flush
  | traceDisable (i : Fin n)
  | hwFifoDisable (j : Fin m)
  | etrDisable
deriving DecidableEq

/-- What a call answers, and whether its device is on where it fails. -/
structure Answer where
  outcome : Outcome
  leaves : Bool

variable {n m : ℕ}

section Calls

variable (ans : Site n m → Answer)

/-- A call that turns nothing on or off. -/
def plain (site : Site n m) (checked : Bool) : Op (Devices n m) :=
  .call checked (ans site).outcome id id

/-- A call that turns the ETR on or off. `cs_sink_enable()` sets the formatter bits. -/
def onEtr (site : Site n m) (checked on : Bool) : Op (Devices n m) :=
  .call checked (ans site).outcome
    (fun d => { d with etr := on, bypass := d.bypass && !on })
    fun d => { d with etr := (ans site).leaves, bypass := d.bypass && !(ans site).leaves }

def onEtf (site : Site n m) (checked : Bool) (j : Fin m) (on : Bool) : Op (Devices n m) :=
  .call checked (ans site).outcome
    (fun d => { d with etf := Function.update d.etf j on })
    fun d => { d with etf := Function.update d.etf j (ans site).leaves }

def onEtm (site : Site n m) (checked : Bool) (i : Fin n) (on : Bool) : Op (Devices n m) :=
  .call checked (ans site).outcome
    (fun d => { d with etm := Function.update d.etm i on })
    fun d => { d with etm := Function.update d.etm i (ans site).leaves }

/-! ### `config.c` -/

/-- `init_etm()`, behind the two calls in front of it. -/
def initEtm (i : Fin n) : List (Op (Devices n m)) :=
  [plain ans (.getDevice i) true, plain ans (.setTraceSourceId i) true,
    onEtm ans (.etmClean i) true i false, onEtm ans (.initConfig i) false i false]

/-- `configure_trace()`. It looks at the count behind each ETM. -/
def configureTrace : List (Op (Devices n m)) :=
  [plain ans .disableTpiu false, onEtr ans .sinkDisable false false] ++
    (List.finRange n).flatMap (initEtm ans) ++ [plain ans .checkpoint false] ++
    (List.finRange n).flatMap (fun i => [onEtm ans (.addrRangeConfig i) false i false, .test]) ++
    [plain ans .stopOnFlush false, .test]

/-- `set_etr_formatter_bypass()`. -/
def setEtrFormatterBypass : Op (Devices n m) :=
  .call true (ans .formatter).outcome (fun d => { d with bypass := true })
    fun d => { d with bypass := (ans .formatter).leaves }

/-- The sinks, in `enable_trace()` and `enable_trace_sinks_only()`. -/
def enableSinks (c : Config) : List (Op (Devices n m)) :=
  [plain ans .etrSetup true, onEtr ans .sinkEnable true true] ++
    (if c.stalker then [setEtrFormatterBypass ans] else []) ++
    (List.finRange m).flatMap fun j =>
      [plain ans (.etfSetup j) true, onEtf ans (.hwFifoEnable j) true j true]

/-- `enable_trace()`. -/
def enableTrace (c : Config) : List (Op (Devices n m)) :=
  enableSinks ans c ++
    (List.finRange n).flatMap (fun i => [onEtm ans (.traceEnable i) false i true]) ++
    [plain ans .enableCheckpoint false] ++ [.test]

/-- `enable_trace_sinks_only()`. -/
def enableTraceSinksOnly (c : Config) (tracedPid : ℤ) : List (Op (Devices n m)) :=
  enableSinks ans c ++
    (if c.etmCycledPerWindow then
      (List.finRange n).flatMap fun i =>
        (if 0 < tracedPid ∧ c.pidFilter = true then [plain ans (.cidcvr i) false] else []) ++
          [onEtm ans (.traceEnable i) false i true]
    else []) ++
    [plain ans .enableCheckpoint false] ++ [.test]

/-- `set_etm_bb_mode()`. -/
def setEtmBbMode : List (Op (Devices n m)) :=
  (List.finRange n).flatMap (fun i =>
    [onEtm ans (.bbConfig i) false i false, onEtm ans (.bbEnable i) true i true]) ++ [.test]

/-- `disable_trace_sinks_only()`. Nothing is flushed from an ETR that is off. -/
def disableTraceSinksOnly (c : Config) (d : Devices n m) : List (Op (Devices n m)) :=
  (if d.etr then [plain ans .flush false] else []) ++
    (if c.etmCycledPerWindow then
      (List.finRange n).flatMap fun i => [onEtm ans (.traceDisable i) false i false]
    else []) ++
    (List.finRange m).flatMap (fun j => [onEtf ans (.hwFifoDisable j) false j false]) ++
    [onEtr ans .etrDisable false false] ++ [.test]

end Calls

/-! ### `common.c` -/

/-- `TRACE_DISABLE_TRIAL`. -/
def traceDisableTrial : ℕ := 8

/-- Whether trace is collected. -/
inductive Window where
  | closed
  | opened
  /-- A window that was left, or that could not be disabled. -/
  | unsure
  /-- CSAL was shut down. -/
  | down
deriving DecidableEq, Repr

/-- The devices, with the count and the variables of `common.c`. -/
structure State (n m : ℕ) where
  dev : Devices n m
  /-- `cs_error_count()`. -/
  errorCount : ℕ
  isFirstTrace : Bool
  traceEverConfigured : Bool
  currentBbMode : Bool
  window : Window

/-- What `enable_cs_trace()` does. -/
def enableCsTrace (c : Config) (s : State n m) (pid : ℤ) (ans : Site n m → Answer) :
    List (Op (Devices n m)) :=
  if s.isFirstTrace then
    configureTrace ans ++ enableTrace ans c ++ if s.currentBbMode then setEtmBbMode ans else []
  else enableTraceSinksOnly ans c pid

/-- What `disable_cs_trace(false)` does, with the answers of each trial. -/
def disableCsTrace (c : Config) (ans : Fin traceDisableTrial → Site n m → Answer) :
    List (Devices n m → List (Op (Devices n m))) :=
  (List.finRange traceDisableTrial).map fun t => disableTraceSinksOnly (ans t) c

inductive Label (n m : ℕ) where
  /-- `trace_set_bb_mode()`. -/
  | setBbMode (bbMode : Bool) (ans : Site n m → Answer)
  /-- `enable_cs_trace()`, with the pid of the child. -/
  | enable (pid : ℤ) (ans : Site n m → Answer)
  | disable (ans : Fin traceDisableTrial → Site n m → Answer)
  /-- The calls of the polling and of `fetch_trace()`. -/
  | other (errors : ℕ)
  /-- A calibration run is given up. -/
  | leave

/-- Whether the proxy may do so. -/
def enabled (s : State n m) : Label n m → Bool
  | .setBbMode _ _ | .enable _ _ => s.window == .closed || s.window == .unsure
  | .disable _ | .other _ => s.window != .down
  | .leave => s.window == .opened

/-- The state it leads to. -/
def effect (c : Config) (s : State n m) : Label n m → State n m
  | .setBbMode bbMode ans =>
    let r := perform (if s.traceEverConfigured then setEtmBbMode ans else []) s.errorCount s.dev
    { s with dev := r.state, errorCount := r.count, isFirstTrace := true, currentBbMode := bbMode }
  | .enable pid ans =>
    let r := perform (enableCsTrace c s pid ans) s.errorCount s.dev
    if r.ok then
      { s with
        dev := r.state
        errorCount := r.count
        isFirstTrace := false
        traceEverConfigured := true
        window := .opened }
    else { s with dev := r.state, errorCount := r.count, window := .down }
  | .disable ans =>
    let r := attempt (disableCsTrace c ans) s.errorCount s.dev
    -- the count was cleared behind the last trial
    if r.ok then { s with dev := r.state, errorCount := r.count, window := .closed }
    else { s with dev := r.state, errorCount := 0, window := .unsure }
  | .other errors => { s with errorCount := s.errorCount + errors }
  | .leave => { s with window := .unsure }

/-- The sinks under everything the proxy does. The devices and the count are what
`init_trace()` left. -/
def sinkSystem (c : Config) (n m : ℕ) : Guarded (State n m) (Label n m) where
  init s := s.isFirstTrace = true ∧ s.traceEverConfigured = false ∧ s.currentBbMode = false ∧
    s.window = .closed
  enabled := enabled
  effect := effect c

/-! ### What the functions do -/

section Done

variable (ans : Site n m → Answer) (c : Config)

/-- A loop over the ETMs that turns each of them on or off. -/
theorem doneAll_etm {ops : Fin n → List (Op (Devices n m))} {on : Bool}
    (hops : ∀ i d, doneAll (ops i) d = { d with etm := Function.update d.etm i on })
    (d : Devices n m) :
    doneAll ((List.finRange n).flatMap ops) d = { d with etm := fun _ => on } := by
  rw [doneAll_loop (P := fun d f => { d with etm := f }) (fun _ _ => rfl) (fun _ _ _ => rfl)
    (fun _ => rfl) hops]
  simp

/-- The same for the ETFs. -/
theorem doneAll_etf {ops : Fin m → List (Op (Devices n m))} {on : Bool}
    (hops : ∀ j d, doneAll (ops j) d = { d with etf := Function.update d.etf j on })
    (d : Devices n m) :
    doneAll ((List.finRange m).flatMap ops) d = { d with etf := fun _ => on } := by
  rw [doneAll_loop (P := fun d f => { d with etf := f }) (fun _ _ => rfl) (fun _ _ _ => rfl)
    (fun _ => rfl) hops]
  simp

theorem configureTrace_done (d : Devices n m) :
    doneAll (configureTrace ans) d = { d with etr := false, etm := fun _ => false } := by
  have hinit (d : Devices n m) :
      doneAll ((List.finRange n).flatMap (initEtm ans)) d = { d with etm := fun _ => false } :=
    doneAll_etm (fun i d => by simp [initEtm, plain, onEtm, Op.done]) d
  have hrange (d : Devices n m) :
      doneAll ((List.finRange n).flatMap fun i =>
        [onEtm ans (.addrRangeConfig i) false i false, .test]) d =
      { d with etm := fun _ => false } :=
    doneAll_etm (fun i d => by simp [onEtm, Op.done]) d
  unfold configureTrace
  simp only [doneAll_append, hinit, hrange]
  simp [plain, onEtr, Op.done]

theorem enableSinks_done (d : Devices n m) :
    doneAll (enableSinks ans c) d =
      { d with etr := true, bypass := c.stalker, etf := fun _ => true } := by
  have hetf (d : Devices n m) :
      doneAll ((List.finRange m).flatMap fun j =>
        [plain ans (.etfSetup j) true, onEtf ans (.hwFifoEnable j) true j true]) d =
      { d with etf := fun _ => true } :=
    doneAll_etf (fun j d => by simp [plain, onEtf, Op.done]) d
  unfold enableSinks
  simp only [doneAll_append, hetf]
  cases c.stalker <;> simp [plain, onEtr, setEtrFormatterBypass, Op.done]

theorem enableTrace_done (d : Devices n m) :
    doneAll (enableTrace ans c) d =
      { d with etr := true, bypass := c.stalker, etf := fun _ => true, etm := fun _ => true } := by
  have hetm (d : Devices n m) :
      doneAll ((List.finRange n).flatMap fun i => [onEtm ans (.traceEnable i) false i true]) d =
      { d with etm := fun _ => true } :=
    doneAll_etm (fun i d => by simp [onEtm, Op.done]) d
  unfold enableTrace
  simp only [doneAll_append, enableSinks_done, hetm]
  simp [plain, Op.done]

theorem enableTraceSinksOnly_done (pid : ℤ) (d : Devices n m) :
    doneAll (enableTraceSinksOnly ans c pid) d =
      { etr := true
        bypass := c.stalker
        etf := fun _ => true
        etm := if c.etmCycledPerWindow then fun _ => true else d.etm } := by
  have hetm (d : Devices n m) :
      doneAll ((List.finRange n).flatMap fun i =>
        (if 0 < pid ∧ c.pidFilter = true then [plain ans (.cidcvr i) false] else []) ++
          [onEtm ans (.traceEnable i) false i true]) d =
      { d with etm := fun _ => true } := by
    refine doneAll_etm (fun i d => ?_) d
    split <;> simp [plain, onEtm, Op.done]
  unfold enableTraceSinksOnly
  simp only [doneAll_append, enableSinks_done]
  cases c.etmCycledPerWindow with
  | true =>
    rw [if_pos rfl, if_pos rfl, hetm]
    simp [plain, Op.done]
  | false => simp [plain, Op.done]

theorem setEtmBbMode_done (d : Devices n m) :
    doneAll (setEtmBbMode ans) d = { d with etm := fun _ => true } := by
  have hetm (d : Devices n m) :
      doneAll ((List.finRange n).flatMap fun i =>
        [onEtm ans (.bbConfig i) false i false, onEtm ans (.bbEnable i) true i true]) d =
      { d with etm := fun _ => true } :=
    doneAll_etm (fun i d => by simp [onEtm, Op.done]) d
  unfold setEtmBbMode
  rw [doneAll_append, hetm]
  rfl

theorem disableTraceSinksOnly_done (d₀ d : Devices n m) :
    doneAll (disableTraceSinksOnly ans c d₀) d =
      { d with
        etr := false
        etf := fun _ => false
        etm := if c.etmCycledPerWindow then fun _ => false else d.etm } := by
  have hetm (d : Devices n m) :
      doneAll ((List.finRange n).flatMap fun i => [onEtm ans (.traceDisable i) false i false]) d =
      { d with etm := fun _ => false } :=
    doneAll_etm (fun i d => by simp [onEtm, Op.done]) d
  have hetf (d : Devices n m) :
      doneAll ((List.finRange m).flatMap fun j => [onEtf ans (.hwFifoDisable j) false j false]) d =
      { d with etf := fun _ => false } :=
    doneAll_etf (fun j d => by simp [onEtf, Op.done]) d
  have hflush (d : Devices n m) :
      doneAll (if d₀.etr then [plain ans .flush false] else []) d = d := by
    cases d₀.etr <;> rfl
  unfold disableTraceSinksOnly
  simp only [doneAll_append, hflush, hetf]
  cases c.etmCycledPerWindow with
  | true =>
    rw [if_pos rfl, if_pos rfl, hetm]
    simp [onEtr, Op.done]
  | false => simp [onEtr, Op.done]

/-! ### Where they look at the count -/

theorem enableCsTrace_tested (s : State n m) (pid : ℤ) : Tested (enableCsTrace c s pid ans) := by
  unfold enableCsTrace
  split
  · split
    · exact Tested.append ⟨_, rfl⟩ _
    · rw [List.append_nil]
      exact Tested.append ⟨_, rfl⟩ _
  · exact ⟨_, rfl⟩

theorem disableTraceSinksOnly_tested (d : Devices n m) :
    Tested (disableTraceSinksOnly ans c d) := ⟨_, rfl⟩

/-- **What an enable leaves** where it returns without an error. -/
theorem enableCsTrace_done (s : State n m) (pid : ℤ) (d : Devices n m) :
    doneAll (enableCsTrace c s pid ans) d =
      { etr := true
        bypass := c.stalker
        etf := fun _ => true
        etm := if s.isFirstTrace || c.etmCycledPerWindow then fun _ => true else d.etm } := by
  unfold enableCsTrace
  cases s.isFirstTrace with
  | true =>
    rw [if_pos rfl, doneAll_append, doneAll_append, configureTrace_done, enableTrace_done]
    cases s.currentBbMode with
    | true =>
      rw [if_pos rfl, setEtmBbMode_done]
      rfl
    | false => rfl
  | false =>
    rw [if_neg Bool.false_ne_true, enableTraceSinksOnly_done]
    rfl

end Done

/-! ### What they keep -/

/-- Where a window does not cycle the ETMs, disabling leaves them alone, also where it
fails. -/
theorem disable_etm {c : Config} (hcycled : c.etmCycledPerWindow = false)
    (ans : Site n m → Answer) (d : Devices n m) (k : ℕ) :
    (perform (disableTraceSinksOnly ans c d) k d).state.etm = d.etm := by
  refine perform_invariant (I := fun t : Devices n m => t.etm = d.etm) ?_ rfl
  rintro op hop checked o done left rfl t ht
  simp only [disableTraceSinksOnly, hcycled, Bool.false_eq_true, if_false, List.append_nil,
    List.mem_append, List.mem_flatMap, List.mem_singleton] at hop
  rcases hop with ((hop | ⟨j, -, hop⟩) | hop) | hop
  · split at hop
    · obtain ⟨⟩ := List.mem_singleton.mp hop
      exact ⟨ht, ht⟩
    · cases hop
  · cases hop
    exact ⟨ht, ht⟩
  · cases hop
    exact ⟨ht, ht⟩
  · cases hop

/-- The branch-broadcast mode is no matter of the sinks. -/
theorem setBbMode_sinks (ans : Site n m → Answer) (k : ℕ) (d : Devices n m) :
    (perform (setEtmBbMode ans) k d).state.etr = d.etr ∧
      (perform (setEtmBbMode ans) k d).state.etf = d.etf := by
  refine perform_invariant (I := fun t : Devices n m => t.etr = d.etr ∧ t.etf = d.etf) ?_ ⟨rfl, rfl⟩
  rintro op hop checked o done left rfl t ht
  simp only [setEtmBbMode, List.mem_append, List.mem_flatMap, List.mem_cons, List.not_mem_nil,
    or_false] at hop
  rcases hop with ⟨i, -, hop | hop⟩ | hop
  · cases hop
    exact ⟨ht, ht⟩
  · cases hop
    exact ⟨ht, ht⟩
  · cases hop

/-- Everything that is needed is on. -/
structure Armed (c : Config) (d : Devices n m) : Prop where
  etr : d.etr = true
  formatter : d.bypass = c.stalker
  etf : ∀ j, d.etf j = true
  etm : ∀ i, d.etm i = true

/-- What holds between the calls. -/
structure Consistent (c : Config) (s : State n m) : Prop where
  opened : s.window = .opened → Armed c s.dev ∧ s.isFirstTrace = false
  closed : s.window = .closed → s.traceEverConfigured = true →
    s.dev.etr = false ∧ ∀ j, s.dev.etf j = false
  cycled : s.window = .closed → s.isFirstTrace = false → c.etmCycledPerWindow = true →
    ∀ i, s.dev.etm i = false
  /-- ETMs that no window cycles stay enabled from the first one on. -/
  running : s.window ≠ .down → s.isFirstTrace = false → c.etmCycledPerWindow = false →
    ∀ i, s.dev.etm i = true

section Steps

variable {c : Config} {s : State n m}

theorem Consistent.setBbMode (h : Consistent c s) (hen : s.window ≠ .opened) (bbMode : Bool)
    (ans : Site n m → Answer) : Consistent c (effect c s (.setBbMode bbMode ans)) := by
  refine ⟨fun hopen => absurd hopen hen, ?_, fun _ => by rintro ⟨⟩, fun _ => by rintro ⟨⟩⟩
  intro hclosed hever
  change s.traceEverConfigured = true at hever
  obtain ⟨hetr, hetf⟩ := setBbMode_sinks ans s.errorCount s.dev
  change (perform (if s.traceEverConfigured then setEtmBbMode ans else []) _ _).state.etr = false ∧
    ∀ j, (perform (if s.traceEverConfigured then setEtmBbMode ans else []) _ _).state.etf j = false
  rw [if_pos hever, hetr, hetf]
  exact h.closed hclosed hever

theorem Consistent.enable (h : Consistent c s) (hen : s.window ≠ .down) (pid : ℤ)
    (ans : Site n m → Answer) : Consistent c (effect c s (.enable pid ans)) := by
  unfold effect
  dsimp only
  split
  · next hok =>
    have hdone := (enableCsTrace_tested ans c s pid).perform_eq hok
    rw [enableCsTrace_done] at hdone
    have hetm (i : Fin n) :
        (if s.isFirstTrace || c.etmCycledPerWindow then fun _ => true else s.dev.etm) i = true := by
      by_cases hor : (s.isFirstTrace || c.etmCycledPerWindow) = true
      · rw [if_pos hor]
      · rw [if_neg hor]
        rw [Bool.not_eq_true, Bool.or_eq_false_iff] at hor
        exact h.running hen hor.1 hor.2 i
    rw [hdone]
    refine ⟨fun _ => ⟨⟨rfl, rfl, fun _ => rfl, hetm⟩, rfl⟩, ?_, ?_, fun _ _ _ => hetm⟩
    · rintro ⟨⟩
    · rintro ⟨⟩
  · refine ⟨?_, ?_, ?_, fun hno => absurd rfl hno⟩
    all_goals rintro ⟨⟩

theorem Consistent.disable (h : Consistent c s) (hen : s.window ≠ .down)
    (ans : Fin traceDisableTrial → Site n m → Answer) :
    Consistent c (effect c s (.disable ans)) := by
  -- the trials leave ETMs alone that a window does not cycle
  have hkeep : ∀ f ∈ disableCsTrace c ans, ∀ k (d : Devices n m),
      (c.etmCycledPerWindow = false → d.etm = s.dev.etm) →
      c.etmCycledPerWindow = false → (perform (f d) k d).state.etm = s.dev.etm := by
    intro f hf k d hd hcycled
    obtain ⟨t, -, rfl⟩ := List.mem_map.mp hf
    rw [disable_etm hcycled]
    exact hd hcycled
  unfold effect
  dsimp only
  split
  · next hok =>
    obtain ⟨f, hf, k, d, hd, hfok, heq⟩ := attempt_ok
      (I := fun d => c.etmCycledPerWindow = false → d.etm = s.dev.etm) hkeep (fun _ => rfl) hok
    obtain ⟨t, -, rfl⟩ := List.mem_map.mp hf
    have hdone := (disableTraceSinksOnly_tested (ans t) c d).perform_eq hfok
    rw [disableTraceSinksOnly_done] at hdone
    rw [heq, hdone]
    refine ⟨?_, fun _ _ => ⟨rfl, fun _ => rfl⟩, ?_, ?_⟩
    · rintro ⟨⟩
    · intro _ _ hcycled i
      change (if c.etmCycledPerWindow then fun _ => false else d.etm) i = false
      rw [if_pos hcycled]
    · intro _ hfirst hcycled i
      change (if c.etmCycledPerWindow then fun _ => false else d.etm) i = true
      rw [hcycled, if_neg Bool.false_ne_true, hd hcycled]
      exact h.running hen hfirst hcycled i
  · refine ⟨?_, ?_, ?_, ?_⟩
    · rintro ⟨⟩
    · rintro ⟨⟩
    · rintro ⟨⟩
    · intro _ hfirst hcycled i
      have hetm := attempt_invariant
        (I := fun d => c.etmCycledPerWindow = false → d.etm = s.dev.etm) hkeep
        (k := s.errorCount) (s := s.dev) (fun _ => rfl) hcycled
      change (attempt (disableCsTrace c ans) s.errorCount s.dev).state.etm i = true
      rw [hetm]
      exact h.running hen hfirst hcycled i

end Steps

theorem consistent_of_reachable {c : Config} {s : State n m}
    (hs : (sinkSystem c n m).machine.Reachable s) : Consistent c s := by
  refine Guarded.invariant hs ?_ ?_
  · rintro s ⟨hfirst, hever, -, hwindow⟩
    refine ⟨?_, ?_, ?_, ?_⟩
    · rw [hwindow]
      rintro ⟨⟩
    · rw [hever]
      intro _
      rintro ⟨⟩
    · rw [hfirst]
      intro _
      rintro ⟨⟩
    · rw [hfirst]
      intro _
      rintro ⟨⟩
  · intro s l h hen
    cases l with
    | setBbMode bbMode ans =>
      refine h.setBbMode (fun hopen => ?_) bbMode ans
      change (s.window == .closed || s.window == .unsure) = true at hen
      rw [hopen] at hen
      cases hen
    | enable pid ans =>
      refine h.enable (fun hdown => ?_) pid ans
      change (s.window == .closed || s.window == .unsure) = true at hen
      rw [hdown] at hen
      cases hen
    | disable ans => exact h.disable (bne_iff_ne.mp hen) ans
    | other errors => exact ⟨h.opened, h.closed, h.cycled, h.running⟩
    | leave =>
      have hopen : s.window = .opened := beq_iff_eq.mp hen
      refine ⟨?_, ?_, ?_, fun _ => h.running (by rw [hopen]; rintro ⟨⟩)⟩
      all_goals rintro ⟨⟩

/-- Answers that count nothing. -/
theorem disable_clean {ans : Site n m → Answer} (h : ∀ site, (ans site).outcome.errors = 0)
    (c : Config) (d : Devices n m) : Clean (disableTraceSinksOnly ans c d) := by
  intro op hop
  simp only [disableTraceSinksOnly, List.mem_append, List.mem_flatMap, List.mem_singleton] at hop
  rcases hop with (((hop | hop) | ⟨j, -, rfl⟩) | rfl) | rfl
  · split at hop
    · obtain rfl := List.mem_singleton.mp hop
      exact h .flush
    · cases hop
  · split at hop
    · obtain ⟨i, -, hop⟩ := List.mem_flatMap.mp hop
      obtain rfl := List.mem_singleton.mp hop
      exact h (.traceDisable i)
    · cases hop
  · exact h (.hwFifoDisable j)
  · exact h .etrDisable
  · rfl

/-- Disabling leaves no error counted, whether it succeeds or not. -/
theorem disable_errorCount (c : Config) (s : State n m)
    (ans : Fin traceDisableTrial → Site n m → Answer) :
    (effect c s (.disable ans)).errorCount = 0 := by
  unfold effect
  dsimp only
  split
  · next hok =>
    obtain ⟨f, hf, k, d, -, hfok, heq⟩ :=
      attempt_ok (I := fun _ => True) (fun _ _ _ _ _ => trivial) trivial hok
    obtain ⟨t, -, rfl⟩ := List.mem_map.mp hf
    rw [heq, (disableTraceSinksOnly_tested (ans t) c d).perform_eq hfok]
  · rfl

/-- **The sinks of a run in which any call may fail.** While a window is open, the ETR, every
ETF and every ETM are on, and the formatter is off exactly in the Stalker build; while it is
closed, the sinks are off. A window opens exactly if no error is counted, by whatever call,
between the last disabling and the end of the enable; and it is closed if a trial but the
first counts none. -/
theorem sinks_armed (c : Config) {s : State n m} (hs : (sinkSystem c n m).machine.Reachable s) :
    (s.window = .opened → Armed c s.dev) ∧
      (s.window = .closed → s.traceEverConfigured = true →
        s.dev.etr = false ∧ ∀ j, s.dev.etf j = false) ∧
      (∀ pid ans, (effect c s (.enable pid ans)).window = .opened ↔
        s.errorCount = 0 ∧ Clean (enableCsTrace c s pid ans)) ∧
      ∀ ans, (effect c s (.disable ans)).errorCount = 0 ∧
        ((∃ t : Fin traceDisableTrial, 0 < t.val ∧ ∀ site, (ans t site).outcome.errors = 0) →
          (effect c s (.disable ans)).window = .closed) := by
  have h := consistent_of_reachable hs
  refine ⟨fun hopen => (h.opened hopen).1, h.closed, ?_,
    fun ans => ⟨disable_errorCount c s ans, ?_⟩⟩
  · intro pid ans
    rw [← (enableCsTrace_tested ans c s pid).perform_iff (s := s.dev)]
    unfold effect
    dsimp only
    split
    · next hok => simp [hok]
    · next hok => simp [hok]
  · rintro ⟨t, ht, hclean⟩
    have hlater (t : Fin traceDisableTrial) (ht : 0 < t.val) :
        t ∈ (List.finRange traceDisableTrial).tail := by
      revert t
      decide
    have htail : disableTraceSinksOnly (ans t) c ∈ (disableCsTrace c ans).tail := by
      unfold disableCsTrace
      rw [← List.map_tail]
      exact List.mem_map_of_mem (hlater t ht)
    have hok := attempt_of_clean htail (fun d => disable_clean hclean c d) s.errorCount s.dev
    unfold effect
    dsimp only
    rw [if_pos hok]

/-- A call that does what it is asked to. -/
def works : Answer := ⟨⟨false, 0, by rintro ⟨⟩⟩, false⟩

/-- A call that fails and leaves its device on. -/
def fails : Answer := ⟨⟨true, 1, fun _ => Nat.one_pos⟩, true⟩

/-- One CPU and one ETF, in the build that leaves the ETMs running. -/
def afterInit : State 1 1 :=
  ⟨⟨true, true, fun _ => true, fun _ => false⟩, 0, true, false, false, .closed⟩

/-- The polling counts an error, and the ETF is disabled at the third trial. The next window
is armed, with the ETM of the first; but an error in front of it keeps it from opening. -/
theorem sinks_armed_retried :
    let c : Config := ⟨false, false⟩
    let s := (sinkSystem c 1 1).run afterInit
      [.enable 100 fun _ => works, .other 1,
        .disable fun t site => if t.val = 1 ∧ site = .hwFifoDisable 0 then fails else works,
        .enable 101 fun _ => works]
    Armed c s.dev ∧
      (effect c (effect c (effect c s (.disable fun _ _ => works)) (.other 1))
        (.enable 102 fun _ => works)).window ≠ .opened := by
  intro c s
  have hs : (sinkSystem c 1 1).machine.Reachable s :=
    Guarded.reachable_of_applicable (.of_init ⟨rfl, rfl, rfl, rfl⟩) (by decide +kernel)
  refine ⟨(sinks_armed c hs).1 (by decide +kernel), ?_⟩
  have hnext : (sinkSystem c 1 1).machine.Reachable
      ((sinkSystem c 1 1).run s [.disable fun _ _ => works, .other 1]) :=
    Guarded.reachable_of_applicable hs (by decide +kernel)
  intro hopen
  have hcount := (((sinks_armed c hnext).2.2.1 102 fun _ => works).mp hopen).1
  exact absurd hcount (by decide +kernel)

end Sinks
end CsTrace
