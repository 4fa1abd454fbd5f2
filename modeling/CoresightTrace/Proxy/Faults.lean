import CoresightTrace.Proxy.Protocol

/-!
# Calls that fail

The machine of `Proxy/Protocol.lean` over the extended alphabet `Label ⊕ Fault`: a
fault is a call of the proxy that fails, or a child of the forkserver that does
not reach its first `SIGSTOP`. What a failed call leads to depends on where it
stands.

* In `__afl_next_testcase()` it is a return value. The function is declared
  `u32` and returns 1 or -1 where it fails, and `main()` goes on while the
  value is greater than 0 (`FSys.returned`).
* In a calibration run it is reported as an overflow, so it ends the ramp, with
  the frequency not lifted again.
* Anywhere else `main()` returns, and a failed `trace_set_bb_mode()` within
  `__afl_next_testcase()` ends the process.

Every failure of `__afl_next_testcase()` is therefore taken for a test case
(`failure_enters_loop`): the proxy waits for the status of a child and goes through
`stop_trace()`, and when a status comes it writes it to AFL++, as in
`status_without_pid`.

Unlike in `Proxy/Protocol.lean`, a child may end before it was continued. The
fields under "history" are read by no step.
-/

namespace CsTrace
namespace CsProxy

open Governor

/-! ### The extended alphabet -/

/-- What fails in a step, with the word it has read before. -/
inductive Fault where
  /-- The read of a request. -/
  | readRequest
  /-- The write that hands the request on. -/
  | forward
  /-- The read of the child's pid that answers it. -/
  | handed
  /-- `init_trace()`, on the first request. -/
  | initTrace (w : Word)
  /-- `fork_fresh_child()`: the write of the token. -/
  | fork (t : Task)
  /-- `fork_fresh_child()`: the read of the pid. -/
  | forked (t : Task)
  /-- The write of the pid to AFL++. -/
  | report
  /-- `kill(child_pid, SIGCONT)`. -/
  | cont (t : Task)
  /-- The read of a status. -/
  | readStatus (t : Task)
  /-- `stop_trace()`. -/
  | finish (t : Task)
  /-- The write of the status to AFL++. -/
  | endTestcase
  /-- `trace_set_bb_mode()`, or the allocation of the sample's map. -/
  | abort
  /-- The forkserver's child ends or stops with another status before its first
  `SIGSTOP`. -/
  | early (status : Raw)

/-- The steps of the machine. -/
abbrev FLabel := Label ⊕ Fault

/-- A state of the three parties, and whether the proxy has ended. -/
structure FSys where
  sys : Sys
  ended : Bool
  /-- History: the word last read as a pid. -/
  word : Option Word
  /-- History: the attempt under way, or last made, is the forced one. -/
  forced : Bool

/-- The parties before the first request. -/
def FSys.initial (cfg : Config) (policy : CpuPolicy) : FSys where
  sys := .initial cfg policy
  ended := false
  word := none
  forced := false

/-! ### Guards -/

/-- The step is one of the proxy. -/
def Label.ofProxy : Label → Bool
  | .ask _ | .fsFork _ | .fsWritePid | .relay _ => false
  | _ => true

/-- A word `wait()` may give: no ptrace event, whose bits are higher. -/
def isWaitStatus (status : Raw) : Bool :=
  decide (status.toNat < 65536)

/-- Where the fault can happen. -/
def Fault.site (s : Sys) : Fault → Bool
  | .readRequest => s.proxy.pc == .request
  | .forward => s.proxy.pc == .forward
  | .handed => s.proxy.pc == .handed
  | .initTrace w => s.proxy.pc == .handed && s.proxy.firstRun && s.st.head? == some w
  | .fork t => s.proxy.pc == .fork t
  | .forked t => s.proxy.pc == .forked t
  | .report => s.proxy.pc == .report
  | .cont t => s.proxy.pc == .cont t
  | .readStatus t => s.proxy.pc == .wait t
  | .finish t => s.proxy.pc == .finish t
  | .endTestcase => s.proxy.pc == .endTestcase
  | .abort =>
    match s.proxy.pc with
    | .handed | .finish _ | .verdict => true
    | _ => false
  | .early status => s.fs == .writePid && !sigstopped status && isWaitStatus status

/-- Whether the label's step can be taken. -/
def FSys.enabled (s : FSys) : FLabel → Bool
  -- the child may end before it was continued
  | .inl (.relay status) => s.sys.fs == .relay && isWaitStatus status
  | .inl l => CsProxy.enabled s.sys l && !(l.ofProxy && s.ended)
  | .inr (.early status) => Fault.site s.sys (.early status)
  | .inr f => Fault.site s.sys f && !s.ended

theorem FSys.pc_of_enabled {s : FSys} {l : Label} {pc : Pc} (hen : s.enabled (.inl l) = true)
    (hl : l.site? = some pc) : s.sys.proxy.pc = pc := by
  cases l with
  | ask | fsFork | fsWritePid | relay => exact absurd hl (Option.some_ne_none pc).symm
  | _ => exact CsProxy.pc_of_enabled (Bool.and_eq_true_iff.mp hen).1 hl

/-- Where the proxy is when a call of it fails; `none` for the faults of the others, and for
the checks that are made in several places. -/
def Fault.site? : Fault → Option Pc
  | .readRequest => some .request
  | .forward => some .forward
  | .handed | .initTrace _ => some .handed
  | .fork t => some (.fork t)
  | .forked t => some (.forked t)
  | .report => some .report
  | .cont t => some (.cont t)
  | .readStatus t => some (.wait t)
  | .finish t => some (.finish t)
  | .endTestcase => some .endTestcase
  | .abort | .early _ => none

theorem FSys.pc_of_fault {s : FSys} {f : Fault} {pc : Pc} (hen : s.enabled (.inr f) = true)
    (hf : f.site? = some pc) : s.sys.proxy.pc = pc := by
  cases f with
  | abort | early => exact absurd hf (Option.some_ne_none pc).symm
  | initTrace w =>
    obtain ⟨hsite, -⟩ := Bool.and_eq_true_iff.mp (Bool.and_eq_true_iff.mp hen).1
    rw [← Option.some.inj hf]
    exact beq_iff_eq.mp (Bool.and_eq_true_iff.mp hsite).1
  | _ =>
    rw [← Option.some.inj hf]
    exact beq_iff_eq.mp (Bool.and_eq_true_iff.mp hen).1

/-! ### Effects -/

/-- The proxy of the state is changed. -/
def FSys.setProxy (s : FSys) (p : Proxy) : FSys :=
  { s with sys := { s.sys with proxy := p } }

/-- The proxy has ended. -/
def FSys.stop (s : FSys) : FSys :=
  { s with ended := true }

/-- The head of the loop body of `main()`: its variables are set up, and it waits
for the child. -/
def Proxy.enterLoop (p : Proxy) : Proxy :=
  { p with curRepetitionNum := 0, forcedMinDone := false, pc := .wait (.attempt true) }

/-- `while (__afl_next_testcase() > 0)`, for a value returned as `u32`. -/
def FSys.returned (s : FSys) (ret : Raw) : FSys :=
  if 0#32 < ret then s.setProxy s.sys.proxy.enterLoop else s.stop

/-- The child of a run cannot be had or continued. A ramp takes it for an overflow. -/
def FSys.failStart (cfg : Config) (s : FSys) : Task → FSys
  | .calibrate _ i again => s.setProxy (s.sys.proxy.endRamp cfg again (i + 1))
  | .attempt true => s.returned (-1)
  | .attempt false | .confirm | .sample => s.stop

/-- `wait_for_child_and_stop_trace()` fails. -/
def FSys.failRun (cfg : Config) (s : FSys) : Task → FSys
  | .calibrate _ i again => s.setProxy (s.sys.proxy.endRamp cfg again (i + 1))
  | .attempt _ | .confirm | .sample => s.stop

/-- A word is read as a pid. -/
def FSys.take (s : FSys) (w : Word) : FSys :=
  { s with
    sys := { s.sys with st := s.sys.st.tail, held := w.child }
    word := some w }

/-- The outcome of an attempt decides whether the next one is the forced one. -/
def FSys.forces (cfg : Config) (s : FSys) (t : Task) (didOverflow : Bool) : Bool :=
  match t with
  | .attempt _ =>
    (endAttempt s.sys.proxy.gov cfg.currentFreqMode s.sys.proxy.curRepetitionNum
      s.sys.proxy.forcedMinDone (cfg.decodingOn && didOverflow)).2 == .forceMin
  | _ => s.forced

/-- A step in which no call fails. -/
def FSys.proceed (cfg : Config) (s : FSys) (l : Label) : FSys :=
  let t := { s with sys := effect cfg s.sys l }
  match l with
  | .handed _ w => { t with word := some w, forced := false }
  -- a negative pid is a failure of `fork_fresh_child()`
  | .forked task w =>
    if w.val.toInt < 0 then (s.take w).failStart cfg task else { t with word := some w }
  -- the pid is what `__afl_next_testcase()` returns
  | .cont (.attempt true) => if 0#32 < s.sys.proxy.childPid then t else t.stop
  | .finish task o => { t with forced := s.forces cfg task o }
  | _ => t

/-- The state the label's step leads to. -/
def FSys.effect (cfg : Config) (s : FSys) : FLabel → FSys
  | .inl l => s.proceed cfg l
  | .inr .readRequest => s.returned 1
  | .inr .forward | .inr .handed | .inr .report => s.returned (-1)
  | .inr (.initTrace w) =>
    ((s.take w).setProxy { s.sys.proxy with childPid := w.val }).returned (-1)
  | .inr (.fork t) | .inr (.forked t) | .inr (.cont t) => s.failStart cfg t
  | .inr (.readStatus t) | .inr (.finish t) => s.failRun cfg t
  | .inr .endTestcase | .inr .abort => s.stop
  | .inr (.early status) =>
    { s with
      sys :=
        { s.sys with
          st := s.sys.st ++ [⟨status, false, s.sys.forks⟩]
          fs := .token
          terminal := Function.update s.sys.terminal s.sys.forks (some status) } }

/-- The proxy under `cfg`, with AFL++ and the forkserver, when calls may fail. -/
def faultSystem (cfg : Config) : Guarded FSys FLabel where
  init s := ∃ policy, s = .initial cfg policy
  enabled := FSys.enabled
  effect := FSys.effect cfg

/-! ### What a fault leaves alone -/

/-- A failed call changes the proxy's own state at most. -/
structure FSys.ProxyOnly (s t : FSys) : Prop where
  sys : t.sys = { s.sys with proxy := t.sys.proxy }
  word : t.word = s.word
  forced : t.forced = s.forced

theorem returned_proxyOnly (s : FSys) (ret : Raw) : s.ProxyOnly (s.returned ret) := by
  unfold FSys.returned
  split
  · exact ⟨rfl, rfl, rfl⟩
  · exact ⟨rfl, rfl, rfl⟩

theorem failStart_proxyOnly (cfg : Config) (s : FSys) (t : Task) :
    s.ProxyOnly (s.failStart cfg t) := by
  unfold FSys.failStart
  split
  · exact ⟨rfl, rfl, rfl⟩
  · exact returned_proxyOnly s (-1)
  all_goals exact ⟨rfl, rfl, rfl⟩

theorem failRun_proxyOnly (cfg : Config) (s : FSys) (t : Task) :
    s.ProxyOnly (s.failRun cfg t) := by
  unfold FSys.failRun
  split <;> exact ⟨rfl, rfl, rfl⟩

/-! ### Failures of `__afl_next_testcase()` -/

/-- The step is one in which `__afl_next_testcase()` fails. -/
def FLabel.failsNext : FLabel → Bool
  | .inr .readRequest | .inr .forward | .inr .handed | .inr (.initTrace _) | .inr .report => true
  | .inr (.fork t) | .inr (.forked t) | .inr (.cont t) => t == .attempt true
  | .inl (.forked t w) => t == .attempt true && decide (w.val.toInt < 0)
  | _ => false

/-- Both values `__afl_next_testcase()` returns where it fails are greater than 0. -/
theorem returned_of_fails {s : FSys} {ret : Raw} (h : ret = 1 ∨ ret = -1) :
    s.returned ret = s.setProxy s.sys.proxy.enterLoop := by
  have hpos : 0#32 < ret := by
    rcases h with rfl | rfl <;> decide
  unfold FSys.returned
  rw [if_pos hpos]

/-- The replacement child of the first attempt cannot be had, or not continued. -/
theorem failStart_attempt (cfg : Config) (s : FSys) :
    s.failStart cfg (.attempt true) = s.setProxy s.sys.proxy.enterLoop :=
  returned_of_fails (.inr rfl)

/-- The proxy is in the body of its loop, about to wait for a child. -/
def FSys.Waits (s : FSys) : Prop :=
  s.ended = false ∧ s.sys.proxy.pc = .wait (.attempt true)

/-- A failure enters the loop body, and changes nothing AFL++ sees. -/
theorem effect_of_failsNext (cfg : Config) {s : FSys} {l : FLabel} (hl : l.failsNext = true) :
    ∃ t : FSys, s.effect cfg l = t.setProxy t.sys.proxy.enterLoop ∧ t.ended = s.ended ∧
      t.sys.outer = s.sys.outer := by
  rcases l with l | f
  · cases l with
    | forked task w =>
      obtain ⟨htask, hneg⟩ : task = .attempt true ∧ w.val.toInt < 0 := by
        simpa [FLabel.failsNext] using hl
      refine ⟨s.take w, ?_, rfl, rfl⟩
      rw [htask]
      simp only [FSys.effect, FSys.proceed, if_pos hneg]
      exact failStart_attempt cfg _
    | _ => cases hl
  · cases f with
    | readRequest => exact ⟨s, returned_of_fails (.inl rfl), rfl, rfl⟩
    | forward | handed | report => exact ⟨s, returned_of_fails (.inr rfl), rfl, rfl⟩
    | initTrace w => exact ⟨_, returned_of_fails (.inr rfl), rfl, rfl⟩
    | fork task | forked task | cont task =>
      obtain rfl : task = .attempt true := by simpa [FLabel.failsNext] using hl
      exact ⟨s, failStart_attempt cfg s, rfl, rfl⟩
    | _ => cases hl

/-- The body of the loop is entered. -/
theorem failure_waits (cfg : Config) {s : FSys} {l : FLabel} (hen : s.enabled l = true)
    (hl : l.failsNext = true) : (s.effect cfg l).Waits := by
  obtain ⟨t, heq, hended, -⟩ := effect_of_failsNext cfg (s := s) hl
  have hrunning : s.ended = false := by
    rcases l with l | f
    · cases l with
      | forked => simpa [Label.ofProxy] using (Bool.and_eq_true_iff.mp hen).2
      | _ => cases hl
    · cases f with
      | early => cases hl
      | _ => simpa using (Bool.and_eq_true_iff.mp hen).2
  rw [heq]
  exact ⟨hended.trans hrunning, rfl⟩

/-- **Every failure is taken for a test case.** Whatever the state of the proxy and
wherever `__afl_next_testcase()` fails, `main()` enters the body of its loop and
waits for a child, and on the first status that is no stop by `SIGSTOP` it calls
`stop_trace()`. -/
theorem failure_enters_loop (cfg : Config) (s : FSys) (l : FLabel) (hen : s.enabled l = true)
    (hl : l.failsNext = true) :
    (s.effect cfg l).Waits ∧ (s.effect cfg l).sys.outer = s.sys.outer ∧
      ∀ w, sigstopped w.val = false →
        ((s.effect cfg l).effect cfg (.inl (.readStatus (.attempt true) w))).sys.proxy.pc =
          .finish (.attempt true) := by
  obtain ⟨t, heq, -, houter⟩ := effect_of_failsNext cfg (s := s) hl
  refine ⟨failure_waits cfg hen hl, ?_, ?_⟩
  · rw [heq]
    exact houter
  · intro w hw
    simp [FSys.effect, FSys.proceed, CsProxy.effect, hw]

/-- Path coverage with the decoder on and no calibration. -/
def plainConfig : Config :=
  ⟨.path, true, false, 0, false⟩

/-- AFL++ has closed the pipe: the read of the first request fails. -/
theorem failure_enters_loop_closed :
    let s := FSys.initial plainConfig ⟨600, 1200, 0, "schedutil"⟩
    (s.effect plainConfig (.inr .readRequest)).Waits ∧
      (s.effect plainConfig (.inr .readRequest)).sys.outer = [] := by
  intro s
  obtain ⟨hwaits, houter, -⟩ := failure_enters_loop plainConfig s (.inr .readRequest) rfl rfl
  exact ⟨hwaits, houter⟩

/-- **A status without a pid.** `init_trace()` fails on the first request, whose child
is then killed: AFL++ is sent the status of a child it was not told of. -/
theorem status_without_pid :
    ∃ s, (faultSystem plainConfig).machine.Reachable s ∧
      s.sys.received = 1 ∧ s.sys.pidOf 1 = 10 ∧ s.sys.outer = [9] ∧ s.ended = false := by
  refine ⟨(faultSystem plainConfig).run
    (.initial plainConfig ⟨600, 1200, 0, "schedutil"⟩)
    [.inl (.ask 0), .inl (.readRequest 0), .inl .forward, .inl (.fsFork 10), .inl .fsWritePid,
      .inr (.initTrace ⟨10, true, 1⟩), .inl (.relay 9),
      .inl (.readStatus (.attempt true) ⟨9, false, 1⟩), .inl (.finish (.attempt true) false),
      .inl .endTestcase], ?_, ?_⟩
  · exact Guarded.reachable_of_applicable (.of_init ⟨_, rfl⟩) (by decide +kernel)
  · decide +kernel

end CsProxy
end CsTrace
