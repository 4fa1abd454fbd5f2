import CoresightTrace.Framework.Guarded
import CoresightTrace.Hybrid.Maps

/-!
# The proxy's two threads, its child and the forkserver

`common.c` traces one execution after the other with two threads. The main
thread calls `start_trace()`, resumes the child, reads its statuses from the
forkserver and calls `stop_trace()`. The decoder thread sleeps until an
execution has started, polls the child while it runs, drains the trace buffer
when it fills up, and decodes the rest once the trace is stopped. They meet in
three event flags, in `decoder_ready` and in the trace sinks.

The model is a guarded machine. A step is one mutex section, system call or
CSAL call of a thread, with the plain code up to the next one; its label
carries what the environment answered: whether a call failed, which status was
read, what a decode pass did to the map. Three kinds of step belong to the
child and the forkserver.

* The front end is `cs-proxy`, with `decoding_on`. It never calls
  `fini_trace()`, so `fini_pending` stays clear and is left out.
* `trace_state` is written and never read, and is left out, as are the trace
  buffer and the contents of the trace: what a decode pass does is a function
  on the map, chosen by the environment.
* A `kill()` may return anything. `Lawful` says what a kernel that reuses no
  pid returns; the counterexamples of the development are lawful runs.
* `start_and_resume()` ignores the result of `start_trace()`, and a failure of
  its `kill()` is taken as the call site takes it (`Kind`).
* A failed read or write of a pipe ends the proxy, and is left out.

The fields under "history" are read by no step.
-/

namespace CsTrace
namespace Threads

open Hybrid (CovMap)

/-! ### Values -/

/-- The trace decoder the proxy is built with (`AFLCS_STALKER_DECODER`). -/
inductive Build where
  | stalker
  | coresight
deriving DecidableEq, Repr

/-- The call sites of `start_and_resume()`: the first attempt of a test case,
`retry_child()`, and a calibration run. -/
inductive Kind where
  | first
  | retry
  | calibration
deriving DecidableEq, Repr

/-- `SIGSTOP`. -/
def sigstop : ℕ := 19

/-- A wait status. -/
inductive Status where
  | exited (code : ℕ)
  | signaled (sig : ℕ)
  | stopped (sig : ℕ)
deriving DecidableEq, Repr

/-- `WIFSTOPPED(status) && WSTOPSIG(status) == SIGSTOP`. -/
def Status.isSigstop : Status → Bool
  | .stopped sig => sig == sigstop
  | _ => false

/-- The status is of a terminated process. -/
def Status.isTermination : Status → Bool
  | .stopped _ => false
  | _ => true

/-- What `kill()` returns. -/
inductive KillResult where
  | ok
  | esrch
  | error
deriving DecidableEq, Repr

/-- The process the proxy takes for its child. It is foreign when the word read
as its pid was none. -/
inductive Child where
  | foreign
  | running
  | stopped (sig : ℕ) (reported : Bool)
  | zombie (st : Status)
  | gone
deriving DecidableEq, Repr

/-- The child after `SIGCONT`. A stop not yet reported is lost. -/
def Child.cont : Child → Child
  | .stopped _ _ => .running
  | c => c

/-- The child can run or be continued. -/
def Child.alive : Child → Bool
  | .running | .stopped _ _ => true
  | _ => false

/-- The status the forkserver can reap. -/
def Child.waitable : Child → Option Status
  | .stopped sig false => some (.stopped sig)
  | .zombie st => some st
  | _ => none

/-- The child after the forkserver has reaped its status. -/
def Child.reaped : Child → Child
  | .stopped sig _ => .stopped sig true
  | .zombie _ => .gone
  | c => c

/-- What `kill()` returns for the child, when no pid is reused. -/
def Child.killable : Child → KillResult → Bool
  | .foreign, r => r != .error
  | .gone, r => r == .esrch
  | _, r => r == .ok

/-- The last call that was applied to the trace sinks. -/
inductive SinkOp where
  | enable
  | disable
deriving DecidableEq, Repr

/-- A decode pass: what it did to the map, and whether it met an overflow. -/
structure Pass (n : ℕ) where
  apply : CovMap n → CovMap n
  overflow : Bool

/-! ### Program counters -/

/-- Where the main thread is. -/
inductive MainPc where
  /-- No execution has started, or the last one was not stopped. -/
  | idle
  /-- `start_trace()`: `set_cpu_affinity()`. -/
  | affinity
  /-- `alloc_trace_buf()` and the `memset()`. -/
  | clear
  /-- `decoder_ready = false`. -/
  | arm
  /-- `reset_decoder()`. -/
  | reset
  /-- `enable_cs_trace()`. -/
  | enable
  /-- `signal_event(&start_pending)`. -/
  | signalStart
  /-- `start_and_resume()`: the pid is reported and the child is continued. -/
  | resume
  /-- `wait_for_child_and_stop_trace()`: the status is read. -/
  | waiting
  /-- `trace_suspend_resume_callback()`. -/
  | suspendCb
  /-- `trace_child_exited_callback()`. -/
  | exitCb
  /-- `stop_trace()`: `disable_cs_trace()`. -/
  | disable
  /-- `signal_event(&stop_pending)`. -/
  | signalStop
  /-- The wait for `decoder_ready`. -/
  | join
  /-- `stop_trace()` has returned 0. -/
  | stopped
  /-- `main()` has returned. -/
  | halted
deriving DecidableEq, Repr

/-- Where the decoder thread is. -/
inductive DecPc where
  /-- `decoder_worker()`: `wait_event(&start_pending)`. -/
  | idle
  /-- `trace_sink_polling()`: `decoder_ready = false`. -/
  | entry
  /-- `kill(child_pid, 0)`. -/
  | poll
  /-- The comparison with the drain threshold. -/
  | check
  /-- `kill(child_pid, SIGSTOP)`. -/
  | sendStop
  /-- `wait_event(&suspend_pending)`. -/
  | waitSuspend
  /-- The drain's `disable_cs_trace()`. -/
  | drainDisable
  /-- The drain's `fetch_trace()`. -/
  | drainFetch
  /-- The drain's `enable_cs_trace()`. -/
  | drainEnable
  /-- `kill(child_pid, SIGCONT)`. -/
  | sendCont
  /-- The drain's `decode_trace()`. -/
  | drainDecode
  /-- The label `killed`: `wait_event(&stop_pending)`. -/
  | killed
  /-- The last `fetch_trace()`. -/
  | finalFetch
  /-- The last `decode_trace()`. -/
  | finalDecode
  /-- The label `exit`: `decoder_ready = true`. -/
  | exit
deriving DecidableEq, Repr

/-! ### State -/

/-- A state of the proxy, its child and the forkserver. -/
structure Sys (n : ℕ) where
  main : MainPc
  dec : DecPc
  /-- The call site of the execution. -/
  kind : Kind
  startPending : Bool
  suspendPending : Bool
  stopPending : Bool
  decoderReady : Bool
  bitmap : CovMap n
  /-- `trace_overflow_occurred`. -/
  overflow : Bool
  /-- The execution whose child `child_pid` names. -/
  childPid : ℕ
  child : Child
  /-- The forkserver relays the child's statuses, or else waits for a token. -/
  relaying : Bool
  /-- The statuses relayed and not yet read, with the execution they are of. -/
  pipe : List (ℕ × Status)
  /-- The proxy reads the inner pipe in step with the forkserver. -/
  inStep : Bool
  /-- History: the number of executions begun, which names the last one. -/
  exec : ℕ
  /-- History: the execution that last signalled `start_pending`. -/
  startExec : ℕ
  /-- History: the execution of the last call of `trace_sink_polling()`. -/
  decExec : ℕ
  /-- History: the last execution whose `stop_trace()` has disabled the sinks. -/
  disabledExec : ℕ
  /-- History: since the last `SIGSTOP` of a drain the main thread has read a
  `SIGSTOP`-stop or a termination of the drained execution's child. -/
  told : Bool
  /-- History: the last enable or disable of the sinks. -/
  lastOp : Option SinkOp
  /-- History: the decode passes, oldest first, with their executions. -/
  passes : List (ℕ × Pass n)

/-- The state `init_trace()` leaves: the decoder thread exists, and
`decoder_ready` was set to false for it. -/
def Sys.afterInit {n : ℕ} (bitmap : CovMap n) : Sys n where
  main := .idle
  dec := .idle
  kind := .first
  startPending := false
  suspendPending := false
  stopPending := false
  decoderReady := false
  bitmap := bitmap
  overflow := false
  childPid := 0
  child := .gone
  relaying := false
  pipe := []
  inStep := true
  exec := 0
  startExec := 0
  decExec := 0
  disabledExec := 0
  told := false
  lastOp := none
  passes := []

/-! ### Labels -/

/-- A step. -/
inductive Label (n : ℕ) where
  /-- The main thread asks the forkserver for a child; `stops` says whether the
  child reached its first `SIGSTOP`. -/
  | begin (kind : Kind) (stops : Bool)
  | affinity (ok : Bool)
  | clear
  | arm
  | reset (ok : Bool)
  | enable (ok : Bool)
  | signalStart
  | resume (r : KillResult)
  | read (st : Status)
  | suspendCb
  | exitCb
  | disable (ok : Bool)
  | signalStop
  | join
  /-- The proxy or AFL++ writes the shared map. -/
  | scribble (map : CovMap n)
  | waitStart
  | entry
  | poll (r : KillResult)
  | check (filled : Bool)
  | sendStop (r : KillResult)
  | waitSuspend
  | drainDisable (ok : Bool)
  | drainFetch
  | drainEnable (ok : Bool)
  | sendCont (r : KillResult)
  | drainDecode (p : Pass n) (ok : Bool)
  | waitStop
  | finalFetch
  | finalDecode (p : Pass n) (ok : Bool)
  | exit
  /-- The child stops. -/
  | childStop (sig : ℕ)
  /-- The child terminates. -/
  | childDie (st : Status)
  /-- The forkserver reaps and relays a status. -/
  | relay

variable {n : ℕ}

/-! ### Guards -/

/-- A status the main thread may read next. Out of step any word may come. -/
def Sys.readable (s : Sys n) (st : Status) : Bool :=
  !s.inStep || s.pipe.head?.map Prod.snd == some st

/-- Whether the label's step can be taken. -/
def enabled (b : Build) (s : Sys n) : Label n → Bool
  -- without the Stalker decoder there are no repetitions and no calibration
  | .begin kind _ =>
    (s.main == .idle || s.main == .stopped) && (b == .stalker || kind == .first)
  | .affinity _ => s.main == .affinity
  | .clear => s.main == .clear
  | .arm => s.main == .arm
  | .reset _ => s.main == .reset
  | .enable _ => s.main == .enable
  | .signalStart => s.main == .signalStart
  | .resume _ => s.main == .resume
  | .read st => s.main == .waiting && s.readable st
  | .suspendCb => s.main == .suspendCb
  | .exitCb => s.main == .exitCb
  | .disable _ => s.main == .disable
  | .signalStop => s.main == .signalStop
  | .join => s.main == .join && s.decoderReady
  -- the decoder thread does not write the map then
  | .scribble _ => s.main == .stopped
  | .waitStart => s.dec == .idle && s.startPending
  | .entry => s.dec == .entry
  | .poll _ => s.dec == .poll
  -- the Stalker build's threshold is never exceeded
  | .check filled => s.dec == .check && (b == .coresight || !filled)
  | .sendStop _ => s.dec == .sendStop
  | .waitSuspend => s.dec == .waitSuspend && s.suspendPending
  | .drainDisable _ => s.dec == .drainDisable
  | .drainFetch => s.dec == .drainFetch
  | .drainEnable _ => s.dec == .drainEnable
  | .sendCont _ => s.dec == .sendCont
  | .drainDecode _ _ => s.dec == .drainDecode
  | .waitStop => s.dec == .killed && s.stopPending
  | .finalFetch => s.dec == .finalFetch
  | .finalDecode _ _ => s.dec == .finalDecode
  | .exit => s.dec == .exit
  | .childStop _ => s.child == .running
  | .childDie st => st.isTermination && s.child.alive
  | .relay => s.relaying && s.child.waitable.isSome

/-! ### Effects

Every step writes its fields one by one, a choice standing inside the field it
decides, so that a field a step leaves alone is left alone by definition. -/

/-- Where a failed `kill()` of `start_and_resume()` leads. It goes back to
`__afl_next_testcase()`, whose result the loop of `main()` takes for a test case,
to `main()`, which returns, or to the calibration, which goes on with another
child and never stops this trace. -/
def Kind.afterFailedResume : Kind → MainPc
  | .first => .waiting
  | .retry => .halted
  | .calibration => .idle

/-- Where a failed `stop_trace()` leads. -/
def Kind.afterFailedStop : Kind → MainPc
  | .first | .retry => .halted
  | .calibration => .idle

/-- Where the `kill()` of a drain leads when the child is gone or the call
failed, and `next` otherwise. -/
def KillResult.orLeave (next : DecPc) : KillResult → DecPc
  | .ok => next
  | .esrch => .killed
  | .error => .exit

/-- The forkserver waits for a token, and the next word in the pipe will be its
answer. -/
def Sys.answers (s : Sys n) : Bool :=
  s.inStep && !s.relaying && s.pipe.isEmpty

/-- The main thread asks for a child. When the forkserver waits for no token, or
a status is still in the pipe, what the proxy reads as a pid is another word. -/
def Sys.begin (s : Sys n) (kind : Kind) (stops : Bool) : Sys n :=
  { s with
    main := .affinity
    kind := kind
    exec := s.exec + 1
    child := if s.answers && stops then .stopped sigstop true else .foreign
    relaying := s.relaying || stops
    inStep := s.answers }

/-- `start_and_resume()` after its `kill()`. -/
def Sys.resume (s : Sys n) (r : KillResult) : Sys n :=
  { s with
    main := if r = .ok then .waiting else s.kind.afterFailedResume
    child := if r = .ok then s.child.cont else s.child }

/-- A status is read. -/
def Sys.read (s : Sys n) (st : Status) : Sys n :=
  { s with
    main := if st.isSigstop then .suspendCb else .exitCb
    pipe := s.pipe.tail
    told := s.told ||
      (s.inStep && s.pipe.head?.map Prod.fst == some s.decExec &&
        (st.isSigstop || st.isTermination)) }

/-- `stop_trace()` after its `disable_cs_trace()`. -/
def Sys.disable (s : Sys n) (ok : Bool) : Sys n :=
  { s with
    main := if ok then .signalStop else s.kind.afterFailedStop
    lastOp := if ok then some .disable else s.lastOp
    disabledExec := if ok then s.exec else s.disabledExec }

/-- A decode pass of the decoder thread. -/
def Sys.decode (s : Sys n) (p : Pass n) (next : DecPc) : Sys n :=
  { s with
    dec := next
    bitmap := p.apply s.bitmap
    overflow := s.overflow || p.overflow
    passes := s.passes ++ [(s.decExec, p)] }

/-- The forkserver relays the child's status. It goes on relaying after a stop
by `SIGSTOP` only. -/
def Sys.relay (s : Sys n) : Sys n :=
  { s with
    child := s.child.reaped
    pipe := s.pipe ++ (s.child.waitable.map fun st => (s.exec, st)).toList
    relaying := s.child.waitable.all Status.isSigstop }

/-- The state the label's step leads to. -/
def effect (s : Sys n) : Label n → Sys n
  | .begin kind stops => s.begin kind stops
  | .affinity ok => { s with main := if ok then .clear else .resume }
  | .clear => { s with main := .arm, bitmap := fun _ => 0#8 }
  | .arm => { s with main := .reset, decoderReady := false }
  -- the overflow flag is cleared before the backend's reset is called
  | .reset ok =>
    { s with
      main := if ok then .enable else .resume
      overflow := false
      childPid := if ok then s.exec else s.childPid }
  -- a call that fails may have enabled some of the sinks
  | .enable ok =>
    { s with main := if ok then .signalStart else .resume, lastOp := some .enable }
  | .signalStart => { s with main := .resume, startPending := true, startExec := s.exec }
  | .resume r => s.resume r
  | .read st => s.read st
  | .suspendCb => { s with main := .waiting, suspendPending := true }
  | .exitCb => { s with main := .disable, suspendPending := true }
  | .disable ok => s.disable ok
  | .signalStop => { s with main := .join, stopPending := true }
  | .join => { s with main := .stopped }
  | .scribble map => { s with bitmap := map }
  | .waitStart => { s with dec := .entry, startPending := false, decExec := s.startExec }
  | .entry => { s with dec := .poll, decoderReady := false }
  -- the loop ends at any error, and is at `killed` then
  | .poll r => { s with dec := if r = .ok then .check else .killed }
  | .check filled => { s with dec := if filled then .sendStop else .poll }
  | .sendStop r => { s with dec := r.orLeave .waitSuspend, told := s.told && r != .ok }
  | .waitSuspend => { s with dec := .drainDisable, suspendPending := false }
  | .drainDisable ok =>
    { s with
      dec := if ok then .drainFetch else .exit
      lastOp := if ok then some .disable else s.lastOp }
  | .drainFetch => { s with dec := .drainEnable }
  -- the results of the drain's fetch and enable are ignored
  | .drainEnable _ => { s with dec := .sendCont, lastOp := some .enable }
  | .sendCont r =>
    { s with
      dec := r.orLeave .drainDecode
      child := if r = .ok then s.child.cont else s.child }
  | .drainDecode p ok => s.decode p (if ok then .poll else .exit)
  | .waitStop => { s with dec := .finalFetch, stopPending := false }
  | .finalFetch => { s with dec := .finalDecode }
  -- a failed decode leaves the map and the flag as the pass made them
  | .finalDecode p _ => s.decode p .exit
  | .exit => { s with dec := .idle, decoderReady := true }
  | .childStop sig => { s with child := .stopped sig false }
  | .childDie st => { s with child := .zombie st }
  | .relay => s.relay

/-- The proxy built with `b`, its child and the forkserver. -/
def traceSystem (b : Build) (n : ℕ) : Guarded (Sys n) (Label n) where
  init s := ∃ bitmap, s = .afterInit bitmap
  enabled := enabled b
  effect := effect

/-- The step's `kill()`, if it has one, returns what a kernel that reuses no pid
returns. -/
def Lawful (s : Sys n) : Label n → Bool
  | .resume r => s.child.killable r
  | .poll r | .sendStop r | .sendCont r => s.childPid != s.exec || s.child.killable r
  | _ => true

/-- The label is a `fetch_trace()` or `decode_trace()` of the decoder thread. -/
def Label.decodes : Label n → Bool
  | .drainFetch | .drainDecode _ _ | .finalFetch | .finalDecode _ _ => true
  | _ => false

end Threads
end CsTrace
