import CoresightTrace.Threads.Model

/-!
# `cs-trace`: the tracer of one program

`cs-trace` is the second front end of `common.c`. Its `parent()` forks a program
under `ptrace()`, initialises and starts the trace at the program's first stop,
reads its wait statuses in a loop, and stops and finalises the trace when one of
them is an exit. With `decoding_on`, `init_trace()` creates the decoder thread,
which `fini_trace()` joins.

The model is a guarded machine of the two threads, built as that of the proxy is: a
step is one mutex section or call of a thread, and its label carries what the
environment answered. The decoder thread's places are those of the proxy's.

* The wait statuses the tracee reports are given from the start (`Tracee`): any
  stops in any number, and a termination. When the termination was read, a
  `waitpid()` fails and leaves `wstatus` as it is.
* A `kill()` finds the tracee until its termination was read, and not later: no pid
  is reused.
* `fini_pending` is modelled here: a `wait_event()` returns when it is set.
* The results of `init_trace()`, `start_trace()` and `stop_trace()` are ignored by
  `parent()`, and those of `ptrace()` are left out.
* `trace_state`, the map and the trace itself are left out: no step reads them.
-/

namespace CsTrace
namespace Tracer

open Threads (Build Status KillResult DecPc)

/-! ### Values -/

/-- The decoder `cs-trace` is built with, and `decoding_on`. -/
structure Config where
  build : Build
  decodingOn : Bool
deriving DecidableEq, Repr

/-- `PTRACE_EVENT_VFORK_DONE`, with which `parent()` compares the first stop's
signal. It is the number of `SIGTRAP`. -/
def ptraceEventVforkDone : ℕ := 5

/-- `WIFEXITED(status)`. -/
def exited : Status → Bool
  | .exited _ => true
  | _ => false

/-- `WIFSIGNALED(status)`. -/
def signaled : Status → Bool
  | .signaled _ => true
  | _ => false

/-- What a program reports to its tracer: stops, and its termination. -/
structure Tracee where
  stops : List ℕ
  last : Status
  terminates : last.isTermination = true

/-- The wait statuses of the program, in their order. -/
def Tracee.statuses (p : Tracee) : List Status :=
  p.stops.map .stopped ++ [p.last]

/-- How `init_trace()` returns: with success, or at an error before the decoder is
made, in `stalker_setup()`, or in `pthread_create()`. -/
inductive InitResult where
  | ok
  | noDecoder
  | noSetup
  | noThread
deriving DecidableEq, Repr

/-! ### Program counters -/

/-- Where `parent()` is. -/
inductive ParentPc where
  /-- The first `waitpid()`. -/
  | first
  /-- The second one, after a `PTRACE_CONT`. -/
  | second
  /-- `init_trace()`. -/
  | init
  /-- `start_trace()`: `set_cpu_affinity()`. -/
  | affinity
  /-- `alloc_trace_buf()`, and `decoder_ready = false`. -/
  | arm
  /-- `reset_decoder()`. -/
  | reset
  /-- `enable_cs_trace()`. -/
  | enable
  /-- `signal_event(&start_pending)`. -/
  | signalStart
  /-- The second `PTRACE_CONT`. -/
  | resume
  /-- The `waitpid()` of the loop. -/
  | waiting
  /-- `trace_suspend_resume_callback()`. -/
  | suspendCb
  /-- `stop_trace()`: `disable_cs_trace()`. -/
  | disable
  /-- `signal_event(&stop_pending)`. -/
  | signalStop
  /-- The wait for `decoder_ready`. -/
  | join
  /-- `fetch_trace()`, without `decoding_on`. -/
  | stopFetch
  /-- `fini_trace()`: `signal_event(&fini_pending)`. -/
  | signalFini
  /-- `pthread_join()`. -/
  | joinThread
  /-- `fini_trace()` without `decoding_on`: `fetch_trace()`. -/
  | finiFetch
  /-- The rest of `fini_trace()`. -/
  | shutdown
  /-- `parent()` has returned. -/
  | returned
deriving DecidableEq, Repr

/-- The decoder thread: it was not created, is somewhere, or has returned. -/
inductive Thread where
  | absent
  | running (pc : DecPc)
  | ended
deriving DecidableEq, Repr

/-! ### State -/

/-- A state of `cs-trace`. -/
structure Sys where
  parent : ParentPc
  dec : Thread
  /-- The wait statuses that were not read yet. -/
  statuses : List Status
  wstatus : Status
  startPending : Bool
  suspendPending : Bool
  stopPending : Bool
  finiPending : Bool
  decoderReady : Bool
  /-- `decoder` is not `NULL`. -/
  decoder : Bool
  /-- History: `start_trace()` has signalled `start_pending`. -/
  started : Bool
deriving DecidableEq

/-- The state `parent()` is called in. `wstatus` has no value yet. -/
def Sys.initial (p : Tracee) (wstatus : Status) : Sys where
  parent := .first
  dec := .absent
  statuses := p.statuses
  wstatus := wstatus
  startPending := false
  suspendPending := false
  stopPending := false
  finiPending := false
  decoderReady := true
  decoder := false
  started := false

/-- What `waitpid()` leaves in `wstatus`. -/
def Sys.waitStatus (s : Sys) : Status :=
  s.statuses.headD s.wstatus

/-- What `kill()` may return for the tracee. -/
def Sys.killable (s : Sys) : KillResult → Bool
  | .ok => !s.statuses.isEmpty
  | .esrch => s.statuses.isEmpty
  | .error => true

/-! ### Labels -/

/-- A step of `parent()`. -/
inductive ParentAct where
  | wait
  | init (r : InitResult)
  | affinity (ok : Bool)
  | arm
  | reset (ok : Bool)
  | enable (ok : Bool)
  | signalStart
  | resume
  | suspendCb
  | disable (ok : Bool)
  | signalStop
  | join
  | stopFetch
  | signalFini
  | joinThread
  | finiFetch
  | shutdown
deriving DecidableEq, Repr

/-- A step of the decoder thread. -/
inductive DecAct where
  | waitStart
  | entry
  | poll (r : KillResult)
  | check (filled : Bool)
  | sendStop (r : KillResult)
  | waitSuspend
  | drainDisable (ok : Bool)
  | drainFetch
  | drainEnable
  | sendCont (r : KillResult)
  | drainDecode (ok : Bool)
  | waitStop
  | finalFetch
  | finalDecode
  | exit
deriving DecidableEq, Repr

/-- A step. -/
inductive Label where
  | parent (a : ParentAct)
  | decoder (a : DecAct)
deriving DecidableEq, Repr

/-! ### Guards -/

/-- Whether `parent()` can take the step. -/
def parentEnabled (c : Config) (s : Sys) : ParentAct → Bool
  | .wait => s.parent == .first || s.parent == .second || s.parent == .waiting
  | .init r =>
    s.parent == .init && (c.decodingOn || r == .ok || r == .noDecoder) &&
      (c.build == .stalker || r != .noSetup)
  | .affinity _ => s.parent == .affinity
  | .arm => s.parent == .arm
  -- it fails when there is no decoder
  | .reset ok => s.parent == .reset && (s.decoder || !ok)
  | .enable _ => s.parent == .enable
  | .signalStart => s.parent == .signalStart
  | .resume => s.parent == .resume
  | .suspendCb => s.parent == .suspendCb
  | .disable _ => s.parent == .disable
  | .signalStop => s.parent == .signalStop
  | .join => s.parent == .join && s.decoderReady
  | .stopFetch => s.parent == .stopFetch
  | .signalFini => s.parent == .signalFini
  -- of a thread that was never created nothing is promised
  | .joinThread => s.parent == .joinThread && s.dec == .ended
  | .finiFetch => s.parent == .finiFetch
  | .shutdown => s.parent == .shutdown

/-- Whether the decoder thread can take the step. -/
def decEnabled (c : Config) (s : Sys) : DecAct → Bool
  | .waitStart => s.dec == .running .idle && (s.startPending || s.finiPending)
  | .entry => s.dec == .running .entry
  | .poll r => s.dec == .running .poll && s.killable r
  -- the Stalker build's threshold is never exceeded
  | .check filled => s.dec == .running .check && (c.build == .coresight || !filled)
  | .sendStop r => s.dec == .running .sendStop && s.killable r
  | .waitSuspend => s.dec == .running .waitSuspend && (s.suspendPending || s.finiPending)
  | .drainDisable _ => s.dec == .running .drainDisable
  | .drainFetch => s.dec == .running .drainFetch
  | .drainEnable => s.dec == .running .drainEnable
  | .sendCont r => s.dec == .running .sendCont && s.killable r
  | .drainDecode _ => s.dec == .running .drainDecode
  | .waitStop => s.dec == .running .killed && (s.stopPending || s.finiPending)
  | .finalFetch => s.dec == .running .finalFetch
  | .finalDecode => s.dec == .running .finalDecode
  | .exit => s.dec == .running .exit

/-- Whether the label's step can be taken. -/
def enabled (c : Config) (s : Sys) : Label → Bool
  | .parent a => parentEnabled c s a
  | .decoder a => decEnabled c s a

/-! ### Effects -/

/-- Where `parent()` goes on after a `waitpid()`. -/
def ParentPc.afterWait (st : Status) : ParentPc → ParentPc
  | .first => if st = .stopped ptraceEventVforkDone then .second else .waiting
  | .second => .init
  | _ => if exited st then .disable else if st.isSigstop then .suspendCb else .waiting

/-- The first section of `fini_trace()`. -/
def Config.fini (c : Config) : ParentPc :=
  if c.decodingOn then .signalFini else .finiFetch

/-- The state after `init_trace()`. With `decoding_on` it makes `decoder_ready` false
just before it creates the thread. -/
def Sys.init (c : Config) (s : Sys) (r : InitResult) : Sys :=
  { s with
    parent := .affinity
    dec := if c.decodingOn && r == .ok then .running .idle else .absent
    decoder := c.decodingOn && r != .noDecoder
    decoderReady := s.decoderReady && !(c.decodingOn && (r == .ok || r == .noThread)) }

/-- The state a step of `parent()` leads to. -/
def parentEffect (c : Config) (s : Sys) : ParentAct → Sys
  | .wait =>
    { s with
      parent := s.parent.afterWait s.waitStatus
      statuses := s.statuses.tail
      wstatus := s.waitStatus }
  | .init r => s.init c r
  | .affinity ok => { s with parent := if ok then .arm else .resume }
  | .arm =>
    { s with
      parent := if c.decodingOn then .reset else .enable
      decoderReady := s.decoderReady && !c.decodingOn }
  | .reset ok => { s with parent := if ok then .enable else .resume }
  | .enable ok => { s with parent := if ok then .signalStart else .resume }
  -- the start is signalled also when no decoder thread listens
  | .signalStart => { s with parent := .resume, startPending := true, started := true }
  | .resume => { s with parent := .waiting }
  | .suspendCb => { s with parent := .waiting, suspendPending := true }
  | .disable ok =>
    { s with
      parent := if ok then (if c.decodingOn then .signalStop else .stopFetch) else c.fini }
  | .signalStop => { s with parent := .join, stopPending := true }
  | .join => { s with parent := .signalFini }
  | .stopFetch => { s with parent := c.fini }
  | .signalFini => { s with parent := .joinThread, finiPending := true }
  | .joinThread => { s with parent := .shutdown }
  | .finiFetch => { s with parent := .shutdown }
  | .shutdown => { s with parent := .returned }

/-- The state a step of the decoder thread leads to. -/
def decEffect (s : Sys) : DecAct → Sys
  -- `decoder_worker()` returns when the event is `fini`
  | .waitStart =>
    { s with
      dec := if s.startPending then .running .entry else .ended
      startPending := false }
  | .entry => { s with dec := .running .poll, decoderReady := false }
  | .poll r => { s with dec := .running (if r = .ok then .check else .killed) }
  | .check filled => { s with dec := .running (if filled then .sendStop else .poll) }
  | .sendStop r => { s with dec := .running (r.orLeave .waitSuspend) }
  -- the result of these two waits is ignored
  | .waitSuspend => { s with dec := .running .drainDisable, suspendPending := false }
  | .drainDisable ok => { s with dec := .running (if ok then .drainFetch else .exit) }
  | .drainFetch => { s with dec := .running .drainEnable }
  | .drainEnable => { s with dec := .running .sendCont }
  | .sendCont r => { s with dec := .running (r.orLeave .drainDecode) }
  | .drainDecode ok => { s with dec := .running (if ok then .poll else .exit) }
  | .waitStop => { s with dec := .running .finalFetch, stopPending := false }
  | .finalFetch => { s with dec := .running .finalDecode }
  | .finalDecode => { s with dec := .running .exit }
  | .exit => { s with dec := .running .idle, decoderReady := true }

/-- The state the label's step leads to. -/
def effect (c : Config) (s : Sys) : Label → Sys
  | .parent a => parentEffect c s a
  | .decoder a => decEffect s a

/-- The calls with which a tracer ends. -/
inductive Call where
  | stopTrace
  | finiTrace
deriving DecidableEq, Repr

/-- The call that begins with the step. -/
def Label.call : Label → Option Call
  | .parent (.disable _) => some .stopTrace
  | .parent .signalFini | .parent .finiFetch => some .finiTrace
  | _ => none

/-- The calls made in the steps `ls`. -/
def calls (ls : List Label) : List Call :=
  ls.filterMap Label.call

end Tracer
end CsTrace
