import CoresightTrace.Framework.Guarded
import CoresightTrace.Proxy.Control

/-!
# AFL++, the proxy and the forkserver

Four pipes join the three parties: AFL++ sends requests to the proxy and reads a
pid and a status for each, the proxy sends tokens to the forkserver and reads a
pid and statuses for each. All of them carry untyped four-byte words, and
nothing but the order of the calls tells a pid from a status.

The machine has one step for each call of the proxy (`Proxy/Control.lean` gives
what lies between them) and three for the forkserver of `libforksrv.c`: it takes
a token and forks a child, which stops itself; it writes the child's pid; and it
relays the child's statuses up to the first that is not a stop by `SIGSTOP`.
AFL++ may send a request at any time.

* No pipe call and no `kill()` fails, and every child reaches its first
  `SIGSTOP`. A child is waited for by its status only once it was continued.
* A word carries where it comes from (`Word`). The proxy reads its value only.
* `kill()` reaches the newest child if the pid is its pid, and otherwise some
  other process.

The fields under "history" are read by no step.
-/

namespace CsTrace
namespace CsProxy

open Governor (InitReads CpuPolicy)

/-- A word of the inner status pipe: its value, and what the forkserver wrote it
as, the pid or a status of its `child`-th child. -/
structure Word where
  val : Raw
  isPid : Bool
  child : ℕ
deriving DecidableEq, Repr

/-- Where the forkserver is: it waits for a token, has forked a child that has
stopped, or relays the child's statuses. -/
inductive FsPc where
  | token
  | writePid
  | relay
deriving DecidableEq, Repr

/-- A state of the three parties and the pipes between them. -/
structure Sys where
  proxy : Proxy
  /-- AFL++'s requests not yet read. -/
  requests : List Raw
  /-- The words written to AFL++, oldest first. -/
  outer : List Raw
  /-- The tokens not yet read. -/
  ctl : List Raw
  /-- The pids and statuses not yet read. -/
  st : List Word
  fs : FsPc
  /-- The newest child was continued. -/
  resumed : Bool
  /-- History: the number of children, which names the newest. -/
  forks : ℕ
  /-- History: the pids of the children. -/
  pidOf : ℕ → Raw
  /-- History: the first status of a child that is not a stop by `SIGSTOP`. -/
  terminal : ℕ → Option Raw
  /-- History: the child the proxy last read the pid of. -/
  held : ℕ
  /-- History: the child the proxy last continued. -/
  lastResumed : ℕ
  /-- History: the number of requests read. -/
  received : ℕ
  /-- History: the children of the retry loop of the current request. -/
  current : List ℕ
  /-- History: the same for the requests whose status was written. -/
  finished : List (List ℕ)

/-- The parties before the first request. -/
def Sys.initial (cfg : Config) (policy : CpuPolicy) : Sys where
  proxy := .initial cfg policy
  requests := []
  outer := []
  ctl := []
  st := []
  fs := .token
  resumed := false
  forks := 0
  pidOf _ := 0
  terminal _ := none
  held := 0
  lastResumed := 0
  received := 0
  current := []
  finished := []

/-- A step, with the word it reads and the purpose of the child run it is of. -/
inductive Label where
  /-- AFL++ writes a request. -/
  | ask (wasKilled : Raw)
  | readRequest (wasKilled : Raw)
  | forward
  /-- `reads` is what `freq_gov_init()` reads, on the first request. -/
  | handed (reads : InitReads) (w : Word)
  | fork (t : Task)
  | forked (t : Task) (w : Word)
  | start (t : Task)
  | report
  | cont (t : Task)
  | readStatus (t : Task) (w : Word)
  /-- The decode of the child run did or did not overflow. -/
  | finish (t : Task) (didOverflow : Bool)
  /-- The verdict of the hybrid filter. -/
  | verdict (confirm : Bool)
  | endTestcase
  /-- The forkserver takes a token and forks. -/
  | fsFork (pid : Raw)
  | fsWritePid
  /-- The forkserver reaps and relays a status. -/
  | relay (status : Raw)

/-! ### Guards -/

/-- Whether the label's step can be taken. -/
def enabled (s : Sys) : Label → Bool
  | .ask _ => true
  | .readRequest w => s.proxy.pc == .request && s.requests.head? == some w
  | .forward => s.proxy.pc == .forward
  | .handed _ w => s.proxy.pc == .handed && s.st.head? == some w
  | .fork t => s.proxy.pc == .fork t
  | .forked t w => s.proxy.pc == .forked t && s.st.head? == some w
  | .start t => s.proxy.pc == .start t
  | .report => s.proxy.pc == .report
  | .cont t => s.proxy.pc == .cont t
  | .readStatus t w => s.proxy.pc == .wait t && s.st.head? == some w
  | .finish t _ => s.proxy.pc == .finish t
  | .verdict _ => s.proxy.pc == .verdict
  | .endTestcase => s.proxy.pc == .endTestcase
  | .fsFork pid => s.fs == .token && !s.ctl.isEmpty && decide (0 < pid.toInt)
  | .fsWritePid => s.fs == .writePid
  | .relay _ => s.fs == .relay && s.resumed

/-- Where the proxy is when it makes a step; `none` for the steps of the others. -/
def Label.site? : Label → Option Pc
  | .readRequest _ => some .request
  | .forward => some .forward
  | .handed _ _ => some .handed
  | .fork t => some (.fork t)
  | .forked t _ => some (.forked t)
  | .start t => some (.start t)
  | .report => some .report
  | .cont t => some (.cont t)
  | .readStatus t _ => some (.wait t)
  | .finish t _ => some (.finish t)
  | .verdict _ => some .verdict
  | .endTestcase => some .endTestcase
  | .ask _ | .fsFork _ | .fsWritePid | .relay _ => none

theorem pc_of_enabled {s : Sys} {l : Label} {pc : Pc} (hen : enabled s l = true)
    (hl : l.site? = some pc) : s.proxy.pc = pc := by
  cases l with
  | ask | fsFork | fsWritePid | relay => exact absurd hl (Option.some_ne_none pc).symm
  | readRequest | handed | forked | readStatus =>
    rw [← Option.some.inj hl]
    exact beq_iff_eq.mp (Bool.and_eq_true_iff.mp hen).1
  | _ =>
    rw [← Option.some.inj hl]
    exact beq_iff_eq.mp hen

/-! ### Effects -/

/-- The proxy goes to `pc`. -/
def Proxy.goto (p : Proxy) (pc : Pc) : Proxy :=
  { p with pc := pc }

/-- `kill(child_pid, SIGCONT)`. -/
def Sys.kill (s : Sys) (t : Task) : Sys :=
  { s with
    proxy := s.proxy.goto (.wait t)
    resumed := s.resumed || s.proxy.childPid == s.pidOf s.forks
    lastResumed := if s.proxy.childPid = s.pidOf s.forks then s.forks else s.lastResumed }

/-- The forkserver relays a status, and waits for a token after the last. -/
def Sys.relay (s : Sys) (status : Raw) : Sys :=
  { s with
    st := s.st ++ [⟨status, false, s.forks⟩]
    fs := if sigstopped status then .relay else .token
    terminal :=
      if sigstopped status then s.terminal
      else Function.update s.terminal s.forks (some status) }

/-- The children of the retry loop after a child run is started. -/
def Task.log (t : Task) (children : List ℕ) (child : ℕ) : List ℕ :=
  match t with
  | .attempt _ => children ++ [child]
  | _ => children

/-- The state the label's step leads to. -/
def effect (cfg : Config) (s : Sys) : Label → Sys
  | .ask w => { s with requests := s.requests ++ [w] }
  | .readRequest w =>
    { s with
      proxy := { s.proxy with pc := .forward, wasKilled := w }
      requests := s.requests.tail
      received := s.received + 1 }
  | .forward =>
    { s with proxy := s.proxy.goto .handed, ctl := s.ctl ++ [s.proxy.wasKilled] }
  | .handed r w =>
    { s with proxy := s.proxy.handed cfg r w.val, st := s.st.tail, held := w.child }
  | .fork t => { s with proxy := s.proxy.goto (.forked t), ctl := s.ctl ++ [0] }
  | .forked t w =>
    { s with
      proxy := { s.proxy with pc := .start t, childPid := w.val }
      st := s.st.tail
      held := w.child }
  | .start t => { s with proxy := s.proxy.start cfg t, current := t.log s.current s.held }
  | .report =>
    { s with
      proxy := s.proxy.goto (.cont (.attempt true))
      outer := s.outer ++ [s.proxy.childPid] }
  | .cont t => s.kill t
  -- a stop by `SIGSTOP` is not the last status
  | .readStatus t w =>
    { s with
      proxy :=
        { s.proxy with
          waitStatus := w.val
          pc := if sigstopped w.val then .wait t else .finish t }
      st := s.st.tail }
  | .finish t o => { s with proxy := s.proxy.finish cfg t o }
  | .verdict confirm => { s with proxy := s.proxy.verdict cfg confirm }
  | .endTestcase =>
    { s with
      proxy := s.proxy.endTestcase cfg
      outer := s.outer ++ [s.proxy.status]
      current := []
      finished := s.finished ++ [s.current] }
  | .fsFork pid =>
    { s with
      ctl := s.ctl.tail
      fs := .writePid
      resumed := false
      forks := s.forks + 1
      pidOf := Function.update s.pidOf (s.forks + 1) pid }
  | .fsWritePid =>
    { s with
      st := s.st ++ [⟨s.pidOf s.forks, true, s.forks⟩]
      fs := .relay }
  | .relay status => s.relay status

/-- The proxy under `cfg`, with AFL++ and the forkserver. -/
def proxySystem (cfg : Config) : Guarded Sys Label where
  init s := ∃ policy, s = .initial cfg policy
  enabled := enabled
  effect := effect cfg

end CsProxy
end CsTrace
