import CoresightTrace.Threads.Drain
import CoresightTrace.Threads.Completion
import CoresightTrace.Threads.StopFlag

/-!
# No lost wake-up

`stop_trace()` waits for `decoder_ready`, and the decoder thread may wait for a
flag at that time: for the start, for the status of a child it has stopped, or
for the stop. The flags count nothing and are never cleared between executions,
so a wake-up may come early, and the question is whether one can be lost.

* The start signal is taken by the polling it starts, whose end makes
  `decoder_ready` true.
* The stop signal of an execution is consumed by a polling on its way out.
* A drain's `SIGSTOP` succeeds only as long as the child is not reaped. The
  child's last status is relayed after that, so the exit callback is still to
  come, and it sets `suspend_pending` for the drain (`Wakes.woken`).

All three rest on one polling for each execution. A calibration run whose
`SIGCONT` fails is left with its polling at work: the next execution signals its
start to a thread that still polls, which takes the stop signal for its own, and
the polling that is then started waits for it in vain (`lost_wakeup`). Without
such a run no wake-up is lost (`no_lost_wakeup`).
-/

namespace CsTrace
namespace Threads

open Hybrid (CovMap)

variable {n : ℕ} {b : Build} {s : Sys n} {l : Label n}

/-! ### The runs -/

/-- Every `start_trace()` returns 0, no call on the trace hardware fails, no
`kill()` fails other than with `ESRCH` or reaches a reused pid, and the child is
stopped by `SIGSTOP` only. -/
def Undisturbed (s : Sys n) (l : Label n) : Bool :=
  Lawful s l &&
    match l with
    | .affinity ok | .reset ok | .enable ok | .disable ok | .drainDisable ok | .drainEnable ok =>
      ok
    | .resume r | .poll r | .sendStop r | .sendCont r => r != .error
    | .childStop sig => sig == sigstop
    | _ => true

/-- The main thread is blocked in `stop_trace()` on `decoder_ready`, and the
decoder thread on a flag that is not set. -/
def Stuck (s : Sys n) : Prop :=
  s.main = .join ∧ s.decoderReady = false ∧
    (s.dec = .idle ∧ s.startPending = false ∨ s.dec = .waitSuspend ∧ s.suspendPending = false ∨
      s.dec = .killed ∧ s.stopPending = false)

/-! ### The child -/

/-- The main thread has read the last status of its child. -/
def MainPc.pastExit : MainPc → Bool
  | .exitCb | .disable | .signalStop | .join => true
  | _ => false

/-- The child is stopped by `SIGSTOP` only, and is gone once its last status is
relayed. -/
structure Reaped (s : Sys n) : Prop where
  sigstop : ∀ sig reported, s.child = .stopped sig reported → sig = Threads.sigstop
  relayed : ∀ w ∈ s.pipe, w.2.isSigstop = false → s.child = .gone
  read : s.main.pastExit = true → s.child = .gone

theorem Reaped.afterInit (bitmap : CovMap n) : Reaped (.afterInit bitmap) :=
  ⟨nofun, nofun, nofun⟩

/-- A step that leaves the child and the pipe alone. -/
theorem Reaped.keep {t : Sys n} (h : Reaped s) (hchild : t.child = s.child)
    (hpipe : t.pipe = s.pipe) (hmain : t.main.pastExit = true → s.main.pastExit = true) :
    Reaped t := by
  refine ⟨?_, ?_, ?_⟩
  · rw [hchild]
    exact h.sigstop
  · rw [hchild, hpipe]
    exact h.relayed
  · intro hm
    rw [hchild]
    exact h.read (hmain hm)

/-- A child that is not gone has no last status on its way. -/
theorem Reaped.of_not_gone {t : Sys n} (h : Reaped s) (hs : s.child ≠ .gone)
    (hpipe : t.pipe = s.pipe) (hmain : t.main = s.main)
    (hsig : ∀ sig reported, t.child = .stopped sig reported → sig = Threads.sigstop) :
    Reaped t := by
  refine ⟨hsig, ?_, ?_⟩
  · rw [hpipe]
    intro w hw hst
    exact absurd (h.relayed w hw hst) hs
  · rw [hmain]
    intro hm
    exact absurd (h.read hm) hs

/-- `SIGCONT` makes a stopped child run and changes no other. -/
theorem Reaped.cont {t : Sys n} (h : Reaped s) (hpipe : t.pipe = s.pipe)
    (hchild : t.child = s.child ∨ t.child = s.child.cont)
    (hmain : t.main.pastExit = true → s.main.pastExit = true) : Reaped t := by
  have hgone : s.child = .gone → t.child = .gone := by
    intro hs
    rcases hchild with hc | hc <;> rw [hc, hs]
    rfl
  refine ⟨?_, ?_, ?_⟩
  · intro sig reported hstop
    rcases hchild with hc | hc
    · exact h.sigstop sig reported (hc ▸ hstop)
    · rw [hc] at hstop
      cases hs : s.child <;> simp [hs, Child.cont] at hstop
  · rw [hpipe]
    exact fun w hw hst => hgone (h.relayed w hw hst)
  · exact fun hm => hgone (h.read (hmain hm))

theorem Reaped.relay (h : Reaped s) (hw : Wire s) (hen : enabled b s .relay = true) :
    Reaped s.relay := by
  obtain ⟨hrel, hwait⟩ := Bool.and_eq_true_iff.mp hen
  obtain ⟨st, hst⟩ := Option.isSome_iff_exists.mp hwait
  have hpipe : s.relay.pipe = s.pipe ++ [(s.exec, st)] := by simp [Sys.relay, hst]
  have hne : s.child ≠ .gone := by
    rintro hs
    simp [hs, Child.waitable] at hst
  have hchild : s.relay.child = s.child.reaped := rfl
  refine ⟨?_, ?_, ?_⟩
  · intro sig reported hstop
    rw [hchild] at hstop
    cases hs : s.child with
    | stopped sig' reported' =>
      rw [hs] at hstop
      obtain ⟨rfl, -⟩ : sig' = sig ∧ true = reported := by simpa [Child.reaped] using hstop
      exact h.sigstop sig' reported' hs
    | _ => simp [hs, Child.reaped] at hstop
  · rw [hpipe]
    intro w hmem hlast
    rcases List.mem_append.mp hmem with hmem | hmem
    · exact absurd (h.relayed w hmem hlast) hne
    · -- a status that is no stop by `SIGSTOP` is that of a zombie
      rw [List.mem_singleton.mp hmem] at hlast
      rw [hchild]
      cases hs : s.child with
      | zombie => rfl
      | stopped sig reported =>
        cases h.sigstop sig reported hs
        cases reported <;> simp [hs, Child.waitable] at hst
        simp [← hst, Status.isSigstop] at hlast
      | _ => simp [hs, Child.waitable] at hst
  · intro hm
    have hdone : s.main.childDone = true := by
      change s.main.pastExit = true at hm
      cases hmain : s.main <;> simp_all [MainPc.pastExit, MainPc.childDone]
    exact absurd (hw.done hdone).2 (by simp [hrel])

theorem Reaped.begin (hw : Wire s) {kind : Kind} {stops : Bool}
    (hen : enabled b s (.begin kind stops) = true) : Reaped (effect s (.begin kind stops)) := by
  have hmain : s.main.childDone = true := by
    rcases Bool.or_eq_true_iff.mp (Bool.and_eq_true_iff.mp hen).1 with hm | hm <;>
      rw [beq_iff_eq.mp hm] <;> rfl
  have hpipe : s.pipe = [] := (hw.done hmain).1
  refine ⟨?_, ?_, nofun⟩
  · intro sig reported hstop
    change (if s.answers && stops then Child.stopped Threads.sigstop true else .foreign) =
      _ at hstop
    split at hstop
    · cases hstop
      rfl
    · cases hstop
  · intro w hmem
    simp [effect, Sys.begin, hpipe] at hmem

/-- The status that ends the wait was the child's last. -/
theorem Reaped.read_status (h : Reaped s) (hw : Wire s) {st : Status}
    (hr : s.readable st = true) : Reaped (s.read st) := by
  obtain ⟨rest, hpipe⟩ := hw.pipe_of_readable hr
  refine ⟨h.sigstop, ?_, ?_⟩
  · intro w hmem
    exact h.relayed w (List.mem_of_mem_tail hmem)
  · intro hm
    cases hst : st.isSigstop with
    | true => simp [Sys.read, hst, MainPc.pastExit] at hm
    | false => exact h.relayed (s.exec, st) (by simp [hpipe]) hst

theorem Reaped.step (h : Reaped s) (hw : Wire s) (hen : enabled b s l = true)
    (hc : Undisturbed s l = true) : Reaped (effect s l) := by
  cases l with
  | begin kind stops => exact .begin hw hen
  | affinity ok | reset ok | enable ok => exact h.keep rfl rfl (by cases ok <;> nofun)
  | clear | arm | signalStart | suspendCb | join => exact h.keep rfl rfl nofun
  | resume r =>
    -- a resume that fails leaves the child as it is
    refine h.cont rfl ?_ ?_
    · cases r with
      | ok => exact .inr rfl
      | esrch | error => exact .inl rfl
    · cases r <;> cases hkind : s.kind <;>
        simp [effect, Sys.resume, hkind, Kind.afterFailedResume, MainPc.pastExit]
  | read st => exact h.read_status hw (Bool.and_eq_true_iff.mp hen).2
  | exitCb | disable | signalStop =>
    exact h.keep rfl rfl fun _ => by rw [beq_iff_eq.mp hen]; rfl
  | sendCont r =>
    refine h.cont rfl ?_ id
    cases r with
    | ok => exact .inr rfl
    | esrch | error => exact .inl rfl
  | childStop sig =>
    -- by the condition the signal is `SIGSTOP`
    have hrun : s.child = .running := beq_iff_eq.mp hen
    refine h.of_not_gone (by simp [hrun]) rfl rfl ?_
    intro sig' reported hstop
    obtain ⟨rfl, -⟩ : sig = sig' ∧ false = reported := by simpa [effect] using hstop
    simpa [Undisturbed, Lawful] using hc
  | childDie st =>
    refine h.of_not_gone ?_ rfl rfl (by rintro _ _ ⟨⟩)
    intro hgone
    simp [enabled, hgone, Child.alive] at hen
  | relay => exact h.relay hw hen
  | _ => exact h.keep rfl rfl id

/-! ### The flags -/

/-- `stop_trace()` has been entered with the exit signalled. -/
def MainPc.stopping : MainPc → Bool
  | .disable | .signalStop | .join => true
  | _ => false

/-- What the decoder thread waits for is set or still to come. -/
structure Wakes (s : Sys n) : Prop where
  /-- `child_pid` is the child of the execution once `start_trace()` has set it. -/
  pid : 5 ≤ s.main.rank → s.childPid = s.exec
  ready : s.main.phase = .launched → s.dec = .idle → s.startPending = false →
    s.decoderReady = true
  /-- A drain waits for a signal that is set, or the exit is not yet signalled. -/
  woken : s.dec = .waitSuspend → s.main.stopping = true → s.suspendPending = true
  /-- The stop signal is there for the polling, which is past it or over otherwise. -/
  stop : s.main = .join →
    s.stopPending = true ∨ s.dec.pastStop = true ∨ s.dec = .idle ∧ s.startPending = false

theorem Wakes.afterInit (bitmap : CovMap n) : Wakes (.afterInit bitmap) := by
  refine ⟨?_, nofun, nofun, nofun⟩
  intro h5
  exact absurd h5 (show ¬ 5 ≤ 0 by decide)

/-- A step of `start_trace()`: no execution is launched. -/
theorem Wakes.starting {t : Sys n} (hphase : t.main.phase ≠ .launched)
    (hpid : 5 ≤ t.main.rank → t.childPid = t.exec) : Wakes t := by
  refine ⟨hpid, ?_, ?_, ?_⟩
  · intro hm
    exact absurd hm hphase
  · intro _ hm
    cases hmain : t.main <;> simp_all [MainPc.stopping, MainPc.phase]
  · intro hm
    exact absurd (by rw [hm]; rfl) hphase

/-- A step of the main thread in an execution, before it waits. -/
theorem Wakes.launched {t : Sys n} (h : Wakes s) (hphase : s.main.phase = .launched)
    (hdec : t.dec = s.dec) (hstart : t.startPending = s.startPending)
    (hready : t.decoderReady = s.decoderReady) (hpid : t.childPid = s.childPid)
    (hexec : t.exec = s.exec) (hjoin : t.main ≠ .join)
    (hwoken : t.main.stopping = true →
      t.suspendPending = true ∨ s.main.stopping = true ∧ t.suspendPending = s.suspendPending) :
    Wakes t := by
  refine ⟨?_, ?_, ?_, ?_⟩
  · intro _
    rw [hpid, hexec]
    exact h.pid (by rw [MainPc.rank_of_launched hphase]; decide)
  · rw [hdec, hstart, hready]
    intro _
    exact h.ready hphase
  · rw [hdec]
    intro hd hm
    rcases hwoken hm with hset | ⟨hs, hsame⟩
    · exact hset
    · rw [hsame]
      exact h.woken hd hs
  · intro hm
    exact absurd hm hjoin

/-- A step of the polling up to its wait for the stop signal. -/
theorem Wakes.polling {t : Sys n} (h : Wakes s) (hmain : t.main = s.main)
    (hpid : t.childPid = s.childPid) (hexec : t.exec = s.exec)
    (hstop : t.stopPending = s.stopPending) (hs : s.dec ≠ .idle) (hpast : s.dec.pastStop = false)
    (ht : t.dec ≠ .idle)
    (hwoken : t.dec = .waitSuspend → t.main.stopping = true → t.suspendPending = true) :
    Wakes t := by
  refine ⟨?_, ?_, hwoken, ?_⟩
  · rw [hmain, hpid, hexec]
    exact h.pid
  · intro _ hd
    exact absurd hd ht
  · rw [hmain, hstop]
    intro hm
    -- the polling has neither ended nor consumed the signal
    rcases h.stop hm with hset | hp | ⟨hidle, -⟩
    · exact .inl hset
    · simp [hpast] at hp
    · exact absurd hidle hs

/-- A step of the polling past its wait for the stop signal. -/
theorem Wakes.leaving {t : Sys n} (h : Wakes s) (hmain : t.main = s.main)
    (hpid : t.childPid = s.childPid) (hexec : t.exec = s.exec) (ht : t.dec.pastStop = true) :
    Wakes t := by
  refine ⟨?_, ?_, ?_, fun _ => .inr (.inl ht)⟩
  · rw [hmain, hpid, hexec]
    exact h.pid
  · intro _ hd
    rw [hd] at ht
    cases ht
  · intro hd
    rw [hd] at ht
    cases ht

/-- A step that touches neither the threads nor the flags. -/
theorem Wakes.keep {t : Sys n} (h : Wakes s)
    (ht : t = { s with
      child := t.child, pipe := t.pipe, relaying := t.relaying, bitmap := t.bitmap }) :
    Wakes t := by
  rw [ht]
  exact ⟨h.pid, h.ready, h.woken, h.stop⟩

/-- The drain's stop reaches a child that is not reaped, so its exit is still to be
signalled. -/
theorem Wakes.sendStop (h : Wakes s) (hh : Handshake s) (hg : Reaped s) {r : KillResult}
    (hen : enabled b s (.sendStop r) = true) (hc : Undisturbed s (.sendStop r) = true) :
    Wakes (effect s (.sendStop r)) := by
  have hdec : s.dec = .sendStop := beq_iff_eq.mp hen
  have hpast : s.dec.pastStop = false := by
    rw [hdec]
    rfl
  cases r with
  | ok =>
    refine h.polling rfl rfl rfl rfl (by simp [hdec]) hpast nofun fun _ hm => ?_
    have hlaunched := hh.launched (by simp [hdec])
    have hpid := h.pid (by rw [MainPc.rank_of_launched hlaunched]; decide)
    have hgone : s.child = .gone := by
      refine hg.read ?_
      change s.main.stopping = true at hm
      cases hmain : s.main <;> simp_all [MainPc.stopping, MainPc.pastExit]
    simp [Undisturbed, Lawful, hpid, hgone, Child.killable] at hc
  | esrch => exact h.polling rfl rfl rfl rfl (by simp [hdec]) hpast nofun nofun
  | error => simp [Undisturbed] at hc

theorem Wakes.exit (h : Wakes s) (hh : Handshake s) (hen : enabled b s .exit = true) :
    Wakes (effect s .exit) := by
  have hstart := hh.polling (by rw [beq_iff_eq.mp hen]; nofun)
  exact ⟨h.pid, fun _ _ _ => rfl, nofun, fun _ => .inr (.inr ⟨rfl, hstart⟩)⟩

theorem Wakes.waitStart (h : Wakes s) (hen : enabled b s .waitStart = true) :
    Wakes (effect s .waitStart) := by
  obtain ⟨hidle, hstart⟩ := Bool.and_eq_true_iff.mp hen
  refine ⟨h.pid, nofun, nofun, ?_⟩
  intro hm
  rcases h.stop hm with hset | hp | ⟨-, hnone⟩
  · exact .inl hset
  · rw [beq_iff_eq.mp hidle] at hp
    cases hp
  · simp [hstart] at hnone

/-- The steps of the polling that decide where it goes on. -/
theorem Wakes.decide (h : Wakes s) {t : Sys n} {next : DecPc} (hd : s.dec ≠ .idle)
    (hpast : s.dec.pastStop = false)
    (ht : t = { s with
      dec := next, suspendPending := t.suspendPending, child := t.child, bitmap := t.bitmap,
      overflow := t.overflow, passes := t.passes, lastOp := t.lastOp })
    (hnext : next ≠ .idle ∧ next ≠ .waitSuspend) : Wakes t := by
  rw [ht]
  exact h.polling rfl rfl rfl rfl hd hpast hnext.1 fun hw => absurd hw hnext.2

theorem Wakes.step (h : Wakes s) (hh : Handshake s) (hg : Reaped s) (hen : enabled b s l = true)
    (hc : Undisturbed s l = true) (hk : l.abandons s = false) : Wakes (effect s l) := by
  cases l with
  | begin kind stops => exact .starting (by rintro ⟨⟩) fun h5 => absurd h5 (show ¬ 5 ≤ 1 by decide)
  | clear => exact .starting (by rintro ⟨⟩) fun h5 => absurd h5 (show ¬ 5 ≤ 3 by decide)
  | arm => exact .starting (by rintro ⟨⟩) fun h5 => absurd h5 (show ¬ 5 ≤ 4 by decide)
  | affinity ok =>
    cases ok with
    | true => exact .starting (by rintro ⟨⟩) fun h5 => absurd h5 (show ¬ 5 ≤ 2 by decide)
    | false => simp [Undisturbed] at hc
  | reset ok =>
    cases ok with
    | true => exact .starting (by rintro ⟨⟩) fun _ => rfl
    | false => simp [Undisturbed] at hc
  | enable ok =>
    cases ok with
    | true => exact .starting (by rintro ⟨⟩) fun _ => h.pid (by rw [beq_iff_eq.mp hen]; decide)
    | false => simp [Undisturbed] at hc
  | signalStart =>
    -- the start is pending
    exact ⟨fun _ => h.pid (by rw [beq_iff_eq.mp hen]; decide), fun _ _ => by rintro ⟨⟩,
      fun _ => by rintro ⟨⟩, by rintro ⟨⟩⟩
  | resume r =>
    have hmain : s.main = .resume := beq_iff_eq.mp hen
    have hnext : (effect s (.resume r)).main ≠ .join ∧
        (effect s (.resume r)).main.stopping = false := by
      cases r <;> cases hkind : s.kind <;>
        simp [effect, Sys.resume, hkind, Kind.afterFailedResume, MainPc.stopping]
    exact h.launched (by rw [hmain]; rfl) rfl rfl rfl rfl rfl hnext.1 (by simp [hnext.2])
  | read st =>
    have hmain : s.main = .waiting := beq_iff_eq.mp (Bool.and_eq_true_iff.mp hen).1
    have hnext : (effect s (.read st)).main ≠ .join ∧
        (effect s (.read st)).main.stopping = false := by
      cases hst : st.isSigstop <;> simp [effect, Sys.read, hst, MainPc.stopping]
    exact h.launched (by rw [hmain]; rfl) rfl rfl rfl rfl rfl hnext.1 (by simp [hnext.2])
  | suspendCb =>
    exact h.launched (by rw [beq_iff_eq.mp hen]; rfl) rfl rfl rfl rfl rfl (by rintro ⟨⟩)
      (by rintro ⟨⟩)
  | exitCb =>
    -- the exit is signalled
    exact h.launched (by rw [beq_iff_eq.mp hen]; rfl) rfl rfl rfl rfl rfl (by rintro ⟨⟩)
      fun _ => .inl rfl
  | disable ok =>
    cases ok with
    | true =>
      have hmain : s.main = .disable := beq_iff_eq.mp hen
      exact h.launched (by rw [hmain]; rfl) rfl rfl rfl rfl rfl (by rintro ⟨⟩) fun _ =>
        .inr ⟨by rw [hmain]; rfl, rfl⟩
    | false => simp [Undisturbed] at hc
  | signalStop =>
    have hmain : s.main = .signalStop := beq_iff_eq.mp hen
    refine ⟨?_, ?_, ?_, fun _ => .inl rfl⟩
    · intro _
      exact h.pid (by rw [hmain]; decide)
    · intro _
      exact h.ready (by rw [hmain]; rfl)
    · intro hd _
      exact h.woken hd (by rw [hmain]; rfl)
  | join => exact .starting (by rintro ⟨⟩) fun h5 => absurd h5 (show ¬ 5 ≤ 0 by decide)
  | waitStart => exact h.waitStart hen
  | entry | drainFetch | drainEnable =>
    exact h.polling rfl rfl rfl rfl (by simp [beq_iff_eq.mp hen]) (by rw [beq_iff_eq.mp hen]; rfl)
      (by rintro ⟨⟩) (by rintro ⟨⟩)
  | poll r =>
    have hdec : s.dec = .poll := beq_iff_eq.mp hen
    refine h.decide (by simp [hdec]) (by rw [hdec]; rfl) rfl ?_
    cases r <;> simp
  | check filled =>
    have hdec : s.dec = .check := beq_iff_eq.mp (Bool.and_eq_true_iff.mp hen).1
    refine h.decide (by simp [hdec]) (by rw [hdec]; rfl) rfl ?_
    cases filled <;> simp
  | drainDisable ok =>
    have hdec : s.dec = .drainDisable := beq_iff_eq.mp hen
    refine h.decide (by simp [hdec]) (by rw [hdec]; rfl) rfl ?_
    cases ok <;> simp
  | sendCont r =>
    have hdec : s.dec = .sendCont := beq_iff_eq.mp hen
    refine h.decide (by simp [hdec]) (by rw [hdec]; rfl) rfl ?_
    cases r <;> simp [KillResult.orLeave]
  | sendStop r => exact h.sendStop hh hg hen hc
  | waitSuspend =>
    have hdec : s.dec = .waitSuspend := beq_iff_eq.mp (Bool.and_eq_true_iff.mp hen).1
    exact h.decide (by simp [hdec]) (by rw [hdec]; rfl) rfl (by simp)
  | drainDecode p ok =>
    have hdec : s.dec = .drainDecode := beq_iff_eq.mp hen
    refine h.decide (by simp [hdec]) (by rw [hdec]; rfl) rfl ?_
    cases ok <;> simp
  | waitStop | finalFetch | finalDecode => exact h.leaving rfl rfl rfl rfl
  | exit => exact h.exit hh hen
  | _ => exact h.keep rfl

/-! ### Runs -/

/-- A reachable state is not stuck. -/
theorem Wakes.not_stuck (h : Wakes s) : ¬ Stuck s := by
  rintro ⟨hmain, hready, hblocked⟩
  have hlaunched : s.main.phase = .launched := by
    rw [hmain]
    rfl
  rcases hblocked with ⟨hidle, hstart⟩ | ⟨hdec, hsusp⟩ | ⟨hdec, hstop⟩
  · rw [h.ready hlaunched hidle hstart] at hready
    cases hready
  · rw [h.woken hdec (by rw [hmain]; rfl)] at hsusp
    cases hsusp
  · rcases h.stop hmain with hset | hp | ⟨hidle, -⟩
    · rw [hset] at hstop
      cases hstop
    · rw [hdec] at hp
      cases hp
    · rw [hdec] at hidle
      cases hidle

/-- The runs in which no calibration run is left with its trace running. -/
def NotAbandoning (s : Sys n) (l : Label n) : Bool :=
  Undisturbed s l && !l.abandons s

/-- **No lost wake-up.** As long as no `kill(SIGCONT)` of a calibration run fails,
`stop_trace()` never waits for a decoder thread that waits for a flag nobody
sets. -/
theorem no_lost_wakeup (b : Build) (n : ℕ) (s : Sys n)
    (h : ((traceSystem b n).restrict NotAbandoning).machine.Reachable s) : ¬ Stuck s := by
  have hinv : Handshake s ∧ Wire s ∧ Reaped s ∧ Wakes s := by
    refine Guarded.invariant_restrict (I := fun s => Handshake s ∧ Wire s ∧ Reaped s ∧ Wakes s)
      h ?_ ?_
    · rintro _ ⟨bitmap, rfl⟩
      exact ⟨.afterInit bitmap, .afterInit bitmap, .afterInit bitmap, .afterInit bitmap⟩
    · rintro s l ⟨hh, hw, hg, hk⟩ hen hc
      obtain ⟨hu, ha⟩ := Bool.and_eq_true_iff.mp hc
      have hkeep : l.abandons s = false := by simpa using ha
      exact ⟨hh.step hen hkeep, hw.step hen hkeep, hg.step hw hen hu,
        hk.step hh hg hen hu hkeep⟩
  exact hinv.2.2.2.not_stuck

/-- A child that exits in a drain: the main thread waits for a drain that the exit
callback has woken. -/
theorem no_lost_wakeup_drained :
    let s := (traceSystem .coresight 1).run (.afterInit fun _ => 0#8)
      (startExec ++ [.check true, .sendStop .ok, .childDie (.exited 0), .relay,
        .read (.exited 0), .exitCb, .disable true, .signalStop])
    s.main = .join ∧ s.decoderReady = false ∧ s.dec = .waitSuspend ∧ ¬ Stuck s := by
  refine ⟨by decide, by decide, by decide, no_lost_wakeup .coresight 1 _ ?_⟩
  exact Guarded.reachable_of_applicable (.of_init ⟨_, rfl⟩) (by decide)

/-- A calibration run whose child is killed before it is resumed, and the attempt
that follows. The forkserver's last word on the killed child is read as the pid
of the next, and the pid of the next as its status. -/
def abandonedRun : List (Label 1) :=
  [.begin .calibration true, .affinity true, .clear, .arm, .reset true, .enable true,
    .signalStart, .childDie (.signaled 9), .relay, .resume .esrch, .waitStart, .entry,
    .poll .esrch, .begin .first true, .affinity true, .clear, .arm, .reset true, .enable true,
    .signalStart, .resume .ok, .read (.exited 0), .exitCb, .disable true, .signalStop, .waitStop,
    .finalFetch, .finalDecode ⟨id, false⟩ true, .exit, .waitStart, .entry, .poll .esrch]

/-- **A calibration run left behind takes the next stop signal.** Its polling is
still under way when the attempt after it signals its stop, and ends with it. The
polling of that attempt makes `decoder_ready` false again and waits for a stop
signal, for which the main thread waits in turn. -/
theorem lost_wakeup :
    ∃ s, ((traceSystem .stalker 1).restrict Undisturbed).machine.Reachable s ∧ Stuck s := by
  refine ⟨((traceSystem .stalker 1).restrict Undisturbed).run (.afterInit fun _ => 0#8)
    abandonedRun, ?_, ?_⟩
  · exact Guarded.reachable_of_applicable (.of_init ⟨_, rfl⟩) (by decide)
  · exact ⟨by decide, by decide, .inr (.inr ⟨by decide, by decide⟩)⟩

end Threads
end CsTrace
