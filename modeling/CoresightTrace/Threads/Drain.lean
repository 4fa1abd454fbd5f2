import CoresightTrace.Threads.Handshake

/-!
# Drains

While the child runs the decoder thread may stop it, empty the trace buffer and
let it go on: `SIGSTOP`, the wait for `suspend_pending`, disable, fetch, enable,
`SIGCONT`. Two things can go wrong, each in a way of its own.

* `suspend_pending` carries no execution either. The main thread sets it at
  every status it reads, the last one of an execution included, for which no
  drain waits. The first drain of the next execution then passes its wait with
  the child still running (`drain_while_running`). A drain that finds the flag
  clear when it sends `SIGSTOP`, with no status read and not yet signalled, does
  wait for the child (`drain_waits_for_status`).
* The child may exit during a drain. The main thread then disables the sinks for
  good, and the drain, which goes on, enables them again
  (`sinks_on_when_stopped`). As long as `stop_trace()` does not disable the sinks
  within a drain, and no drain stops a child after that, they are off when it
  returns and stay off (`sinks_off_when_stopped`).

The Stalker build never drains: its threshold is `ULONG_MAX`. The coresight build
makes neither repetitions nor calibration runs, so it leaves no execution behind.
-/

namespace CsTrace
namespace Threads

open Hybrid (CovMap)

variable {n : ℕ} {b : Build} {s : Sys n} {l : Label n}

/-! ### The coresight build -/

/-- The coresight build makes first attempts only. -/
theorem kind_effect (hk : s.kind = .first) (hen : enabled .coresight s l = true) :
    (effect s l).kind = .first := by
  cases l with
  | begin kind stops => exact beq_iff_eq.mp (Bool.and_eq_true_iff.mp hen).2
  | _ => exact hk

/-- A first attempt is never left behind. -/
theorem not_abandons_of_first (hk : s.kind = .first) : l.abandons s = false := by
  cases l with
  | resume r => simp [Label.abandons, hk]
  | disable ok => simp [Label.abandons, hk]
  | _ => rfl

/-! ### The sinks after `stop_trace()` -/

/-- The decoder thread is in a drain, between its `SIGSTOP` and its
`enable_cs_trace()`. -/
def DecPc.enabling : DecPc → Bool
  | .waitSuspend | .drainDisable | .drainFetch | .drainEnable => true
  | _ => false

/-- `stop_trace()` has disabled the sinks. -/
def MainPc.disabled : MainPc → Bool
  | .signalStop | .join | .stopped => true
  | _ => false

/-- `stop_trace()` does not disable the sinks while a drain is between its
`SIGSTOP` and its `enable_cs_trace()`, and no drain stops a child after it has. -/
def NoDrainAtStop (s : Sys n) : Label n → Bool
  | .disable ok => !ok || !s.dec.enabling
  | .sendStop r => r != .ok || !s.main.disabled
  | _ => true

/-- Once `stop_trace()` has disabled the sinks they are off, and no drain is about
to enable them. -/
structure SinksOff (s : Sys n) : Prop where
  off : s.main.disabled = true → s.lastOp = some .disable
  noDrain : s.main.disabled = true → s.dec.enabling = false

theorem SinksOff.afterInit (bitmap : CovMap n) : SinksOff (.afterInit bitmap) :=
  ⟨nofun, nofun⟩

/-- A step of the main thread before the disable. -/
theorem SinksOff.of_not_disabled (h : s.main.disabled = false) : SinksOff s := by
  constructor <;> simp [h]

/-- A step within a drain comes before the disable. -/
theorem SinksOff.draining {t : Sys n} (h : SinksOff s) (hd : s.dec.enabling = true)
    (hmain : t.main = s.main) : SinksOff t := by
  refine .of_not_disabled ?_
  rw [hmain]
  by_contra hm
  rw [h.noDrain (by simpa using hm)] at hd
  cases hd

/-- A step that leaves the sinks alone and starts no drain. -/
theorem SinksOff.keep {t : Sys n} (h : SinksOff s)
    (hmain : t.main.disabled = true → s.main.disabled = true) (hop : t.lastOp = s.lastOp)
    (hdec : t.dec.enabling = true → s.dec.enabling = true) : SinksOff t := by
  constructor
  · intro hm
    rw [hop]
    exact h.off (hmain hm)
  · -- a drain that was not about to enable the sinks is not now
    intro hm
    have hno := h.noDrain (hmain hm)
    by_contra hd
    rw [hdec (by simpa using hd)] at hno
    cases hno

theorem SinksOff.step (h : SinksOff s) (hen : enabled b s l = true)
    (hc : NoDrainAtStop s l = true) : SinksOff (effect s l) := by
  cases l with
  | begin | clear | arm | signalStart | suspendCb | exitCb => exact .of_not_disabled rfl
  | affinity ok | enable ok | reset ok => exact .of_not_disabled (by cases ok <;> rfl)
  | resume r =>
    refine .of_not_disabled ?_
    cases r <;> cases hkind : s.kind <;>
      simp [effect, Sys.resume, hkind, Kind.afterFailedResume, MainPc.disabled]
  | read st =>
    refine .of_not_disabled ?_
    cases hst : st.isSigstop <;> simp [effect, Sys.read, hst, MainPc.disabled]
  | disable ok =>
    cases ok with
    | true =>
      -- the one step that promises something: no drain is on its way to its enable
      have hno : s.dec.enabling = false := by simpa [NoDrainAtStop] using hc
      exact ⟨fun _ => rfl, fun _ => hno⟩
    | false =>
      refine .of_not_disabled ?_
      cases hkind : s.kind <;>
        simp [effect, Sys.disable, hkind, Kind.afterFailedStop, MainPc.disabled]
  | signalStop => exact h.keep (fun _ => by rw [beq_iff_eq.mp hen]; rfl) rfl id
  | join =>
    exact h.keep (fun _ => by rw [beq_iff_eq.mp (Bool.and_eq_true_iff.mp hen).1]; rfl) rfl id
  | sendStop r =>
    -- only a stop that succeeds leads into the drain
    cases r with
    | ok =>
      have hno : s.main.disabled = false := by simpa [NoDrainAtStop] using hc
      exact .of_not_disabled hno
    | esrch | error => exact h.keep id rfl (by rintro ⟨⟩)
  | waitSuspend =>
    exact h.draining (by rw [beq_iff_eq.mp (Bool.and_eq_true_iff.mp hen).1]; rfl) rfl
  | drainDisable | drainFetch | drainEnable =>
    exact h.draining (by rw [beq_iff_eq.mp hen]; rfl) rfl
  | poll r | sendCont r => exact h.keep id rfl (by cases r <;> rintro ⟨⟩)
  | check filled => exact h.keep id rfl (by cases filled <;> rintro ⟨⟩)
  | drainDecode p ok => exact h.keep id rfl (by cases ok <;> rintro ⟨⟩)
  | waitStart | entry | waitStop | finalFetch | finalDecode | exit =>
    exact h.keep id rfl (by rintro ⟨⟩)
  | _ => exact h.keep id rfl id

/-- **`stop_trace()` leaves the sinks off.** In every run in which no
`stop_trace()` disables the sinks within a drain, and no drain stops a child after
that, the last call applied to the sinks was a disable whenever `stop_trace()` has
returned 0 and no `start_trace()` has been called since. -/
theorem sinks_off_when_stopped
    (hs : ((traceSystem b n).restrict NoDrainAtStop).machine.Reachable s)
    (hstopped : s.main = .stopped) : s.lastOp = some .disable := by
  have hinv : SinksOff s := by
    refine Guarded.invariant_restrict hs ?_ fun s l h hen hc => h.step hen hc
    rintro _ ⟨bitmap, rfl⟩
    exact .afterInit bitmap
  exact hinv.off (by rw [hstopped]; rfl)

/-- The start of an execution, up to the first poll of its child. -/
def startExec : List (Label 1) :=
  [.begin .first true, .affinity true, .clear, .arm, .reset true, .enable true, .signalStart,
    .resume .ok, .waitStart, .entry, .poll .ok]

/-- The end of an execution whose child has exited, from `stop_trace()` on. -/
def stopExec : List (Label 1) :=
  [.signalStop, .waitStop, .finalFetch, .finalDecode ⟨id, false⟩ true, .exit, .join]

/-- A drained execution leaves the sinks off when its child exits later. -/
theorem sinks_off_when_stopped_drained :
    ((traceSystem .coresight 1).run (.afterInit fun _ => 0#8)
      (startExec ++ [.check true, .sendStop .ok, .childStop sigstop, .relay,
        .read (.stopped sigstop), .suspendCb, .waitSuspend, .drainDisable true, .drainFetch,
        .drainEnable true, .sendCont .ok, .drainDecode ⟨id, false⟩ true, .childDie (.exited 0),
        .relay, .poll .esrch, .read (.exited 0), .exitCb, .disable true] ++ stopExec)).lastOp =
      some .disable := by
  refine sinks_off_when_stopped (b := .coresight) ?_ (by decide)
  exact Guarded.reachable_of_applicable (.of_init ⟨_, rfl⟩) (by decide)

/-- **A drain can leave the sinks on.** The child exits after the `SIGSTOP` of a
drain. The main thread reads its status and disables the sinks, and the drain,
whose wait that status has ended, enables them again before it finds the child
gone; `stop_trace()` returns 0 with the sinks on. -/
theorem sinks_on_when_stopped :
    ∃ s, ((traceSystem .coresight 1).restrict Lawful).machine.Reachable s ∧
      s.main = .stopped ∧ s.lastOp = some .enable := by
  refine ⟨((traceSystem .coresight 1).restrict Lawful).run (.afterInit fun _ => 0#8)
    (startExec ++ [.check true, .sendStop .ok, .childDie (.exited 0), .relay, .read (.exited 0),
      .exitCb, .disable true, .waitSuspend, .drainDisable true, .drainFetch, .drainEnable true,
      .sendCont .esrch] ++ stopExec), ?_, ?_⟩
  · exact Guarded.reachable_of_applicable (.of_init ⟨_, rfl⟩) (by decide)
  · decide

/-! ### The inner pipe -/

/-- The main thread has read the last status of its child, or has none. -/
def MainPc.childDone : MainPc → Bool
  | .idle | .stopped | .exitCb | .disable | .signalStop | .join => true
  | _ => false

/-- The statuses in the pipe are the current child's, in the order it goes
through them: stops by `SIGSTOP`, and then at most one other. -/
structure Wire (s : Sys n) : Prop where
  inStep : s.inStep = true
  tags : ∀ w ∈ s.pipe, w.1 = s.exec
  done : s.main.childDone = true → s.pipe = [] ∧ s.relaying = false
  relaying : s.relaying = true → ∀ w ∈ s.pipe, w.2.isSigstop = true
  stops : ∀ w ∈ s.pipe.dropLast, w.2.isSigstop = true

theorem Wire.afterInit (bitmap : CovMap n) : Wire (.afterInit bitmap) :=
  ⟨rfl, nofun, fun _ => ⟨rfl, rfl⟩, nofun, nofun⟩

/-- A step that leaves the pipe alone and does not end the child. -/
theorem Wire.keep {t : Sys n} (h : Wire s) (hin : t.inStep = s.inStep) (hexec : t.exec = s.exec)
    (hpipe : t.pipe = s.pipe) (hrel : t.relaying = s.relaying)
    (hdone : t.main.childDone = true → s.main.childDone = true) : Wire t := by
  refine ⟨hin.trans h.inStep, ?_, ?_, ?_, ?_⟩
  · rw [hpipe, hexec]
    exact h.tags
  · rw [hpipe, hrel]
    exact fun hm => h.done (hdone hm)
  · rw [hpipe, hrel]
    exact h.relaying
  · rw [hpipe]
    exact h.stops

theorem Wire.begin (h : Wire s) {kind : Kind} {stops : Bool}
    (hen : enabled b s (.begin kind stops) = true) : Wire (effect s (.begin kind stops)) := by
  have hmain : s.main.childDone = true := by
    rcases Bool.or_eq_true_iff.mp (Bool.and_eq_true_iff.mp hen).1 with hm | hm <;>
      rw [beq_iff_eq.mp hm] <;> rfl
  obtain ⟨hpipe, hrel⟩ := h.done hmain
  refine ⟨?_, ?_, nofun, ?_, ?_⟩
  · simp [effect, Sys.begin, Sys.answers, hpipe, hrel, h.inStep]
  all_goals simp [effect, Sys.begin, hpipe]

/-- The word the main thread reads in step. -/
theorem Wire.pipe_of_readable (h : Wire s) {st : Status} (hr : s.readable st = true) :
    ∃ rest, s.pipe = (s.exec, st) :: rest := by
  unfold Sys.readable at hr
  rw [h.inStep] at hr
  cases hpipe : s.pipe with
  | nil => simp [hpipe] at hr
  | cons w rest =>
    obtain ⟨tag, st'⟩ := w
    have htag : tag = s.exec := h.tags (tag, st') (by simp [hpipe])
    have hst : st' = st := by simpa [hpipe] using hr
    exact ⟨rest, by rw [htag, hst]⟩

theorem Wire.read (h : Wire s) {st : Status} (hr : s.readable st = true) : Wire (s.read st) := by
  obtain ⟨rest, hpipe⟩ := h.pipe_of_readable hr
  have htail : (s.read st).pipe = rest := by simp [Sys.read, hpipe]
  refine ⟨h.inStep, ?_, ?_, ?_, ?_⟩
  · rw [htail]
    intro w hw
    exact h.tags w (by simp [hpipe, hw])
  · -- the status ends the wait, so it is the last one
    intro hm
    have hst : st.isSigstop = false := by
      cases hst : st.isSigstop with
      | false => rfl
      | true => simp [Sys.read, hst, MainPc.childDone] at hm
    refine ⟨?_, ?_⟩
    · rw [htail]
      cases rest with
      | nil => rfl
      | cons w rest =>
        have hstop := h.stops (s.exec, st) (by simp [hpipe])
        simp [hst] at hstop
    · change s.relaying = false
      by_contra hrel
      have hstop := h.relaying (by simpa using hrel) (s.exec, st) (by simp [hpipe])
      simp [hst] at hstop
  · rw [htail]
    intro hrel w hw
    exact h.relaying hrel w (by simp [hpipe, hw])
  · rw [htail]
    intro w hw
    refine h.stops w ?_
    rw [hpipe, List.dropLast_cons_of_ne_nil (by rintro rfl; simp at hw)]
    exact List.mem_cons_of_mem _ hw

theorem Wire.relay (h : Wire s) (hen : enabled b s .relay = true) : Wire s.relay := by
  obtain ⟨hrel, hwait⟩ := Bool.and_eq_true_iff.mp hen
  obtain ⟨st, hst⟩ := Option.isSome_iff_exists.mp hwait
  have hpipe : s.relay.pipe = s.pipe ++ [(s.exec, st)] := by simp [Sys.relay, hst]
  have hrel' : s.relay.relaying = st.isSigstop := by simp [Sys.relay, hst]
  refine ⟨h.inStep, ?_, ?_, ?_, ?_⟩
  · rw [hpipe]
    intro w hw
    rcases List.mem_append.mp hw with hw | hw
    · exact h.tags w hw
    · rw [List.mem_singleton.mp hw]
      rfl
  · -- a child that is still relayed is not done
    intro hm
    exact absurd (h.done hm).2 (by simp [hrel])
  · rw [hpipe, hrel']
    intro hst' w hw
    rcases List.mem_append.mp hw with hw | hw
    · exact h.relaying hrel w hw
    · rw [List.mem_singleton.mp hw]
      exact hst'
  · rw [hpipe, List.dropLast_concat]
    exact h.relaying hrel

theorem Wire.step (h : Wire s) (hen : enabled b s l = true) (hk : l.abandons s = false) :
    Wire (effect s l) := by
  cases l with
  | begin kind stops => exact h.begin hen
  | affinity ok | reset ok | enable ok => exact h.keep rfl rfl rfl rfl (by cases ok <;> nofun)
  | clear | arm | signalStart | suspendCb => exact h.keep rfl rfl rfl rfl nofun
  | resume r =>
    -- a child whose `SIGCONT` failed is waited for, or the proxy has ended
    refine h.keep rfl rfl rfl rfl ?_
    cases r <;> cases hkind : s.kind <;>
      simp_all [effect, Sys.resume, Kind.afterFailedResume, MainPc.childDone, Label.abandons]
  | read st => exact h.read (Bool.and_eq_true_iff.mp hen).2
  | exitCb | disable | signalStop =>
    exact h.keep rfl rfl rfl rfl fun _ => by rw [beq_iff_eq.mp hen]; rfl
  | join =>
    exact h.keep rfl rfl rfl rfl fun _ => by
      rw [beq_iff_eq.mp (Bool.and_eq_true_iff.mp hen).1]
      rfl
  | relay => exact h.relay hen
  | _ => exact h.keep rfl rfl rfl rfl id

/-! ### The wait of a drain -/

/-- A drain's `SIGSTOP` finds `suspend_pending` clear and the main thread with no
status read and not yet signalled, and a status read during the drain's wait is
a stop by `SIGSTOP` or a termination. -/
def WaitsAfresh (s : Sys n) : Label n → Bool
  | .sendStop r =>
    r != .ok || (!s.suspendPending && s.main != .suspendCb && s.main != .exitCb)
  | .read st => s.dec != .waitSuspend || st.isSigstop || st.isTermination
  | _ => true

/-- The main thread is about to signal a status. -/
def MainPc.inCallback : MainPc → Bool
  | .suspendCb | .exitCb => true
  | _ => false

/-- A drain is woken by a status read since its `SIGSTOP` only. -/
structure Told (s : Sys n) : Prop where
  waiting : s.dec = .waitSuspend → s.suspendPending = true ∨ s.main.inCallback = true →
    s.told = true
  drained : s.dec = .drainDisable → s.told = true

theorem Told.afterInit (bitmap : CovMap n) : Told (.afterInit bitmap) :=
  ⟨nofun, nofun⟩

/-- A step of the main thread that reads no status. -/
theorem Told.keep {t : Sys n} (h : Told s) (hdec : t.dec = s.dec) (htold : t.told = s.told)
    (hmain : t.suspendPending = true ∨ t.main.inCallback = true →
      s.suspendPending = true ∨ s.main.inCallback = true) : Told t := by
  constructor
  · rw [hdec, htold]
    exact fun hd hp => h.waiting hd (hmain hp)
  · rw [hdec, htold]
    exact h.drained

/-- A status read while a drain waits is of the drained execution's child. -/
theorem Told.read (h : Told s) (hh : Handshake s) (hw : Wire s) {st : Status}
    (hr : s.readable st = true) (hc : WaitsAfresh s (.read st) = true) : Told (s.read st) := by
  obtain ⟨rest, hpipe⟩ := hw.pipe_of_readable hr
  constructor
  · intro hd _
    -- the pipe is in step, and the drain is of the execution whose child it carries
    have hdec : s.dec = .waitSuspend := hd
    have hexec := hh.decExec (by rw [hdec]; nofun)
    have hst : st.isSigstop = true ∨ st.isTermination = true := by
      simpa [WaitsAfresh, hdec] using hc
    simp [Sys.read, hpipe, hw.inStep, hexec, hst]
  · intro hd
    have htold := h.drained hd
    simp [Sys.read, htold]

theorem Told.step (h : Told s) (hh : Handshake s) (hw : Wire s) (hen : enabled b s l = true)
    (hc : WaitsAfresh s l = true) : Told (effect s l) := by
  cases l with
  | begin | clear | arm | signalStart | signalStop | join =>
    exact h.keep rfl rfl fun hp => .inl (hp.resolve_right (by rintro ⟨⟩))
  | affinity ok | reset ok | enable ok =>
    exact h.keep rfl rfl fun hp => .inl (hp.resolve_right (by cases ok <;> rintro ⟨⟩))
  | resume r =>
    refine h.keep rfl rfl fun hp => .inl (hp.resolve_right ?_)
    cases r <;> cases hkind : s.kind <;>
      simp [effect, Sys.resume, hkind, Kind.afterFailedResume, MainPc.inCallback]
  | disable ok =>
    refine h.keep rfl rfl fun hp => .inl (hp.resolve_right ?_)
    cases ok <;> cases hkind : s.kind <;>
      simp [effect, Sys.disable, hkind, Kind.afterFailedStop, MainPc.inCallback]
  | read st => exact h.read hh hw (Bool.and_eq_true_iff.mp hen).2 hc
  | suspendCb | exitCb =>
    exact h.keep rfl rfl fun _ => .inr (by rw [beq_iff_eq.mp hen]; rfl)
  | sendStop r =>
    cases r with
    | ok =>
      -- nothing is set, and nothing is about to be
      simp only [WaitsAfresh, bne_self_eq_false, Bool.false_or, Bool.and_eq_true,
        Bool.not_eq_true', bne_iff_ne, ne_eq] at hc
      obtain ⟨⟨hclear, hsusp⟩, hexit⟩ := hc
      refine ⟨fun _ hp => ?_, by rintro ⟨⟩⟩
      rcases hp with hp | hp
      · exact absurd hp (by simp [effect, hclear])
      · change s.main.inCallback = true at hp
        cases hmain : s.main <;> simp_all [MainPc.inCallback]
    | esrch | error => constructor <;> rintro ⟨⟩
  | waitSuspend =>
    -- the signal that ends the wait was set since the stop was sent
    obtain ⟨hdec, hpend⟩ := Bool.and_eq_true_iff.mp hen
    exact ⟨by rintro ⟨⟩, fun _ => h.waiting (beq_iff_eq.mp hdec) (.inl hpend)⟩
  | waitStart | entry | drainFetch | drainEnable | waitStop | finalFetch | finalDecode | exit =>
    constructor <;> rintro ⟨⟩
  | poll r | sendCont r => cases r <;> constructor <;> rintro ⟨⟩
  | check r | drainDisable r | drainDecode _ r => cases r <;> constructor <;> rintro ⟨⟩
  | _ => exact h.keep rfl rfl id

/-- **A drain waits for the child.** In every run of the coresight build in which
each drain's `SIGSTOP` finds no signal left over, a drain that has passed its
wait and is about to disable the sinks was told: since its `SIGSTOP` the main
thread has read a `SIGSTOP`-stop or a termination of the execution's child. -/
theorem drain_waits_for_status
    (hs : ((traceSystem .coresight n).restrict WaitsAfresh).machine.Reachable s)
    (hdrain : s.dec = .drainDisable) : s.told = true := by
  have hinv := Guarded.invariant_restrict
    (I := fun s => s.kind = .first ∧ Handshake s ∧ Wire s ∧ Told s) hs
    (by
      rintro _ ⟨bitmap, rfl⟩
      exact ⟨rfl, .afterInit bitmap, .afterInit bitmap, .afterInit bitmap⟩)
    fun s l h hen hc => by
      obtain ⟨hk, hh, hw, ht⟩ := h
      have hleft := not_abandons_of_first hk (l := l)
      exact ⟨kind_effect hk hen, hh.step hen hleft, hw.step hen hleft, ht.step hh hw hen hc⟩
  exact hinv.2.2.2.drained hdrain

/-- A drain of the first execution, whose child stops. -/
theorem drain_waits_for_status_first :
    let s := (traceSystem .coresight 1).run (.afterInit fun _ => 0#8)
      (startExec ++ [.check true, .sendStop .ok, .childStop sigstop, .relay,
        .read (.stopped sigstop), .suspendCb, .waitSuspend])
    s.dec = .drainDisable ∧ s.told = true := by
  refine ⟨by decide, drain_waits_for_status ?_ (by decide)⟩
  exact Guarded.reachable_of_applicable (.of_init ⟨_, rfl⟩) (by decide)

/-- **A signal left over lets a drain run over a running child.** The child of
the first execution exits with no drain waiting, and the exit callback sets
`suspend_pending`. The first drain of the second execution passes its wait at
once: its child is running, and no status of it has been read. -/
theorem drain_while_running :
    ∃ s, ((traceSystem .coresight 1).restrict Lawful).machine.Reachable s ∧
      s.dec = .drainDisable ∧ s.told = false ∧ s.child = .running := by
  refine ⟨((traceSystem .coresight 1).restrict Lawful).run (.afterInit fun _ => 0#8)
    (startExec ++ [.check false, .childDie (.exited 0), .relay, .poll .esrch, .read (.exited 0),
      .exitCb, .disable true] ++ stopExec ++ startExec ++
      [.check true, .sendStop .ok, .waitSuspend]), ?_, ?_⟩
  · exact Guarded.reachable_of_applicable (.of_init ⟨_, rfl⟩) (by decide)
  · decide

end Threads
end CsTrace
