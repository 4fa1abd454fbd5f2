import CoresightTrace.Proxy.Protocol

/-!
# The inner pipes stay in step

Between two of its calls the proxy is in one of four situations (`Stage`): there
is no child, a pid is on its way, it holds a stopped child, or it waits for the
child it has continued. In each of them the inner pipes, the forkserver and the
child are determined up to the moves the forkserver makes on its own
(`Wired`). Every step leads from one to another.

What the proxy's untyped reads get out of it is in `Awaiting.head` and
`Running.head`: a word it reads as a pid was written as the pid of a fresh,
stopped child, and a word it reads as a status as a status of the child it last
continued.
-/

namespace CsTrace
namespace CsProxy

open Governor (InitReads CpuPolicy)

variable {cfg : Config} {s : Sys} {l : Label}

/-! ### Stages -/

/-- The proxy's situation. -/
inductive Stage where
  | noChild
  | awaiting
  | holding
  | running
deriving DecidableEq, Repr

/-- The situation at a program counter. -/
def Pc.stage : Pc → Stage
  | .request | .forward | .fork _ | .finish _ | .verdict | .endTestcase => .noChild
  | .handed | .forked _ => .awaiting
  | .start _ | .report | .cont _ => .holding
  | .wait _ => .running

/-- The word is a stop by `SIGSTOP` of the newest child. -/
def IsStop (s : Sys) (w : Word) : Prop :=
  w.isPid = false ∧ w.child = s.forks ∧ sigstopped w.val = true

/-- No child is there, and the forkserver waits for a token. -/
structure NoChild (s : Sys) : Prop where
  ctl : s.ctl = []
  st : s.st = []
  fs : s.fs = .token

/-- A token, a child, or its pid is on its way. -/
inductive Awaiting (s : Sys) : Prop
  | token (w : Raw) (ctl : s.ctl = [w]) (st : s.st = []) (fs : s.fs = .token)
  | forked (ctl : s.ctl = []) (st : s.st = []) (fs : s.fs = .writePid) (fresh : s.resumed = false)
  | written (ctl : s.ctl = []) (st : s.st = [⟨s.pidOf s.forks, true, s.forks⟩])
      (fs : s.fs = .relay) (fresh : s.resumed = false)

/-- The proxy knows the newest child, which has stopped itself. -/
structure Holding (s : Sys) : Prop where
  ctl : s.ctl = []
  st : s.st = []
  fs : s.fs = .relay
  fresh : s.resumed = false
  held : s.held = s.forks
  pid : s.proxy.childPid = s.pidOf s.forks

/-- The newest child is the one last continued. What is in the pipe are its stops,
and after them its last status once there is one. -/
inductive Running (s : Sys) : Prop
  | relaying (ctl : s.ctl = []) (last : s.lastResumed = s.forks) (resumed : s.resumed = true)
      (fs : s.fs = .relay) (stops : ∀ w ∈ s.st, IsStop s w)
  | ended (ws : List Word) (v : Raw) (ctl : s.ctl = []) (last : s.lastResumed = s.forks)
      (fs : s.fs = .token) (st : s.st = ws ++ [⟨v, false, s.forks⟩])
      (stops : ∀ w ∈ ws, IsStop s w) (lastStatus : sigstopped v = false)
      (terminal : s.terminal s.forks = some v)

/-- The pipes, the forkserver and the child in each stage. -/
def Wired (s : Sys) : Stage → Prop
  | .noChild => NoChild s
  | .awaiting => Awaiting s
  | .holding => Holding s
  | .running => Running s

/-- A calibration run is one of a ramp. -/
def Pc.ramping (p : Proxy) : Pc → Prop
  | .fork (.calibrate _ _ again) | .forked (.calibrate _ _ again)
  | .start (.calibrate _ _ again) | .cont (.calibrate _ _ again)
  | .wait (.calibrate _ _ again) | .finish (.calibrate _ _ again) => p.Ramping again
  | _ => True

/-- **The three parties are in step.** -/
structure InStep (s : Sys) : Prop where
  wired : Wired s s.proxy.pc.stage
  ramping : s.proxy.pc.ramping s.proxy
  /-- A child that is still relayed, or not yet born, has no last status. -/
  alive : s.fs ≠ .token → s.terminal s.forks = none
  unborn : ∀ c, s.forks < c → s.terminal c = none
  /-- A child run is over when the child's last status was read. -/
  reaped : ∀ t, s.proxy.pc = .finish t → s.terminal s.forks = some s.proxy.waitStatus

theorem InStep.initial (policy : CpuPolicy) : InStep (.initial cfg policy) :=
  ⟨⟨rfl, rfl, rfl⟩, trivial, fun _ => rfl, fun _ _ => rfl, nofun⟩

theorem InStep.at_stage (h : InStep s) {pc : Pc} (hpc : s.proxy.pc = pc) : Wired s pc.stage :=
  hpc ▸ h.wired

theorem InStep.wired_of_stage (h : InStep s) {stage : Stage} (hs : s.proxy.pc.stage = stage) :
    Wired s stage :=
  hs ▸ h.wired

/-! ### Steps of the proxy -/

/-- A step that moves the proxy from one place without a child to another. -/
theorem InStep.noChild {p : Proxy} {t : Sys} (h : InStep s) (hs : s.proxy.pc.stage = .noChild)
    (hp : p.pc.stage = .noChild) (hfin : ∀ t, p.pc ≠ .finish t) (hramp : p.pc.ramping p)
    (ht : t = { s with
      proxy := p, requests := t.requests, outer := t.outer, received := t.received,
      current := t.current, finished := t.finished }) : InStep t := by
  have hw : NoChild s := h.wired_of_stage hs
  rw [ht]
  refine ⟨?_, hramp, h.alive, h.unborn, fun t hfinish => absurd hfinish (hfin t)⟩
  change Wired _ p.pc.stage
  rw [hp]
  exact ⟨hw.ctl, hw.st, hw.fs⟩

/-- A token is sent. -/
theorem InStep.send (h : InStep s) (hs : s.proxy.pc.stage = .noChild) {pc : Pc} (w : Raw)
    (hpc : pc.stage = .awaiting) (hfin : ∀ t, pc ≠ .finish t)
    (hramp : pc.ramping (s.proxy.goto pc)) :
    InStep { s with proxy := s.proxy.goto pc, ctl := s.ctl ++ [w] } := by
  have hw : NoChild s := h.wired_of_stage hs
  refine ⟨?_, hramp, h.alive, h.unborn, fun t hfinish => absurd hfinish (hfin t)⟩
  change Wired _ pc.stage
  rw [hpc]
  exact .token w (by simp [hw.ctl]) hw.st hw.fs

/-- The word that answers a token. -/
theorem Awaiting.head (h : Awaiting s) {w : Word} (hw : s.st.head? = some w) :
    (w = ⟨s.pidOf s.forks, true, s.forks⟩ ∧ s.st.tail = []) ∧
      s.ctl = [] ∧ s.fs = .relay ∧ s.resumed = false := by
  cases h with
  | token _ _ st _ => simp [st] at hw
  | forked _ st _ _ => simp [st] at hw
  | written ctl st fs fresh =>
    refine ⟨⟨?_, by simp [st]⟩, ctl, fs, fresh⟩
    simpa [st] using hw.symm

/-- The pid is read, and the proxy holds the child. -/
theorem InStep.take (h : InStep s) (hs : s.proxy.pc.stage = .awaiting) {w : Word}
    (hw : s.st.head? = some w) {p : Proxy} (hpid : p.childPid = w.val)
    (hp : p.pc.stage = .holding) (hfin : ∀ t, p.pc ≠ .finish t) (hramp : p.pc.ramping p) :
    InStep { s with proxy := p, st := s.st.tail, held := w.child } := by
  have ha : Awaiting s := h.wired_of_stage hs
  obtain ⟨⟨rfl, htail⟩, hctl, hfs, hfresh⟩ := ha.head hw
  refine ⟨?_, hramp, h.alive, h.unborn, fun t hfinish => absurd hfinish (hfin t)⟩
  change Wired _ p.pc.stage
  rw [hp]
  exact ⟨hctl, htail, hfs, hfresh, rfl, hpid⟩

/-- A step of the proxy on the child it holds. -/
theorem InStep.hold {p : Proxy} {t : Sys} (h : InStep s) (hs : s.proxy.pc.stage = .holding)
    (hp : p.pc.stage = .holding) (hpid : p.childPid = s.proxy.childPid)
    (hfin : ∀ t, p.pc ≠ .finish t) (hramp : p.pc.ramping p)
    (ht : t = { s with proxy := p, outer := t.outer, current := t.current }) : InStep t := by
  have hw : Holding s := h.wired_of_stage hs
  rw [ht]
  refine ⟨?_, hramp, h.alive, h.unborn, fun t hfinish => absurd hfinish (hfin t)⟩
  change Wired _ p.pc.stage
  rw [hp]
  exact ⟨hw.ctl, hw.st, hw.fs, hw.fresh, hw.held, hpid.trans hw.pid⟩

/-- The child is continued: the pid the proxy holds is its pid. -/
theorem InStep.kill (h : InStep s) {t : Task} (hpc : s.proxy.pc = .cont t) :
    InStep (s.kill t) := by
  have hw : Holding s := h.at_stage hpc
  have hramp : Pc.ramping s.proxy (.cont t) := hpc ▸ h.ramping
  refine ⟨?_, ?_, h.alive, h.unborn, nofun⟩
  · exact Running.relaying hw.ctl (by simp [Sys.kill, hw.pid]) (by simp [Sys.kill, hw.pid]) hw.fs
      (by simp [Sys.kill, hw.st])
  · cases t <;> exact hramp

/-- The word read next from a child that was continued. -/
theorem Running.head (h : Running s) {w : Word} (hw : s.st.head? = some w) :
    (w.isPid = false ∧ w.child = s.forks ∧ s.lastResumed = s.forks) ∧
      (sigstopped w.val = false →
        s.ctl = [] ∧ s.st.tail = [] ∧ s.fs = .token ∧ s.terminal s.forks = some w.val) := by
  cases h with
  | relaying ctl last resumed fs stops =>
    -- nothing but stops has been relayed
    obtain ⟨hpid, hchild, hstop⟩ := stops w (List.mem_of_head? hw)
    exact ⟨⟨hpid, hchild, last⟩, fun hno => absurd hstop (by simp [hno])⟩
  | ended ws v ctl last fs st stops lastStatus terminal =>
    -- the last status comes when the stops before it are used up
    cases ws with
    | nil =>
      obtain rfl : ⟨v, false, s.forks⟩ = w := by simpa [st] using hw
      exact ⟨⟨rfl, rfl, last⟩, fun _ => ⟨ctl, by simp [st], fs, terminal⟩⟩
    | cons w' ws =>
      obtain rfl : w' = w := by simpa [st] using hw
      obtain ⟨hpid, hchild, hstop⟩ := stops w' (by simp)
      exact ⟨⟨hpid, hchild, last⟩, fun hno => absurd hstop (by simp [hno])⟩

/-- After a stop the proxy goes on waiting for the same child. -/
theorem Running.tail {t : Sys} (h : Running s) {w : Word} (hw : s.st.head? = some w)
    (hstop : sigstopped w.val = true) (hproxy : t = { s with proxy := t.proxy, st := s.st.tail }) :
    Running t := by
  rw [hproxy]
  cases h with
  | relaying ctl last resumed fs stops =>
    exact .relaying ctl last resumed fs fun w' hw' => stops w' (List.mem_of_mem_tail hw')
  | ended ws v ctl last fs st stops lastStatus terminal =>
    cases ws with
    | nil =>
      obtain rfl : ⟨v, false, s.forks⟩ = w := by simpa [st] using hw
      exact absurd hstop (by simp [lastStatus])
    | cons w' ws =>
      exact .ended ws v ctl last fs (by simp [st]) (fun w hw => stops w (by simp [hw])) lastStatus
        terminal

theorem InStep.readStatus (h : InStep s) {t : Task} {w : Word} (hpc : s.proxy.pc = .wait t)
    (hw : s.st.head? = some w) : InStep (effect cfg s (.readStatus t w)) := by
  have hr : Running s := h.at_stage hpc
  have hramp : Pc.ramping s.proxy (.wait t) := hpc ▸ h.ramping
  cases hstop : sigstopped w.val with
  | true =>
    refine ⟨?_, ?_, h.alive, h.unborn, ?_⟩
    · simp only [effect, hstop, if_true]
      exact hr.tail hw hstop rfl
    · simp only [effect, hstop, if_true]
      cases t <;> exact hramp
    · simp [effect, hstop]
  | false =>
    obtain ⟨hctl, htail, hfs, hterm⟩ := (hr.head hw).2 hstop
    refine ⟨?_, ?_, h.alive, h.unborn, fun _ _ => hterm⟩
    · simp only [effect, hstop]
      exact ⟨hctl, htail, hfs⟩
    · simp only [effect, hstop]
      cases t <;> exact hramp

/-! ### Steps of the forkserver -/

/-- The forkserver forks for a token the proxy waits on. -/
theorem InStep.forks (h : InStep s) (hctl : s.ctl ≠ []) :
    s.proxy.pc.stage = .awaiting ∧ s.st = [] ∧ ∃ w, s.ctl = [w] := by
  have hw := h.wired
  -- in every other situation there is no token
  cases hstage : s.proxy.pc.stage with
  | noChild | holding =>
    rw [hstage] at hw
    exact absurd hw.ctl hctl
  | running =>
    rw [hstage] at hw
    cases hw with
    | relaying ctl => exact absurd ctl hctl
    | ended ws v ctl => exact absurd ctl hctl
  | awaiting =>
    rw [hstage] at hw
    cases hw with
    | token w ctl st fs => exact ⟨rfl, st, w, ctl⟩
    | forked ctl => exact absurd ctl hctl
    | written ctl => exact absurd ctl hctl

/-- The forkserver writes a pid the proxy waits for. -/
theorem InStep.writes (h : InStep s) (hfs : s.fs = .writePid) :
    s.proxy.pc.stage = .awaiting ∧ s.ctl = [] ∧ s.st = [] ∧ s.resumed = false := by
  have hw := h.wired
  -- in every other situation the forkserver is elsewhere
  cases hstage : s.proxy.pc.stage with
  | noChild | holding =>
    rw [hstage] at hw
    exact absurd hw.fs (by simp [hfs])
  | running =>
    rw [hstage] at hw
    cases hw with
    | relaying _ _ _ fs => exact absurd fs (by simp [hfs])
    | ended _ _ _ _ fs => exact absurd fs (by simp [hfs])
  | awaiting =>
    rw [hstage] at hw
    cases hw with
    | token _ _ _ fs => exact absurd fs (by simp [hfs])
    | written _ _ fs => exact absurd fs (by simp [hfs])
    | forked ctl st fs fresh => exact ⟨rfl, ctl, st, fresh⟩

/-- The forkserver relays a status of the child the proxy waits for. -/
theorem InStep.relays (h : InStep s) (hfs : s.fs = .relay) (hres : s.resumed = true) :
    s.proxy.pc.stage = .running ∧ s.ctl = [] ∧ s.lastResumed = s.forks ∧
      ∀ w ∈ s.st, IsStop s w := by
  have hw := h.wired
  -- a child that is relayed and was not continued is one the proxy holds or waits for
  cases hstage : s.proxy.pc.stage with
  | noChild =>
    rw [hstage] at hw
    exact absurd hw.fs (by simp [hfs])
  | holding =>
    rw [hstage] at hw
    exact absurd hw.fresh (by simp [hres])
  | awaiting =>
    rw [hstage] at hw
    cases hw with
    | token _ _ _ fs => exact absurd fs (by simp [hfs])
    | forked _ _ fs => exact absurd fs (by simp [hfs])
    | written _ _ _ fresh => exact absurd fresh (by simp [hres])
  | running =>
    rw [hstage] at hw
    cases hw with
    | relaying ctl last resumed fs stops => exact ⟨rfl, ctl, last, stops⟩
    | ended _ _ _ _ fs => exact absurd fs (by simp [hfs])

theorem Pc.ne_finish_of_stage (pc : Pc) (h : pc.stage ≠ .noChild) (t : Task) :
    pc ≠ .finish t := by
  rintro rfl
  exact h rfl

theorem InStep.fsFork (h : InStep s) {pid : Raw} (hen : enabled s (.fsFork pid) = true) :
    InStep (effect cfg s (.fsFork pid)) := by
  simp only [enabled, Bool.and_eq_true, beq_iff_eq, Bool.not_eq_true', List.isEmpty_eq_false_iff]
    at hen
  obtain ⟨hstage, hst, w, hctl⟩ := h.forks hen.1.2
  refine ⟨?_, h.ramping, ?_, ?_, ?_⟩
  · change Wired _ s.proxy.pc.stage
    rw [hstage]
    exact .forked (by simp [effect, hctl]) hst rfl rfl
  · -- the new child was not born before
    intro _
    exact h.unborn _ (Nat.lt_succ_self _)
  · intro c hc
    exact h.unborn c (Nat.lt_of_succ_lt hc)
  · intro t hfin
    exact absurd hfin (Pc.ne_finish_of_stage s.proxy.pc (by rw [hstage]; nofun) t)

theorem InStep.fsWritePid (h : InStep s) (hen : enabled s .fsWritePid = true) :
    InStep (effect cfg s .fsWritePid) := by
  have hfs : s.fs = .writePid := beq_iff_eq.mp hen
  obtain ⟨hstage, hctl, hst, hfresh⟩ := h.writes hfs
  refine ⟨?_, h.ramping, fun _ => h.alive (by simp [hfs]), h.unborn, h.reaped⟩
  change Wired _ s.proxy.pc.stage
  rw [hstage]
  exact .written hctl (by simp [effect, hst]) rfl hfresh

theorem InStep.relay (h : InStep s) {v : Raw} (hen : enabled s (.relay v) = true) :
    InStep (s.relay v) := by
  obtain ⟨hfs, hresumed⟩ := Bool.and_eq_true_iff.mp hen
  have hfs : s.fs = .relay := beq_iff_eq.mp hfs
  have hnone := h.alive (by simp [hfs])
  obtain ⟨hstage, hctl, hlast, hstops⟩ := h.relays hfs hresumed
  have hover := Pc.ne_finish_of_stage s.proxy.pc (by rw [hstage]; nofun)
  cases hstop : sigstopped v with
  | true =>
    -- one more stop in the pipe, and the child goes on to be waited for
    refine ⟨?_, h.ramping, ?_, ?_, fun t hfin => absurd hfin (hover t)⟩
    · change Wired _ s.proxy.pc.stage
      rw [hstage]
      refine .relaying hctl hlast hresumed (by simp [Sys.relay, hstop]) ?_
      intro w hw
      rcases List.mem_append.mp hw with hw | hw
      · exact hstops w hw
      · rw [List.mem_singleton.mp hw]
        exact ⟨rfl, rfl, hstop⟩
    · simp [Sys.relay, hstop, hnone]
    · simpa [Sys.relay, hstop] using h.unborn
  | false =>
    -- the child has ended, and this is the last word about it
    refine ⟨?_, h.ramping, ?_, ?_, fun t hfin => absurd hfin (hover t)⟩
    · change Wired _ s.proxy.pc.stage
      rw [hstage]
      exact .ended s.st v hctl hlast (by simp [Sys.relay, hstop]) rfl hstops hstop
        (by simp [Sys.relay, hstop])
    · simp [Sys.relay, hstop]
    · intro c hc
      have hne : c ≠ s.forks := Nat.ne_of_gt hc
      simpa [Sys.relay, hstop, Function.update_of_ne hne] using h.unborn c hc

/-! ### The whole step -/

/-- A child run is followed by another fork or by the end of the test case. -/
theorem finish_spec (cfg : Config) (p : Proxy) (t : Task) (o : Bool)
    (hramp : Pc.ramping p (.finish t)) :
    (p.finish cfg t o).pc.stage = .noChild ∧ (∀ t', (p.finish cfg t o).pc ≠ .finish t') ∧
      (p.finish cfg t o).pc.ramping (p.finish cfg t o) := by
  cases t with
  | calibrate mode i again =>
    -- a rung is followed by another rung or by the attempt
    rcases endRung_refork cfg mode i (cfg.decodingOn && o) hramp with
      hpc | ⟨mode', i', again', hpc, hramp', -⟩
    · change (p.endRung cfg mode i again _).pc.stage = _ ∧ (∀ t', (p.endRung ..).pc ≠ _) ∧
        (p.endRung ..).pc.ramping _
      rw [hpc]
      exact ⟨rfl, nofun, trivial⟩
    · change (p.endRung cfg mode i again _).pc.stage = _ ∧ (∀ t', (p.endRung ..).pc ≠ _) ∧
        (p.endRung ..).pc.ramping _
      rw [hpc]
      exact ⟨rfl, nofun, hramp'⟩
  | attempt first =>
    unfold Proxy.finish
    dsimp only
    generalize (Governor.endAttempt _ _ _ _ _).2 = next
    cases next with
    | retry | forceMin => exact ⟨rfl, nofun, trivial⟩
    | done =>
      rcases afterAttempt_done cfg _ with hpc | hpc <;> rw [hpc] <;> exact ⟨rfl, nofun, trivial⟩
  | confirm | sample => exact ⟨rfl, nofun, trivial⟩

theorem verdict_spec (cfg : Config) (p : Proxy) (confirm : Bool) :
    (p.verdict cfg confirm).pc = .fork .confirm ∨ (p.verdict cfg confirm).pc = .fork .sample ∨
      (p.verdict cfg confirm).pc = .endTestcase := by
  unfold Proxy.verdict
  split
  · exact .inl rfl
  · split
    · dsimp only
      split
      · exact .inr (.inl rfl)
      · exact .inr (.inr rfl)
    · exact .inr (.inr rfl)

theorem start_spec (cfg : Config) (p : Proxy) (t : Task) :
    (p.start cfg t).childPid = p.childPid ∧ ((p.start cfg t).pc = .report ∧ t = .attempt true ∨
      (p.start cfg t).pc = .cont t ∧ t ≠ .attempt true) := by
  unfold Proxy.start
  by_cases ht : t = .attempt true
  · exact ⟨rfl, .inl ⟨if_pos ht, ht⟩⟩
  · exact ⟨rfl, .inr ⟨if_neg ht, ht⟩⟩

theorem InStep.start (h : InStep s) {t : Task} (hpc : s.proxy.pc = .start t) :
    InStep (effect cfg s (.start t)) := by
  have hs : s.proxy.pc.stage = .holding := by
    rw [hpc]
    rfl
  have hramp : Pc.ramping s.proxy (.start t) := hpc ▸ h.ramping
  obtain ⟨hpid, ⟨hnext, rfl⟩ | ⟨hnext, -⟩⟩ := start_spec cfg s.proxy t
  · refine h.hold (p := s.proxy.start cfg _) hs ?_ hpid ?_ ?_ rfl <;> rw [hnext]
    · rfl
    · nofun
    · exact trivial
  · refine h.hold (p := s.proxy.start cfg t) hs ?_ hpid ?_ ?_ rfl <;> rw [hnext]
    · rfl
    · nofun
    · cases t <;> exact hramp

theorem InStep.handed (h : InStep s) {r : InitReads} {w : Word}
    (hen : enabled s (.handed r w) = true) : InStep (effect cfg s (.handed r w)) := by
  obtain ⟨hpc, hw⟩ := Bool.and_eq_true_iff.mp hen
  have hs : s.proxy.pc.stage = .awaiting := by
    rw [beq_iff_eq.mp hpc]
    rfl
  obtain ⟨hpid, hnext | ⟨mode, hnext, hramp⟩⟩ := handed_spec cfg s.proxy r w.val
  · refine h.take hs (beq_iff_eq.mp hw) hpid ?_ ?_ ?_ <;> rw [hnext]
    · rfl
    · nofun
    · exact trivial
  · refine h.take hs (beq_iff_eq.mp hw) hpid ?_ ?_ ?_ <;> rw [hnext]
    · rfl
    · nofun
    · exact hramp

/-- **Every step keeps the parties in step.** -/
theorem InStep.step (h : InStep s) (hen : enabled s l = true) : InStep (effect cfg s l) := by
  cases l with
  | ask w =>
    -- a request waits in its pipe; the inner pipes do not see it
    refine ⟨?_, h.ramping, h.alive, h.unborn, h.reaped⟩
    have hw := h.wired
    change Wired _ s.proxy.pc.stage
    cases hstage : s.proxy.pc.stage with
    | noChild =>
      rw [hstage] at hw
      exact ⟨hw.ctl, hw.st, hw.fs⟩
    | holding =>
      rw [hstage] at hw
      exact ⟨hw.ctl, hw.st, hw.fs, hw.fresh, hw.held, hw.pid⟩
    | awaiting =>
      rw [hstage] at hw
      cases hw with
      | token w ctl st fs => exact .token w ctl st fs
      | forked ctl st fs fresh => exact .forked ctl st fs fresh
      | written ctl st fs fresh => exact .written ctl st fs fresh
    | running =>
      rw [hstage] at hw
      cases hw with
      | relaying ctl last resumed fs stops => exact .relaying ctl last resumed fs stops
      | ended ws v ctl last fs st stops lastStatus terminal =>
        exact .ended ws v ctl last fs st stops lastStatus terminal
  | readRequest w =>
    have hpc : s.proxy.pc = .request := pc_of_enabled hen rfl
    exact h.noChild (p := { s.proxy with pc := .forward, wasKilled := w }) (by rw [hpc]; rfl) rfl
      nofun trivial rfl
  | forward => exact h.send (by rw [pc_of_enabled hen rfl]; rfl) s.proxy.wasKilled rfl nofun trivial
  | handed r w => exact h.handed hen
  | fork t =>
    have hpc : s.proxy.pc = .fork t := pc_of_enabled hen rfl
    have hramp : Pc.ramping s.proxy (.fork t) := hpc ▸ h.ramping
    refine h.send (by rw [hpc]; rfl) 0 rfl nofun ?_
    cases t <;> exact hramp
  | forked t w =>
    have hpc : s.proxy.pc = .forked t := pc_of_enabled hen rfl
    have hw := beq_iff_eq.mp (Bool.and_eq_true_iff.mp hen).2
    have hramp : Pc.ramping s.proxy (.forked t) := hpc ▸ h.ramping
    refine h.take (p := { s.proxy with pc := .start t, childPid := w.val }) (by rw [hpc]; rfl)
      hw rfl rfl nofun ?_
    cases t <;> exact hramp
  | start t => exact h.start (pc_of_enabled hen rfl)
  | report =>
    exact h.hold (p := s.proxy.goto (.cont (.attempt true)))
      (by rw [pc_of_enabled hen rfl]; rfl) rfl rfl nofun trivial rfl
  | cont t => exact h.kill (pc_of_enabled hen rfl)
  | readStatus t w =>
    obtain ⟨hpc, hw⟩ := Bool.and_eq_true_iff.mp hen
    exact h.readStatus (beq_iff_eq.mp hpc) (beq_iff_eq.mp hw)
  | finish t o =>
    have hpc : s.proxy.pc = .finish t := pc_of_enabled hen rfl
    -- whatever comes next, it begins without a child
    obtain ⟨hstage, hfin, hramp⟩ := finish_spec cfg s.proxy t o (hpc ▸ h.ramping)
    exact h.noChild (p := s.proxy.finish cfg t o) (by rw [hpc]; rfl) hstage hfin hramp rfl
  | verdict confirm =>
    have hpc : s.proxy.pc = .verdict := pc_of_enabled hen rfl
    rcases verdict_spec cfg s.proxy confirm with hnext | hnext | hnext <;>
      refine h.noChild (p := s.proxy.verdict cfg confirm) (by rw [hpc]; rfl) ?_ ?_ ?_ rfl <;>
      rw [hnext] <;> first | rfl | exact trivial | nofun
  | endTestcase =>
    exact h.noChild (p := s.proxy.endTestcase cfg) (by rw [pc_of_enabled hen rfl]; rfl) rfl nofun
      trivial rfl
  | fsFork pid => exact h.fsFork hen
  | fsWritePid => exact h.fsWritePid hen
  | relay v => exact h.relay hen

theorem InStep.of_reachable (hs : (proxySystem cfg).machine.Reachable s) : InStep s := by
  refine Guarded.invariant hs ?_ fun s l h hen => h.step hen
  rintro _ ⟨policy, rfl⟩
  exact .initial policy

end CsProxy
end CsTrace
