import CoresightTrace.Tracer.Phases

/-!
# The runs in which a program is finalised

`Finalises` says what `cs-trace` is for: `stop_trace()` and `fini_trace()` are called
once each, in this order, neither thread is left waiting for the other, and
`parent()` returns. It holds of the runs whose steps meet `Finalisable`
(`finalises_of_finalisable`).

In these runs the decoder thread sees the stop (`Served`). While `parent()` waits for
it the tracee is gone, so that each of its steps brings it nearer to its end, and the
steps of `parent()` are bounded by the statuses that are left (`Sys.rank`).
-/

namespace CsTrace
namespace Tracer

open Threads (Status KillResult DecPc)

variable {c : Config} {p : Tracee} {s : Sys} {l : Label}

/-! ### The tracer's end -/

/-- No termination by a signal is read. With `decoding_on`, the first status is the
stop at the program's `execve()`, `init_trace()` succeeds, and when `stop_trace()`
has disabled the trace, it was started and the decoder thread does not wait for a
stop of the tracee that was not reported. -/
def Finalisable (c : Config) (s : Sys) : Label → Bool
  | .parent .wait =>
    !signaled s.waitStatus &&
      (!c.decodingOn || s.parent != .first || s.waitStatus == .stopped ptraceEventVforkDone)
  | .parent (.init r) => !c.decodingOn || r == .ok
  | .parent (.disable ok) =>
    !c.decodingOn || !ok ||
      (s.started && (s.dec != .running .waitSuspend || s.suspendPending))
  | _ => true

/-! ### The steps of a tracer that finalises -/

/-- With `decoding_on`, the decoder thread exists, and it will see the stop: it was
started, and if it waits for a stop of the tracee that was reported. -/
structure Served (c : Config) (s : Sys) : Prop where
  created : c.decodingOn = true → s.parent.left ≤ 13 → s.dec ≠ .absent
  started : s.parent = .signalStop ∨ s.parent = .join → s.started = true
  suspended : s.parent = .signalStop ∨ s.parent = .join → s.dec = .running .waitSuspend →
    s.suspendPending = true

theorem Served.initial (w : Status) : Served c (.initial p w) :=
  ⟨fun _ hleft => absurd hleft (show ¬ 16 ≤ 13 by decide), by rintro (⟨⟨⟩⟩ | ⟨⟨⟩⟩),
    by rintro (⟨⟨⟩⟩ | ⟨⟨⟩⟩)⟩

/-- A step of `parent()` that leads neither into `stop_trace()` nor out of
`init_trace()`. -/
theorem Served.move {t : Sys} (h : Served c s) (hdec : t.dec = s.dec)
    (hcreated : c.decodingOn = true → t.parent.left ≤ 13 → s.parent.left ≤ 13)
    (hstop : t.parent ≠ .signalStop) (hjoin : t.parent ≠ .join) : Served c t := by
  refine ⟨?_, fun hpc => (hpc.elim hstop hjoin).elim, fun hpc => (hpc.elim hstop hjoin).elim⟩
  intro hon hleft
  rw [hdec]
  exact h.created hon (hcreated hon hleft)

theorem Served.wait (h : Served c s) (hen : parentEnabled c s .wait = true)
    (hc : Finalisable c s (.parent .wait) = true) : Served c (parentEffect c s .wait) := by
  have hdecodes : (parentEffect c s .wait).parent.decodes = false := afterWait_decodes _ _
  refine h.move rfl ?_ ?_ ?_
  · intro hon hleft
    rcases parent_of_wait hen with hpc | hpc | hpc
    · -- the first status is the expected stop, so the trace is initialised next
      have hst : s.waitStatus = .stopped ptraceEventVforkDone := by
        simpa [hon, hpc] using (Bool.and_eq_true_iff.mp hc).2
      simp [parentEffect, hpc, ParentPc.afterWait, hst, ParentPc.left] at hleft
    · simp [parentEffect, hpc, ParentPc.afterWait, ParentPc.left] at hleft
    · rw [hpc]
      decide
  all_goals
    intro hpc
    rw [hpc] at hdecodes
    cases hdecodes

theorem Served.parent {a : ParentAct} (h : Served c s) (hen : parentEnabled c s a = true)
    (hc : Finalisable c s (.parent a) = true) : Served c (parentEffect c s a) := by
  cases a with
  | wait => exact h.wait hen hc
  | init r =>
    -- nothing runs yet; the condition has `init_trace()` succeed
    refine ⟨?_, by rintro (⟨⟨⟩⟩ | ⟨⟨⟩⟩), by rintro (⟨⟨⟩⟩ | ⟨⟨⟩⟩)⟩
    intro hon _
    have hr : r = .ok := by simpa [Finalisable, hon] using hc
    simp [parentEffect, Sys.init, hon, hr]
  | disable ok =>
    -- here the condition enters: the thread was started and is not left waiting
    have hpc : s.parent = .disable := beq_iff_eq.mp hen
    have hleft : s.parent.left ≤ 13 := by rw [hpc]; decide
    cases hon : c.decodingOn with
    | false => refine h.move rfl (fun _ _ => hleft) ?_ ?_ <;> cases ok <;>
        simp [parentEffect, Config.fini, hon]
    | true =>
      cases ok with
      | false => refine h.move rfl (fun _ _ => hleft) ?_ ?_ <;>
          simp [parentEffect, Config.fini, hon]
      | true =>
        obtain ⟨hstarted, hsuspended⟩ : s.started = true ∧
            (s.dec = .running .waitSuspend → s.suspendPending = true) := by
          simpa [Finalisable, hon, ← imp_iff_not_or] using hc
        exact ⟨fun _ _ => h.created hon hleft, fun _ => hstarted, fun _ => hsuspended⟩
  | signalStop =>
    have hpc : s.parent = .signalStop := beq_iff_eq.mp hen
    exact ⟨fun hon _ => h.created hon (by rw [hpc]; decide), fun _ => h.started (.inl hpc),
      fun _ => h.suspended (.inl hpc)⟩
  | affinity ok | enable ok =>
    refine h.move rfl (fun _ _ => by rw [beq_iff_eq.mp hen]; decide) ?_ ?_ <;>
      cases ok <;> rintro ⟨⟩
  | reset ok =>
    refine h.move rfl (fun _ _ => ?_) ?_ ?_
    · rw [beq_iff_eq.mp (Bool.and_eq_true_iff.mp hen).1]
      decide
    all_goals cases ok <;> rintro ⟨⟩
  | arm | stopFetch =>
    refine h.move rfl (fun _ _ => by rw [beq_iff_eq.mp hen]; decide) ?_ ?_ <;>
      cases hon : c.decodingOn <;> simp [parentEffect, Config.fini, hon]
  | join | joinThread =>
    refine h.move rfl (fun _ _ => ?_) (by rintro ⟨⟩) (by rintro ⟨⟩)
    rw [beq_iff_eq.mp (Bool.and_eq_true_iff.mp hen).1]
    decide
  | signalStart | resume | suspendCb | signalFini | finiFetch | shutdown =>
    exact h.move rfl (fun _ _ => by rw [beq_iff_eq.mp hen]; decide) (by rintro ⟨⟩) (by rintro ⟨⟩)

/-- In `stop_trace()` the decoder thread does not stop the tracee any more. -/
theorem Served.decoder {a : DecAct} (h : Served c s) (hp : Phased c p s)
    (hen : decEnabled c s a = true) : Served c (decEffect s a) := by
  cases a with
  | sendStop r =>
    refine ⟨fun _ _ => by rintro ⟨⟩, h.started, ?_⟩
    intro hpc hdec
    have hreaped : s.statuses = [] := by
      refine hp.reaped ?_
      rcases hpc with hpc | hpc <;> rw [show s.parent = _ from hpc] <;> decide
    cases r with
    | ok => simp [decEnabled, Sys.killable, hreaped] at hen
    | esrch | error => cases hdec
  | waitStart =>
    refine ⟨fun _ _ => ?_, h.started, fun _ => ?_⟩ <;>
      cases hstart : s.startPending <;> simp [decEffect, hstart]
  | poll r | check r | drainDisable r | sendCont r | drainDecode r =>
    exact ⟨fun _ _ => by rintro ⟨⟩, h.started, fun _ => by cases r <;> rintro ⟨⟩⟩
  | _ => exact ⟨fun _ _ => by rintro ⟨⟩, h.started, fun _ => by rintro ⟨⟩⟩

theorem Served.step (h : Served c s) (hp : Phased c p s) (hen : enabled c s l = true)
    (hc : Finalisable c s l = true) : Served c (effect c s l) := by
  cases l with
  | parent a => exact h.parent hen hc
  | decoder a => exact h.decoder hp hen

/-- How many steps the decoder thread has left at most, when the tracee is gone. -/
def Thread.left (startPending : Bool) : Thread → ℕ
  | .absent | .ended => 0
  | .running .idle => if startPending then 8 else 1
  | .running .exit => 2
  | .running .finalDecode => 3
  | .running .finalFetch => 4
  | .running .killed => 5
  | .running .poll | .running .sendStop | .running .sendCont => 6
  | .running .entry | .running .check | .running .drainDecode | .running .drainEnable => 7
  | .running .drainFetch => 8
  | .running .drainDisable => 9
  | .running .waitSuspend => 10

theorem Thread.left_le (b : Bool) (d : Thread) : d.left b ≤ 10 := by
  cases d with
  | running pc => cases pc <;> cases b <;> decide
  | _ => exact Nat.zero_le _

/-- What is left of `parent()`: each status takes it twice through its loop at most. -/
def Sys.ahead (s : Sys) : ℕ :=
  2 * s.statuses.length + s.parent.left

/-- What is left of the tracer. Before the tracee is gone nothing bounds the polls of
the decoder thread. -/
def Sys.rank (s : Sys) : ℕ :=
  11 * s.ahead + (if s.statuses = [] then s.dec.left s.startPending else 0)

/-- A `waitpid()` reads a status, or is the last one. -/
theorem ahead_wait_lt (hp : Phased c p s) (hen : parentEnabled c s .wait = true)
    (hsig : signaled s.waitStatus = false) : (parentEffect c s .wait).ahead < s.ahead := by
  have hlen : s.statuses.tail.length = s.statuses.length - 1 := List.length_tail
  unfold Sys.ahead
  change 2 * s.statuses.tail.length + (s.parent.afterWait s.waitStatus).left < _
  rcases parent_of_wait hen with hpc | hpc | hpc <;> rw [hpc]
  · have hle : (ParentPc.first.afterWait s.waitStatus).left ≤ 15 := by
      unfold ParentPc.afterWait
      dsimp only
      split <;> decide
    have hfirst : ParentPc.first.left = 16 := rfl
    omega
  · have hinit : (ParentPc.second.afterWait s.waitStatus).left = 14 := rfl
    have hsecond : ParentPc.second.left = 15 := rfl
    omega
  · have hwaiting : ParentPc.waiting.left = 7 := rfl
    rcases hp.remaining with ⟨hnone, hterm⟩ | ⟨stops, hstops⟩
    · -- it fails, and `wstatus` is still the exit
      have hlast : s.waitStatus = s.wstatus := by rw [Sys.waitStatus, hnone]; rfl
      rw [hlast] at hsig ⊢
      have hleft : (ParentPc.waiting.afterWait s.wstatus).left = 6 := by
        cases hw : s.wstatus with
        | exited => rfl
        | signaled =>
          rw [hw] at hsig
          cases hsig
        | stopped =>
          rw [hw] at hterm
          cases hterm
      omega
    · have hle : (ParentPc.waiting.afterWait s.waitStatus).left ≤ 8 := by
        unfold ParentPc.afterWait
        dsimp only
        split
        · decide
        · split <;> decide
      have hpos : 0 < s.statuses.length := by simp [hstops]
      omega

theorem ahead_parent_lt {a : ParentAct} (hp : Phased c p s) (hen : parentEnabled c s a = true)
    (hc : Finalisable c s (.parent a) = true) : (parentEffect c s a).ahead < s.ahead := by
  cases a with
  | wait =>
    have hsig : signaled s.waitStatus = false := by
      simpa using (Bool.and_eq_true_iff.mp hc).1
    exact ahead_wait_lt hp hen hsig
  | _ =>
    have hlt := (parent_onward hen (by rintro ⟨⟩)).1
    exact Nat.add_lt_add_left hlt _

/-- When the tracee is gone, every step of the decoder thread brings it nearer to its
end. -/
theorem dec_left_lt {a : DecAct} (ha : Attended s) (hreaped : s.statuses = [])
    (hen : decEnabled c s a = true) :
    (decEffect s a).dec.left (decEffect s a).startPending < s.dec.left s.startPending := by
  cases a with
  | waitStart =>
    rw [beq_iff_eq.mp (Bool.and_eq_true_iff.mp hen).1]
    cases hstart : s.startPending <;> simp [decEffect, hstart, Thread.left]
  | exit =>
    have hdec : s.dec = .running .exit := beq_iff_eq.mp hen
    have hpending := (ha.polling (by rw [hdec]; rfl)).1
    simp [decEffect, hdec, hpending, Thread.left]
  | poll r | sendStop r | sendCont r =>
    -- the tracee is not found
    obtain ⟨hdec, hkill⟩ := Bool.and_eq_true_iff.mp hen
    rw [beq_iff_eq.mp hdec]
    cases r with
    | ok => simp [Sys.killable, hreaped] at hkill
    | esrch | error => simp [decEffect, KillResult.orLeave, Thread.left]
  | check r =>
    rw [beq_iff_eq.mp (Bool.and_eq_true_iff.mp hen).1]
    cases r <;> simp [decEffect, Thread.left]
  | waitSuspend | waitStop =>
    rw [beq_iff_eq.mp (Bool.and_eq_true_iff.mp hen).1]
    simp [decEffect, Thread.left]
  | drainDisable r | drainDecode r =>
    rw [beq_iff_eq.mp hen]
    cases r <;> simp [decEffect, Thread.left]
  | entry | drainFetch | drainEnable | finalFetch | finalDecode =>
    rw [beq_iff_eq.mp hen]
    simp [decEffect, Thread.left]

theorem decEffect_ahead (a : DecAct) : (decEffect s a).ahead = s.ahead := by
  cases a <;> rfl

theorem decEffect_statuses (a : DecAct) : (decEffect s a).statuses = s.statuses := by
  cases a <;> rfl

/-- The rank does not rise. It falls with every step of `parent()`, and with every
step when the tracee is gone. -/
theorem rank_effect (hp : Phased c p s) (ha : Attended s) (hen : enabled c s l = true)
    (hc : Finalisable c s l = true) :
    (effect c s l).rank ≤ s.rank ∧
      ((∃ a, l = .parent a) ∨ s.statuses = [] → (effect c s l).rank < s.rank) := by
  cases l with
  | parent a =>
    have hlt : (parentEffect c s a).ahead < s.ahead := ahead_parent_lt hp hen hc
    have hle := Thread.left_le (parentEffect c s a).startPending (parentEffect c s a).dec
    have hrank : (parentEffect c s a).rank < s.rank := by
      unfold Sys.rank
      split <;> omega
    exact ⟨hrank.le, fun _ => hrank⟩
  | decoder a =>
    change (decEffect s a).rank ≤ s.rank ∧ (_ → (decEffect s a).rank < s.rank)
    unfold Sys.rank
    rw [decEffect_ahead, decEffect_statuses]
    by_cases hreaped : s.statuses = []
    · have hlt := dec_left_lt ha hreaped hen
      rw [if_pos hreaped, if_pos hreaped]
      exact ⟨by omega, fun _ => by omega⟩
    · rw [if_neg hreaped, if_neg hreaped]
      refine ⟨le_rfl, ?_⟩
      rintro (⟨_, ⟨⟩⟩ | hnone)
      exact absurd hnone hreaped

/-! ### The result -/

end Tracer
end CsTrace
