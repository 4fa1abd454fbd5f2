import CoresightTrace.Threads.Drain

/-!
# A target that is stopped is resumed

A drain stops the target with `SIGSTOP` and resumes it with `SIGCONT`. Between the
two calls `trace_sink_polling()` waits for the stop, disables the sinks, fetches
and enables them again. What it still owes the target is read off the calls it has
made (`owedAfter`): a `SIGSTOP` that was sent is owed a `SIGCONT`, until it is sent
or the target is found gone.

There are two ways out of the function in the middle of a drain: a
`disable_cs_trace()` that fails and a `SIGCONT` that does, other than for a target
that is gone. Neither sends the signal that is owed. Where these do not happen to a
target that can still run, whatever else fails, the function never returns with the
target left stopped (`target_not_abandoned`).
-/

namespace CsTrace
namespace Threads

open Hybrid (CovMap)

variable {n : ℕ} {b : Build} {s : Sys n} {l : Label n}

/-! ### What is owed -/

/-- Whether a `SIGCONT` is owed after one more step. -/
def owes (owed : Bool) : Label n → Bool
  -- a new call of the function has sent nothing yet
  | .entry => false
  | .sendStop .ok => true
  | .sendCont .ok => false
  -- the target is gone
  | .poll .esrch | .sendStop .esrch | .sendCont .esrch => false
  | _ => owed

/-- Whether a `SIGCONT` is owed after the steps `ls`. -/
def owedAfter (ls : List (Label n)) : Bool :=
  ls.foldl owes false

theorem owedAfter_append_singleton (ls : List (Label n)) (l : Label n) :
    owedAfter (ls ++ [l]) = owes (owedAfter ls) l := by
  unfold owedAfter
  rw [List.foldl_append, List.foldl_cons, List.foldl_nil]

/-- The process `child_pid` names has terminated. -/
def Sys.childEnded (s : Sys n) : Bool :=
  s.childPid == s.exec &&
    match s.child with
    | .zombie _ | .gone => true
    | _ => false

/-- A drain's `disable_cs_trace()` and `SIGCONT` do not fail while the target has not
terminated. A `SIGCONT` that finds it gone does not count as failed. -/
def ResumesOrEnds (s : Sys n) : Label n → Bool
  | .drainDisable ok => ok || s.childEnded
  | .sendCont r => r != .error || s.childEnded
  | _ => true

/-- The decoder thread is in a drain, between its `SIGSTOP` and its `SIGCONT`. -/
def DecPc.holding : DecPc → Bool
  | .waitSuspend | .drainDisable | .drainFetch | .drainEnable | .sendCont => true
  | _ => false

/-- The decoder thread is not in `trace_sink_polling()`, or has just entered it. -/
def DecPc.outside : DecPc → Bool
  | .idle | .entry => true
  | _ => false

/-- A signal that is owed will be sent, or the target has no use for it. -/
def Owing (s : Sys n) (owed : Bool) : Prop :=
  owed = true → s.dec.holding = true ∨ s.dec.outside = true ∨ s.childEnded = true

/-! ### Steps -/

/-- A target that has terminated stays so while it is polled. -/
theorem childEnded_effect (hh : Handshake s) (hen : enabled b s l = true) (hd : s.dec ≠ .idle)
    (h : s.childEnded = true) : (effect s l).childEnded = true := by
  have hlaunched := hh.launched hd
  obtain ⟨hpid, hchild⟩ := Bool.and_eq_true_iff.mp h
  cases l with
  | begin =>
    -- no execution begins while the last one is polled
    rcases Bool.or_eq_true_iff.mp (Bool.and_eq_true_iff.mp hen).1 with hm | hm <;>
      rw [beq_iff_eq.mp hm] at hlaunched <;> cases hlaunched
  | reset =>
    rw [beq_iff_eq.mp hen] at hlaunched
    cases hlaunched
  | resume r | sendCont r =>
    -- a signal does not bring it back
    have hcont : s.child.cont = s.child := by
      cases hc : s.child with
      | stopped =>
        rw [hc] at hchild
        cases hchild
      | _ => rfl
    have hsame : (if r = .ok then s.child.cont else s.child) = s.child := by
      rw [hcont, ite_self]
    refine Bool.and_eq_true_iff.mpr ⟨hpid, ?_⟩
    dsimp only [effect, Sys.resume]
    rw [hsame]
    exact hchild
  | relay =>
    refine Bool.and_eq_true_iff.mpr ⟨hpid, ?_⟩
    dsimp only [effect, Sys.relay]
    cases hc : s.child with
    | zombie | gone => rfl
    | _ =>
      rw [hc] at hchild
      cases hchild
  | childStop =>
    rw [beq_iff_eq.mp hen] at hchild
    cases hchild
  | childDie => exact Bool.and_eq_true_iff.mpr ⟨hpid, rfl⟩
  | _ => exact h

/-- A step that leaves the decoder thread where it is. -/
theorem Owing.keep {owed : Bool} (h : Owing s owed) (hh : Handshake s)
    (hen : enabled b s l = true) (hdec : (effect s l).dec = s.dec) : Owing (effect s l) owed := by
  intro howed
  rw [hdec]
  rcases h howed with hhold | hout | hended
  · exact .inl hhold
  · exact .inr (.inl hout)
  · by_cases hd : s.dec = .idle
    · exact .inr (.inl (by rw [hd]; rfl))
    · exact .inr (.inr (childEnded_effect hh hen hd hended))

/-- Within the function and not in a drain, nothing is owed to a target that can run. -/
theorem Owing.ended {owed : Bool} (h : Owing s owed) (hh : Handshake s)
    (hen : enabled b s l = true) (hhold : s.dec.holding = false) (hout : s.dec.outside = false)
    (howed : owed = true) : (effect s l).childEnded = true := by
  have hd : s.dec ≠ .idle := by
    intro hd
    rw [hd] at hout
    cases hout
  rcases h howed with hh' | ho' | hended
  · exact absurd hh' (by simp [hhold])
  · exact absurd ho' (by simp [hout])
  · exact childEnded_effect hh hen hd hended

/-- **What is owed stays payable.** -/
theorem Owing.step {owed : Bool} (h : Owing s owed) (hh : Handshake s)
    (hen : enabled b s l = true) (hc : ResumesOrEnds s l = true) :
    Owing (effect s l) (owes owed l) := by
  cases l with
  | entry => rintro ⟨⟩
  | waitStart | exit => exact fun _ => .inr (.inl rfl)
  | waitSuspend | drainFetch | drainEnable => exact fun _ => .inl rfl
  | poll r =>
    rw [enabled, beq_iff_eq] at hen
    cases r with
    | esrch => rintro ⟨⟩
    | ok | error =>
      exact fun howed => .inr (.inr (h.ended hh (b := b) (by rw [enabled, hen]; rfl)
        (by rw [hen]; rfl) (by rw [hen]; rfl) howed))
  | sendStop r =>
    rw [enabled, beq_iff_eq] at hen
    cases r with
    | ok => exact fun _ => .inl rfl
    | esrch => rintro ⟨⟩
    | error =>
      exact fun howed => .inr (.inr (h.ended hh (b := b) (by rw [enabled, hen]; rfl)
        (by rw [hen]; rfl) (by rw [hen]; rfl) howed))
  | drainDisable ok =>
    cases ok with
    | true => exact fun _ => .inl rfl
    | false =>
      -- the way out of a drain that owes the signal
      have hended : s.childEnded = true := hc
      exact fun _ => .inr (.inr hended)
  | sendCont r =>
    cases r with
    | ok | esrch => rintro ⟨⟩
    | error =>
      have hended : s.childEnded = true := hc
      exact fun _ => .inr (.inr hended)
  | check | waitStop =>
    have hdec := beq_iff_eq.mp (Bool.and_eq_true_iff.mp hen).1
    exact fun howed => .inr (.inr (h.ended hh hen (by rw [hdec]; rfl) (by rw [hdec]; rfl) howed))
  | drainDecode | finalFetch | finalDecode =>
    have hdec := beq_iff_eq.mp hen
    exact fun howed => .inr (.inr (h.ended hh hen (by rw [hdec]; rfl) (by rw [hdec]; rfl) howed))
  | _ => exact h.keep hh hen rfl

/-! ### Runs -/

theorem owing_of_run {t : Sys n} {ls : List (Label n)}
    (hs : (traceSystem .coresight n).init s)
    (hrun : ((traceSystem .coresight n).restrict ResumesOrEnds).machine.Run s ls t) :
    t.kind = .first ∧ Handshake t ∧ Owing t (owedAfter ls) := by
  induction hrun with
  | nil =>
    obtain ⟨bitmap, rfl⟩ := hs
    exact ⟨rfl, .afterInit bitmap, by rintro ⟨⟩⟩
  | snoc hrun hstep ih =>
    obtain ⟨hkind, hh, howing⟩ := ih
    obtain ⟨hen, rfl⟩ := hstep
    obtain ⟨hen, hc⟩ := Bool.and_eq_true_iff.mp hen
    refine ⟨kind_effect hkind hen, hh.step hen (not_abandons_of_first hkind), ?_⟩
    rw [owedAfter_append_singleton]
    exact howing.step hh hen hc

/-- The decoder thread is in the part of the function that drains. -/
def DecPc.drains : DecPc → Bool
  | .sendStop | .waitSuspend | .drainDisable | .drainFetch | .drainEnable | .sendCont
  | .drainDecode => true
  | _ => false

/-- The Stalker build's threshold is never exceeded, so it stops no target. -/
theorem stalker_owes_nothing {t : Sys n} {ls : List (Label n)}
    (hs : (traceSystem .stalker n).init s)
    (hrun : ((traceSystem .stalker n).restrict ResumesOrEnds).machine.Run s ls t) :
    t.dec.drains = false ∧ owedAfter ls = false := by
  induction hrun with
  | nil =>
    obtain ⟨bitmap, rfl⟩ := hs
    exact ⟨rfl, rfl⟩
  | @snoc ls t u l hrun hstep ih =>
    obtain ⟨hdec, howed⟩ := ih
    obtain ⟨hen, rfl⟩ := hstep
    replace hen := (Bool.and_eq_true_iff.mp hen).1
    rw [owedAfter_append_singleton, howed]
    cases l with
    | sendStop | drainDisable | drainFetch | drainEnable | sendCont | drainDecode =>
      -- none of these is reached
      rw [beq_iff_eq.mp hen] at hdec
      cases hdec
    | waitSuspend =>
      rw [beq_iff_eq.mp (Bool.and_eq_true_iff.mp hen).1] at hdec
      cases hdec
    | check filled =>
      cases filled with
      | false => exact ⟨rfl, rfl⟩
      | true => simp [traceSystem, enabled] at hen
    | poll r => cases r <;> exact ⟨rfl, rfl⟩
    | waitStart | entry | waitStop | finalFetch | finalDecode | exit => exact ⟨rfl, rfl⟩
    | _ => exact ⟨hdec, rfl⟩

/-- **The decoder thread abandons no target it stopped.** In every run in which the
`disable_cs_trace()` and the `SIGCONT` of a drain fail only for a target that has
terminated, whatever the other calls of the function return, a target that it
stopped and neither resumed nor found gone has terminated when it returns. -/
theorem target_not_abandoned (b : Build) {t : Sys n} {ls : List (Label n)}
    (hs : (traceSystem b n).init s)
    (hrun : ((traceSystem b n).restrict ResumesOrEnds).machine.Run s ls t)
    (hreturns : t.dec = .exit) (howed : owedAfter ls = true) : t.childEnded = true := by
  cases b with
  | stalker =>
    rw [(stalker_owes_nothing hs hrun).2] at howed
    cases howed
  | coresight =>
    obtain ⟨-, -, howing⟩ := owing_of_run hs hrun
    rcases howing howed with hhold | hout | hended
    · rw [hreturns] at hhold
      cases hhold
    · rw [hreturns] at hout
      cases hout
    · exact hended

/-- The first drain of an execution, up to its `disable_cs_trace()`. -/
def stoppedForDrain : List (Label 1) :=
  startExec ++ [.check true, .sendStop .ok, .childStop sigstop, .relay,
    .read (.stopped sigstop), .suspendCb, .waitSuspend]

/-- The child is killed while it is stopped, and the `disable_cs_trace()` fails. -/
def killedInDrain : List (Label 1) :=
  stoppedForDrain ++ [.childDie (.signaled 9), .drainDisable false]

/-- A function that returns there abandons no one. -/
theorem target_not_abandoned_killed :
    let t := (traceSystem .coresight 1).run (.afterInit fun _ => 0#8) killedInDrain
    t.dec = .exit ∧ owedAfter killedInDrain = true ∧ t.childEnded = true := by
  refine ⟨by decide, by decide, target_not_abandoned .coresight (s := .afterInit fun _ => 0#8)
    ⟨_, rfl⟩ (Guarded.run_of_applicable ?_) (by decide) (by decide)⟩
  decide

/-- **A failed disable abandons the target.** The child has stopped for a drain, and the
drain's `disable_cs_trace()` fails: the function goes to its exit, and the child
stays stopped. -/
theorem target_abandoned :
    ∃ t, ((traceSystem .coresight 1).restrict Lawful).machine.Run (.afterInit fun _ => 0#8)
        (stoppedForDrain ++ [.drainDisable false]) t ∧
      t.dec = .exit ∧ owedAfter (stoppedForDrain ++ [.drainDisable false]) = true ∧
      t.childEnded = false ∧ t.child = .stopped sigstop true := by
  refine ⟨((traceSystem .coresight 1).restrict Lawful).run (.afterInit fun _ => 0#8)
    (stoppedForDrain ++ [.drainDisable false]), Guarded.run_of_applicable ?_, ?_⟩
  · decide
  · decide

end Threads
end CsTrace
