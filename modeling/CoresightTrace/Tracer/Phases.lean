import CoresightTrace.Tracer.Model

/-!
# Where the two threads of `cs-trace` are

Two invariants of the tracer, which hold in all of its runs. `Phased` is about
`parent()` alone: what is left of the tracee's statuses, and what was signalled, at
every place. `Attended` adds the decoder thread: it polls once, after the start was
signalled, and is ready after that and not before.

A step of `parent()` other than a `waitpid()` leads nearer to its end
(`parent_onward`). The places are counted for this by `ParentPc.left`, which the
invariants use to say how far `parent()` has come.
-/

namespace CsTrace
namespace Tracer

open Threads (Status)

variable {c : Config} {p : Tracee} {s : Sys} {l : Label}

/-! ### Where `parent()` is -/

/-- How many sections of `parent()` are left at most, without the loop's. -/
def ParentPc.left : ParentPc → ℕ
  | .returned => 0
  | .shutdown => 1
  | .joinThread | .finiFetch => 2
  | .signalFini => 3
  | .join | .stopFetch => 4
  | .signalStop => 5
  | .disable => 6
  | .waiting => 7
  | .suspendCb | .resume => 8
  | .signalStart => 9
  | .enable => 10
  | .reset => 11
  | .arm => 12
  | .affinity => 13
  | .init => 14
  | .second => 15
  | .first => 16

/-- The place is reached with `decoding_on` only. -/
def ParentPc.decodes : ParentPc → Bool
  | .reset | .signalStop | .join | .signalFini | .joinThread => true
  | _ => false

/-- What is left of the tracee's statuses: nothing, and its termination was read, or
stops and the termination. -/
def Remaining (p : Tracee) (s : Sys) : Prop :=
  (s.statuses = [] ∧ s.wstatus.isTermination = true) ∨
    ∃ stops : List ℕ, s.statuses = stops.map .stopped ++ [p.last]

/-- Where `parent()` is, what it has read and what it has signalled belong together. -/
structure Phased (c : Config) (p : Tracee) (s : Sys) : Prop where
  remaining : Remaining p s
  reaped : s.parent.left ≤ 6 → s.statuses = []
  decoding : s.parent.decodes = true → c.decodingOn = true
  fini : s.finiPending = true → s.parent.left ≤ 2
  joining : s.parent = .joinThread → s.finiPending = true
  unstarted : 9 ≤ s.parent.left → s.started = false

theorem Phased.initial (w : Status) : Phased c p (.initial p w) :=
  ⟨.inr ⟨p.stops, rfl⟩, fun h => absurd h (show ¬ 16 ≤ 6 by decide), by rintro ⟨⟩,
    by rintro ⟨⟩, by rintro ⟨⟩, fun _ => rfl⟩

theorem Remaining.wait (h : Remaining p s) : Remaining p (parentEffect c s .wait) := by
  rcases h with ⟨hnone, hterm⟩ | ⟨stops, hstops⟩
  · refine .inl ⟨?_, ?_⟩
    · change s.statuses.tail = []
      rw [hnone]
      rfl
    · change (s.statuses.headD s.wstatus).isTermination = true
      rw [hnone]
      exact hterm
  · cases stops with
    | nil =>
      -- this is the termination
      refine .inl ⟨?_, ?_⟩
      · change s.statuses.tail = []
        rw [hstops]
        rfl
      · change (s.statuses.headD s.wstatus).isTermination = true
        rw [hstops]
        exact p.terminates
    | cons sig stops =>
      refine .inr ⟨stops, ?_⟩
      change s.statuses.tail = _
      rw [hstops]
      rfl

/-- After a termination nothing is left to be read. -/
theorem Remaining.tail_eq_nil (h : Remaining p s) (hterm : s.waitStatus.isTermination = true) :
    s.statuses.tail = [] := by
  rcases h with ⟨hnone, -⟩ | ⟨stops, hstops⟩
  · rw [hnone]
    rfl
  · cases stops with
    | nil =>
      rw [hstops]
      rfl
    | cons sig stops =>
      rw [Sys.waitStatus, hstops] at hterm
      cases hterm

theorem isTermination_of_exited {st : Status} (h : exited st = true) : st.isTermination = true := by
  cases st with
  | exited => rfl
  | _ => cases h

theorem parent_of_wait (hen : parentEnabled c s .wait = true) :
    s.parent = .first ∨ s.parent = .second ∨ s.parent = .waiting := by
  simpa [parentEnabled, or_assoc] using hen

theorem parent_of_init {r : InitResult} (hen : parentEnabled c s (.init r) = true) :
    s.parent = .init :=
  beq_iff_eq.mp (Bool.and_eq_true_iff.mp (Bool.and_eq_true_iff.mp hen).1).1

/-- A step of `parent()` other than a `waitpid()` goes on towards its end. -/
theorem parent_onward {a : ParentAct} (hen : parentEnabled c s a = true) (ha : a ≠ .wait) :
    (parentEffect c s a).parent.left < s.parent.left ∧
      ((parentEffect c s a).parent.left ≤ 6 → s.parent.left ≤ 6) ∧
      ((parentEffect c s a).parent.decodes = true →
        c.decodingOn = true ∨ s.parent.decodes = true) := by
  cases a with
  | wait => exact absurd rfl ha
  | init r =>
    simp [parentEffect, Sys.init, parent_of_init hen, ParentPc.left, ParentPc.decodes]
  | affinity ok | enable ok =>
    cases ok <;> simp [parentEffect, beq_iff_eq.mp hen, ParentPc.left, ParentPc.decodes]
  | reset ok =>
    cases ok <;> simp [parentEffect, beq_iff_eq.mp (Bool.and_eq_true_iff.mp hen).1, ParentPc.left,
      ParentPc.decodes]
  | disable ok =>
    cases ok <;> cases hon : c.decodingOn <;>
      simp [parentEffect, Config.fini, beq_iff_eq.mp hen, hon, ParentPc.left, ParentPc.decodes]
  | arm | stopFetch =>
    cases hon : c.decodingOn <;>
      simp [parentEffect, Config.fini, beq_iff_eq.mp hen, hon, ParentPc.left, ParentPc.decodes]
  | join | joinThread =>
    simp [parentEffect, beq_iff_eq.mp (Bool.and_eq_true_iff.mp hen).1, ParentPc.left,
      ParentPc.decodes]
  | signalStart | resume | suspendCb | signalStop | signalFini | finiFetch | shutdown =>
    simp [parentEffect, beq_iff_eq.mp hen, ParentPc.left, ParentPc.decodes]

/-- Where a `waitpid()` leads. -/
theorem afterWait_cases (pc : ParentPc) (st : Status) :
    (pc = .first ∧ pc.afterWait st = .second) ∨ (pc = .second ∧ pc.afterWait st = .init) ∨
      pc.afterWait st = .waiting ∨ pc.afterWait st = .suspendCb ∨
      (exited st = true ∧ pc.afterWait st = .disable) := by
  unfold ParentPc.afterWait
  split
  · split
    · exact .inl ⟨rfl, rfl⟩
    · exact .inr (.inr (.inl rfl))
  · exact .inr (.inl ⟨rfl, rfl⟩)
  · split
    · next hexit => exact .inr (.inr (.inr (.inr ⟨hexit, rfl⟩)))
    · split
      · exact .inr (.inr (.inr (.inl rfl)))
      · exact .inr (.inr (.inl rfl))

/-- Only an exit leads on to `stop_trace()`. -/
theorem exited_of_afterWait {pc : ParentPc} {st : Status} (h : (pc.afterWait st).left ≤ 6) :
    exited st = true := by
  rcases afterWait_cases pc st with ⟨-, hnext⟩ | ⟨-, hnext⟩ | hnext | hnext | ⟨hexit, -⟩
  · exact absurd h (by rw [hnext]; decide)
  · exact absurd h (by rw [hnext]; decide)
  · exact absurd h (by rw [hnext]; decide)
  · exact absurd h (by rw [hnext]; decide)
  · exact hexit

/-- A `waitpid()` before the loop leads on. -/
theorem afterWait_left_le {pc : ParentPc} {st : Status} (h : 9 ≤ (pc.afterWait st).left) :
    (pc.afterWait st).left ≤ pc.left := by
  rcases afterWait_cases pc st with ⟨hpc, hnext⟩ | ⟨hpc, hnext⟩ | hnext | hnext | ⟨-, hnext⟩
  · rw [hnext, hpc]
    decide
  · rw [hnext, hpc]
    decide
  · exact absurd h (by rw [hnext]; decide)
  · exact absurd h (by rw [hnext]; decide)
  · exact absurd h (by rw [hnext]; decide)

theorem afterWait_decodes (pc : ParentPc) (st : Status) : (pc.afterWait st).decodes = false := by
  rcases afterWait_cases pc st with ⟨-, hnext⟩ | ⟨-, hnext⟩ | hnext | hnext | ⟨-, hnext⟩ <;>
    rw [hnext] <;> rfl

theorem Phased.wait (h : Phased c p s) (hen : parentEnabled c s .wait = true) :
    Phased c p (parentEffect c s .wait) := by
  have hnofini : s.finiPending = true → False := by
    intro hpending
    have hleft := h.fini hpending
    rcases parent_of_wait hen with hpc | hpc | hpc <;>
      exact absurd (hpc ▸ hleft) (by decide)
  have hdecodes : (parentEffect c s .wait).parent.decodes = false := afterWait_decodes _ _
  refine ⟨h.remaining.wait, ?_, ?_, fun hpending => (hnofini hpending).elim, ?_, ?_⟩
  · intro hleft
    exact h.remaining.tail_eq_nil (isTermination_of_exited (exited_of_afterWait hleft))
  · rw [hdecodes]
    rintro ⟨⟩
  · intro hjoin
    rw [hjoin] at hdecodes
    cases hdecodes
  · intro hleft
    exact h.unstarted (hleft.trans (afterWait_left_le hleft))

/-- A step of `parent()` that reads no status and signals neither the start nor the
end. -/
theorem Phased.move {a : ParentAct} (h : Phased c p s) (hen : parentEnabled c s a = true)
    (ha : a ≠ .wait) (hstatuses : (parentEffect c s a).statuses = s.statuses)
    (hwstatus : (parentEffect c s a).wstatus = s.wstatus)
    (hfini : (parentEffect c s a).finiPending = s.finiPending)
    (hstarted : (parentEffect c s a).started = s.started)
    (hjoin : (parentEffect c s a).parent ≠ .joinThread) : Phased c p (parentEffect c s a) := by
  obtain ⟨hlt, hreaped, hdecodes⟩ := parent_onward hen ha
  refine ⟨?_, ?_, ?_, ?_, fun hj => absurd hj hjoin, ?_⟩
  · unfold Remaining
    rw [hstatuses, hwstatus]
    exact h.remaining
  · intro hleft
    rw [hstatuses]
    exact h.reaped (hreaped hleft)
  · intro hd
    rcases hdecodes hd with hon | hd
    · exact hon
    · exact h.decoding hd
  · intro hpending
    rw [hfini] at hpending
    exact hlt.le.trans (h.fini hpending)
  · intro hleft
    rw [hstarted]
    exact h.unstarted (hleft.trans hlt.le)

theorem Phased.parent {a : ParentAct} (h : Phased c p s) (hen : parentEnabled c s a = true) :
    Phased c p (parentEffect c s a) := by
  cases a with
  | wait => exact h.wait hen
  | signalStart =>
    -- a tracee that runs is far from its end
    refine ⟨h.remaining, fun hleft => absurd hleft (show ¬ 8 ≤ 6 by decide), by rintro ⟨⟩, ?_,
      by rintro ⟨⟩, fun hleft => absurd hleft (show ¬ 9 ≤ 8 by decide)⟩
    intro hpending
    have hleft := h.fini hpending
    rw [beq_iff_eq.mp hen] at hleft
    exact absurd hleft (by decide)
  | signalFini =>
    -- the only step that sets the flag, with the tracee reaped
    have hpc : s.parent = .signalFini := beq_iff_eq.mp hen
    refine ⟨h.remaining, fun _ => h.reaped (by rw [hpc]; decide), fun _ => ?_, fun _ => le_rfl,
      fun _ => rfl, fun hleft => absurd hleft (show ¬ 9 ≤ 2 by decide)⟩
    exact h.decoding (by rw [hpc]; rfl)
  | affinity ok | reset ok | enable ok =>
    exact h.move hen (by rintro ⟨⟩) rfl rfl rfl rfl (by cases ok <;> rintro ⟨⟩)
  | arm | stopFetch =>
    refine h.move hen (by rintro ⟨⟩) rfl rfl rfl rfl ?_
    cases hon : c.decodingOn <;> simp [parentEffect, Config.fini, hon]
  | disable ok =>
    refine h.move hen (by rintro ⟨⟩) rfl rfl rfl rfl ?_
    cases hon : c.decodingOn <;> cases ok <;> simp [parentEffect, Config.fini, hon]
  | _ => exact h.move hen (by rintro ⟨⟩) rfl rfl rfl rfl (by rintro ⟨⟩)

theorem Phased.step (h : Phased c p s) (hen : enabled c s l = true) :
    Phased c p (effect c s l) := by
  cases l with
  | parent a => exact h.parent hen
  | decoder a =>
    -- the decoder thread writes none of what this is about
    cases a <;> exact ⟨h.remaining, h.reaped, h.decoding, h.fini, h.joining, h.unstarted⟩

/-! ### Where the decoder thread is -/

/-- The decoder thread is in `trace_sink_polling()`. -/
def Thread.polling : Thread → Bool
  | .running pc => pc != .idle
  | _ => false

/-- The decoder thread is in `trace_sink_polling()` and has not seen the stop. -/
def Thread.unstopped : Thread → Bool
  | .running .idle | .running .finalFetch | .running .finalDecode | .running .exit => false
  | .running _ => true
  | _ => false

/-- The decoder thread polls once, after the start, and is ready after that. -/
structure Attended (s : Sys) : Prop where
  created : 14 ≤ s.parent.left → s.dec = .absent
  unstarted : s.started = false → s.startPending = false ∧ s.dec.polling = false
  polling : s.dec.polling = true → s.startPending = false ∧ s.decoderReady = false
  idle : s.dec = .running .idle → s.decoderReady = (s.started && !s.startPending)
  ended : s.dec = .ended → s.finiPending = true
  stop : s.parent = .join → s.startPending = true ∨ s.dec.unstopped = true → s.stopPending = true

theorem Attended.initial (w : Status) : Attended (.initial p w) :=
  ⟨fun _ => rfl, fun _ => ⟨rfl, rfl⟩, by rintro ⟨⟩, by rintro ⟨⟩, by rintro ⟨⟩, by rintro ⟨⟩⟩

/-- A step of `parent()` that signals nothing the decoder thread waits for. -/
theorem Attended.move {t : Sys} (h : Attended s)
    (ht : t = { s with
      parent := t.parent, statuses := t.statuses, wstatus := t.wstatus,
      suspendPending := t.suspendPending })
    (hcreated : 14 ≤ t.parent.left → 14 ≤ s.parent.left) (hjoin : t.parent ≠ .join) :
    Attended t := by
  rw [ht]
  exact ⟨fun hleft => h.created (hcreated hleft), h.unstarted, h.polling, h.idle, h.ended,
    fun hj => absurd hj hjoin⟩

theorem Attended.init (h : Attended s) (hstarted : s.started = false) (r : InitResult) :
    Attended (s.init c r) := by
  have hpending := (h.unstarted hstarted).1
  have hleft : ¬ 14 ≤ (s.init c r).parent.left := show ¬ 14 ≤ 13 by decide
  refine ⟨fun hl => absurd hl hleft, fun _ => ⟨hpending, ?_⟩, ?_, ?_, ?_, by rintro ⟨⟩⟩
  all_goals
    cases hnew : c.decodingOn && r == .ok <;> simp [Sys.init, hnew, Thread.polling]
  -- a thread that was just created is not ready
  simp_all

/-- Before the start the decoder thread sleeps, and is not ready. -/
theorem Attended.before_start (h : Attended s) (hstarted : s.started = false) :
    ¬ s.dec.polling = true ∧ (s.dec = .running .idle → s.decoderReady = false) := by
  constructor
  · rw [(h.unstarted hstarted).2]
    rintro ⟨⟩
  · intro hidle
    rw [h.idle hidle, hstarted]
    rfl

theorem Attended.arm (h : Attended s) (hstarted : s.started = false)
    (hle : (parentEffect c s .arm).parent.left ≤ s.parent.left) :
    Attended (parentEffect c s .arm) := by
  obtain ⟨hasleep, hready⟩ := h.before_start hstarted
  refine ⟨fun hleft => h.created (hleft.trans hle), h.unstarted,
    fun hpoll => absurd hpoll hasleep, ?_, h.ended, ?_⟩
  · intro hidle
    simp [parentEffect, hready hidle, hstarted]
  · cases hon : c.decodingOn <;> simp [parentEffect, hon]

theorem Attended.signalStart (h : Attended s) (hstarted : s.started = false) :
    Attended (parentEffect c s .signalStart) := by
  obtain ⟨hasleep, hready⟩ := h.before_start hstarted
  exact ⟨fun hleft => absurd hleft (show ¬ 14 ≤ 8 by decide), by rintro ⟨⟩,
    fun hpoll => absurd hpoll hasleep, hready, h.ended, by rintro ⟨⟩⟩

theorem Attended.parent {a : ParentAct} (h : Attended s) (hp : Phased c p s)
    (hen : parentEnabled c s a = true) : Attended (parentEffect c s a) := by
  cases a with
  | wait =>
    -- a status read leads to no `pthread_join()`
    refine h.move rfl ?_ ?_
    · intro hleft
      exact hleft.trans (afterWait_left_le (le_trans (by decide) hleft))
    · intro hjoin
      have hdecodes : (parentEffect c s .wait).parent.decodes = false := afterWait_decodes _ _
      rw [hjoin] at hdecodes
      cases hdecodes
  | init r =>
    exact h.init (hp.unstarted (by rw [parent_of_init hen]; decide)) r
  | arm =>
    obtain ⟨hlt, -, -⟩ := parent_onward (c := c) (a := .arm) hen (by rintro ⟨⟩)
    exact h.arm (hp.unstarted (by rw [beq_iff_eq.mp hen]; decide)) hlt.le
  | signalStart => exact h.signalStart (hp.unstarted (by rw [beq_iff_eq.mp hen]; decide))
  | signalStop =>
    exact ⟨fun hleft => absurd hleft (show ¬ 14 ≤ 4 by decide), h.unstarted, h.polling, h.idle,
      h.ended, fun _ _ => rfl⟩
  | signalFini =>
    exact ⟨fun hleft => absurd hleft (show ¬ 14 ≤ 2 by decide), h.unstarted, h.polling, h.idle,
      fun _ => rfl, by rintro ⟨⟩⟩
  | affinity ok | reset ok | enable ok =>
    obtain ⟨hlt, -, -⟩ := parent_onward hen (by rintro ⟨⟩)
    exact h.move rfl (fun hleft => hleft.trans hlt.le) (by cases ok <;> rintro ⟨⟩)
  | disable ok =>
    obtain ⟨hlt, -, -⟩ := parent_onward hen (by rintro ⟨⟩)
    refine h.move rfl (fun hleft => hleft.trans hlt.le) ?_
    cases hon : c.decodingOn <;> cases ok <;> simp [parentEffect, Config.fini, hon]
  | stopFetch =>
    obtain ⟨hlt, -, -⟩ := parent_onward hen (by rintro ⟨⟩)
    refine h.move rfl (fun hleft => hleft.trans hlt.le) ?_
    cases hon : c.decodingOn <;> simp [parentEffect, Config.fini, hon]
  | _ =>
    obtain ⟨hlt, -, -⟩ := parent_onward hen (by rintro ⟨⟩)
    exact h.move rfl (fun hleft => hleft.trans hlt.le) (by rintro ⟨⟩)

/-- A step of the decoder thread within `trace_sink_polling()`. -/
theorem Attended.polls {t : Sys} (h : Attended s) (hpoll : s.dec.polling = true)
    (ht : t = { s with
      dec := t.dec, suspendPending := t.suspendPending, stopPending := t.stopPending,
      decoderReady := t.decoderReady })
    (hready : t.decoderReady = false ∨ t.decoderReady = s.decoderReady)
    (hdec : t.dec.polling = true)
    (hstop : t.dec.unstopped = true → s.dec.unstopped = true ∧ t.stopPending = s.stopPending) :
    Attended t := by
  -- a thread that polls has taken the start signal and cleared the flag
  obtain ⟨hpending, hwas⟩ := h.polling hpoll
  have hready' : t.decoderReady = false := hready.elim id fun heq => heq.trans hwas
  rw [ht]
  refine ⟨?_, ?_, fun _ => ⟨hpending, hready'⟩, ?_, ?_, ?_⟩
  · -- the thread that polls exists, was started and has not ended
    intro hleft
    rw [h.created hleft] at hpoll
    cases hpoll
  · intro hstarted
    exact absurd hpoll (h.before_start hstarted).1
  · intro hidle
    rw [show t.dec = .running .idle from hidle] at hdec
    cases hdec
  · intro hended
    rw [show t.dec = .ended from hended] at hdec
    cases hdec
  · rintro hjoin (hstart | hun)
    · rw [show s.startPending = true from hstart] at hpending
      cases hpending
    · obtain ⟨hun, heq⟩ := hstop hun
      exact heq.trans (h.stop hjoin (.inr hun))

theorem Attended.waitStart (h : Attended s) (hdec : s.dec = .running .idle)
    (hpending : s.startPending = true ∨ s.finiPending = true) :
    Attended (decEffect s .waitStart) := by
  have hleft : ¬ 14 ≤ s.parent.left := fun hl => by
    rw [h.created hl] at hdec
    cases hdec
  cases hstart : s.startPending with
  | true =>
    -- the start is taken
    have hready : s.decoderReady = false := by simp [h.idle hdec, hstart]
    have hstarted : ¬ s.started = false := fun hs => by
      rw [(h.unstarted hs).1] at hstart
      cases hstart
    rw [decEffect, hstart]
    exact ⟨fun hl => absurd hl hleft, fun hs => absurd hs hstarted, fun _ => ⟨rfl, hready⟩,
      by rintro ⟨⟩, by rintro ⟨⟩, fun hj _ => h.stop hj (.inl hstart)⟩
  | false =>
    -- the thread returns
    have hfini : s.finiPending = true := by simpa [hstart] using hpending
    rw [decEffect, hstart]
    exact ⟨fun hl => absurd hl hleft, fun _ => ⟨rfl, rfl⟩, by rintro ⟨⟩, by rintro ⟨⟩,
      fun _ => hfini, by rintro - (⟨⟨⟩⟩ | ⟨⟨⟩⟩)⟩

theorem Attended.exit (h : Attended s) (hdec : s.dec = .running .exit) :
    Attended (decEffect s .exit) := by
  have hpoll : s.dec.polling = true := by rw [hdec]; rfl
  have hpending := (h.polling hpoll).1
  have hstarted : s.started = true := by
    by_contra hs
    exact (h.before_start (Bool.eq_false_of_not_eq_true hs)).1 hpoll
  refine ⟨?_, fun _ => ⟨hpending, rfl⟩, by rintro ⟨⟩, ?_, by rintro ⟨⟩, ?_⟩
  · intro hleft
    rw [h.created hleft] at hdec
    cases hdec
  · simp [decEffect, hstarted, hpending]
  · rintro - (hstart | ⟨⟨⟩⟩)
    rw [show s.startPending = true from hstart] at hpending
    cases hpending

theorem Attended.decoder {a : DecAct} (h : Attended s) (hen : decEnabled c s a = true) :
    Attended (decEffect s a) := by
  cases a with
  | waitStart =>
    obtain ⟨hdec, hpending⟩ := Bool.and_eq_true_iff.mp hen
    exact h.waitStart (beq_iff_eq.mp hdec) (Bool.or_eq_true_iff.mp hpending)
  | exit => exact h.exit (beq_iff_eq.mp hen)
  | entry =>
    have hdec := beq_iff_eq.mp hen
    exact h.polls (by rw [hdec]; rfl) rfl (.inl rfl) rfl fun _ => ⟨by rw [hdec]; rfl, rfl⟩
  | drainFetch | drainEnable =>
    have hdec := beq_iff_eq.mp hen
    exact h.polls (by rw [hdec]; rfl) rfl (.inr rfl) rfl fun _ => ⟨by rw [hdec]; rfl, rfl⟩
  | drainDisable r | drainDecode r =>
    have hdec := beq_iff_eq.mp hen
    exact h.polls (by rw [hdec]; rfl) rfl (.inr rfl) (by cases r <;> rfl)
      fun _ => ⟨by rw [hdec]; rfl, rfl⟩
  | poll r | check r | sendStop r | sendCont r =>
    have hdec := beq_iff_eq.mp (Bool.and_eq_true_iff.mp hen).1
    exact h.polls (by rw [hdec]; rfl) rfl (.inr rfl) (by cases r <;> rfl)
      fun _ => ⟨by rw [hdec]; rfl, rfl⟩
  | waitSuspend =>
    have hdec := beq_iff_eq.mp (Bool.and_eq_true_iff.mp hen).1
    exact h.polls (by rw [hdec]; rfl) rfl (.inr rfl) rfl fun _ => ⟨by rw [hdec]; rfl, rfl⟩
  | waitStop =>
    -- from here on the stop signal is taken
    have hdec := beq_iff_eq.mp (Bool.and_eq_true_iff.mp hen).1
    exact h.polls (by rw [hdec]; rfl) rfl (.inr rfl) rfl (by rintro ⟨⟩)
  | finalFetch | finalDecode =>
    have hdec := beq_iff_eq.mp hen
    exact h.polls (by rw [hdec]; rfl) rfl (.inr rfl) rfl (by rintro ⟨⟩)

theorem Attended.step (h : Attended s) (hp : Phased c p s) (hen : enabled c s l = true) :
    Attended (effect c s l) := by
  cases l with
  | parent a => exact h.parent hp hen
  | decoder a => exact h.decoder hen

end Tracer
end CsTrace
