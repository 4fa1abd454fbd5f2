import CoresightTrace.Threads.Model

/-!
# The start and stop handshake

The two threads take turns through `start_pending` and `decoder_ready`. While
the main thread is outside an execution the decoder thread sleeps and no start
is pending; `start_trace()` makes `decoder_ready` false before it signals the
start, and the decoder thread makes it true as its last step, so a main thread
that reads true knows that the polling of its own execution is over
(`Handshake`).

The argument needs every execution to be stopped before the next one starts. A
calibration run whose `kill()` or `stop_trace()` fails is left behind, with the
decoder thread still polling it (`Label.abandons`).

The handshake is what the results about single executions rest on: a polling
thread polls the current execution (`Handshake.decExec`), and `stop_trace()` does
not return before the polling has ended (`Handshake.ready`).
-/

namespace CsTrace
namespace Threads

open Hybrid (CovMap)

variable {n : ℕ} {b : Build} {s : Sys n} {l : Label n}

/-! ### The invariant -/

/-- How far the main thread is in starting an execution. -/
inductive Phase where
  | quiet
  | armed
  | launched
deriving DecidableEq, Repr

/-- The phase of a program counter: `decoder_ready` is made false on the way to
`armed`, and `start_trace()` is over in `launched`. -/
def MainPc.phase : MainPc → Phase
  | .idle | .affinity | .clear | .arm | .stopped => .quiet
  | .reset | .enable | .signalStart => .armed
  | _ => .launched

/-- The step leaves the execution without having stopped its trace. -/
def Label.abandons (s : Sys n) : Label n → Bool
  | .resume r => r != .ok && s.kind == .calibration
  | .disable ok => !ok && s.kind == .calibration
  | _ => false

/-- The two threads' turns. -/
structure Handshake (s : Sys n) : Prop where
  /-- The decoder thread sleeps while no execution is launched. -/
  quiet : s.main.phase ≠ .launched → s.dec = .idle ∧ s.startPending = false
  armed : s.main.phase = .armed → s.decoderReady = false
  /-- `decoder_ready` is true only after the polling. -/
  ready : s.decoderReady = true → s.dec = .idle ∧ s.startPending = false
  polling : s.dec ≠ .idle → s.startPending = false
  startExec : s.startPending = true → s.startExec = s.exec
  decExec : s.dec ≠ .idle → s.decExec = s.exec

theorem Handshake.launched (h : Handshake s) (hd : s.dec ≠ .idle) : s.main.phase = .launched := by
  by_contra hm
  exact hd (h.quiet hm).1

theorem Handshake.afterInit (bitmap : CovMap n) : Handshake (.afterInit bitmap) := by
  refine ⟨?_, nofun, nofun, ?_, nofun, ?_⟩
  · intro _
    exact ⟨rfl, rfl⟩
  all_goals
    intro hd
    exact absurd rfl hd

/-! ### Steps outside the handshake -/

/-- The label is a step of the handshake. -/
def Label.handshakes : Label n → Bool
  | .begin _ _ | .affinity _ | .arm | .reset _ | .enable _ | .signalStart | .resume _ | .disable _
  | .join | .waitStart | .entry | .exit => true
  | _ => false

theorem phase_effect (hen : enabled b s l = true) (hl : l.handshakes = false) :
    (effect s l).main.phase = s.main.phase := by
  cases l with
  | clear | suspendCb | exitCb | signalStop =>
    rw [beq_iff_eq.mp hen]
    rfl
  | read st =>
    rw [beq_iff_eq.mp (Bool.and_eq_true_iff.mp hen).1]
    cases h : st.isSigstop <;> simp [effect, Sys.read, MainPc.phase, h]
  | begin | affinity | arm | reset | enable | signalStart | resume | disable | join | waitStart
  | entry | exit => cases hl
  | _ => rfl

/-- A polling thread goes on polling. -/
theorem dec_effect_eq_idle (hen : enabled b s l = true) (hl : l.handshakes = false) :
    (effect s l).dec = .idle ↔ s.dec = .idle := by
  cases l with
  | poll r | sendStop r | sendCont r =>
    cases r <;> simp [effect, KillResult.orLeave, beq_iff_eq.mp hen]
  | drainDisable ok => cases ok <;> simp [effect, beq_iff_eq.mp hen]
  | check filled =>
    cases filled <;> simp [effect, beq_iff_eq.mp (Bool.and_eq_true_iff.mp hen).1]
  | waitSuspend | waitStop =>
    simp [effect, beq_iff_eq.mp (Bool.and_eq_true_iff.mp hen).1]
  | drainFetch | drainEnable | finalFetch | finalDecode =>
    simp [effect, Sys.decode, beq_iff_eq.mp hen]
  | drainDecode p ok => cases ok <;> simp [effect, Sys.decode, beq_iff_eq.mp hen]
  | begin | affinity | arm | reset | enable | signalStart | resume | disable | join | waitStart
  | entry | exit => cases hl
  | _ => exact Iff.rfl

theorem Handshake.silent (h : Handshake s) (hen : enabled b s l = true)
    (hl : l.handshakes = false) : Handshake (effect s l) := by
  have hphase := phase_effect hen hl
  have hidle := dec_effect_eq_idle hen hl
  -- what the invariant reads besides the two program counters is left alone
  have hrest : (effect s l).startPending = s.startPending ∧
      (effect s l).decoderReady = s.decoderReady ∧ (effect s l).startExec = s.startExec ∧
      (effect s l).exec = s.exec ∧ (effect s l).decExec = s.decExec := by
    cases l with
    | begin | affinity | arm | reset | enable | signalStart | resume | disable | join | waitStart
    | entry | exit => cases hl
    | _ => exact ⟨rfl, rfl, rfl, rfl, rfl⟩
  obtain ⟨hstart, hready, hse, hexec, hde⟩ := hrest
  constructor
  · rw [hphase, hidle, hstart]
    exact h.quiet
  · rw [hphase, hready]
    exact h.armed
  · rw [hready, hidle, hstart]
    exact h.ready
  · rw [Ne, hidle, hstart]
    exact h.polling
  · rw [hstart, hse, hexec]
    exact h.startExec
  · rw [Ne, hidle, hde, hexec]
    exact h.decExec

/-! ### Steps of the handshake -/

/-- A step of the main thread within or into `launched`. -/
theorem Handshake.stay (h : Handshake s) (main : MainPc) {t : Sys n} (hm : main.phase = .launched)
    (ht : t = { s with
      main := main, child := t.child, inStep := t.inStep, lastOp := t.lastOp,
      disabledExec := t.disabledExec, overflow := t.overflow, childPid := t.childPid }) :
    Handshake t := by
  rw [ht]
  refine ⟨?_, ?_, h.ready, h.polling, h.startExec, h.decExec⟩
  · intro hm'
    exact absurd hm hm'
  · intro harmed
    exact absurd (hm.symm.trans harmed) nofun

theorem Handshake.begin (h : Handshake s) {kind : Kind} {stops : Bool}
    (hen : enabled b s (.begin kind stops) = true) :
    Handshake (effect s (.begin kind stops)) := by
  have hmain : s.main.phase ≠ .launched := by
    rcases Bool.or_eq_true_iff.mp (Bool.and_eq_true_iff.mp hen).1 with hm | hm <;>
      rw [beq_iff_eq.mp hm] <;> nofun
  -- the decoder thread sleeps, so nothing it has still to do is of the last execution
  obtain ⟨hidle, hstart⟩ := h.quiet hmain
  refine ⟨fun _ => ⟨hidle, hstart⟩, nofun, fun _ => ⟨hidle, hstart⟩, fun _ => hstart, ?_, ?_⟩
  · intro hpending
    exact absurd hpending (by simp [effect, Sys.begin, hstart])
  · intro hd
    exact absurd hidle hd

theorem Handshake.signalStart (h : Handshake s) (hen : enabled b s .signalStart = true) :
    Handshake (effect s .signalStart) := by
  obtain ⟨hidle, -⟩ := h.quiet (by rw [beq_iff_eq.mp hen]; nofun)
  have hready := h.armed (by rw [beq_iff_eq.mp hen]; rfl)
  refine ⟨fun hm => absurd rfl hm, nofun, ?_, ?_, fun _ => rfl, ?_⟩
  · intro hr
    exact absurd hr (by simp [effect, hready])
  all_goals
    intro hd
    exact absurd hidle hd

/-- The decoder thread takes the start: `decoder_ready` is still false. -/
theorem Handshake.waitStart (h : Handshake s) (hen : enabled b s .waitStart = true) :
    Handshake (effect s .waitStart) := by
  obtain ⟨hidle, hstart⟩ := Bool.and_eq_true_iff.mp hen
  have hm : s.main.phase = .launched := by
    by_contra hm
    simp [(h.quiet hm).2] at hstart
  have hr : s.decoderReady = false := by
    by_contra hr
    simp [(h.ready (by simpa using hr)).2] at hstart
  refine ⟨?_, h.armed, ?_, fun _ => rfl, nofun, fun _ => h.startExec hstart⟩
  · intro hm'
    exact absurd hm hm'
  · intro hr'
    exact absurd hr' (by simp [effect, hr])

/-- The end of the polling is published, and only a launched execution is polled. -/
theorem Handshake.exit (h : Handshake s) (hen : enabled b s .exit = true) :
    Handshake (effect s .exit) := by
  have hd : s.dec ≠ .idle := by
    rw [beq_iff_eq.mp hen]
    nofun
  have hstart := h.polling hd
  have hm := h.launched hd
  refine ⟨?_, ?_, fun _ => ⟨rfl, hstart⟩, fun _ => hstart, h.startExec, ?_⟩
  · intro hm'
    exact absurd hm hm'
  · intro harmed
    exact absurd (hm.symm.trans harmed) nofun
  · intro hd'
    exact absurd rfl hd'

/-- **Every step but an abandoning one keeps the handshake.** -/
theorem Handshake.step (h : Handshake s) (hen : enabled b s l = true)
    (hk : l.abandons s = false) : Handshake (effect s l) := by
  cases hl : l.handshakes with
  | false => exact h.silent hen hl
  | true =>
    cases l with
    | begin kind stops => exact h.begin hen
    | affinity ok =>
      have hq := h.quiet (by rw [beq_iff_eq.mp hen]; nofun)
      cases ok with
      | true => exact ⟨fun _ => hq, nofun, h.ready, h.polling, h.startExec, h.decExec⟩
      | false => exact h.stay .resume rfl rfl
    | reset ok | enable ok =>
      have hq := h.quiet (by rw [beq_iff_eq.mp hen]; nofun)
      have ha := h.armed (by rw [beq_iff_eq.mp hen]; rfl)
      cases ok with
      | true => exact ⟨fun _ => hq, fun _ => ha, h.ready, h.polling, h.startExec, h.decExec⟩
      | false => exact h.stay .resume rfl rfl
    | arm =>
      have hq := h.quiet (by rw [beq_iff_eq.mp hen]; nofun)
      exact ⟨fun _ => hq, fun _ => rfl, nofun, h.polling, h.startExec, h.decExec⟩
    | signalStart => exact h.signalStart hen
    | resume r =>
      -- only an abandoned calibration run leads back out of `launched`
      refine h.stay (effect s (.resume r)).main ?_ rfl
      cases r <;> cases hkind : s.kind <;>
        simp_all [effect, Sys.resume, Kind.afterFailedResume, MainPc.phase, Label.abandons]
    | disable ok =>
      refine h.stay (effect s (.disable ok)).main ?_ rfl
      cases ok <;> cases hkind : s.kind <;>
        simp_all [effect, Sys.disable, Kind.afterFailedStop, MainPc.phase, Label.abandons]
    | join =>
      -- the flag that was read is what makes the main thread quiet again
      obtain ⟨-, hready⟩ := Bool.and_eq_true_iff.mp hen
      exact ⟨fun _ => h.ready hready, nofun, h.ready, h.polling, h.startExec, h.decExec⟩
    | waitStart => exact h.waitStart hen
    | entry =>
      have hd : s.dec ≠ .idle := by
        rw [beq_iff_eq.mp hen]
        nofun
      refine ⟨?_, fun _ => rfl, nofun, fun _ => h.polling hd, h.startExec, fun _ => h.decExec hd⟩
      intro hm
      exact absurd (h.quiet hm).1 hd
    | exit => exact h.exit hen
    | _ => cases hl

end Threads
end CsTrace
