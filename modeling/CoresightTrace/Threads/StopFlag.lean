import CoresightTrace.Threads.Handshake

/-!
# The final fetch and `stop_pending`

At the label `killed` the decoder thread waits for `stop_pending`, so that its
last fetch comes after `stop_trace()` has disabled the sinks. The flag carries
no execution: `stop_trace()` sets it each time, and an execution whose polling
leaves through one of its error exits, or was never started, does not consume
it. The next execution then finds it set and fetches while its own trace is
still running.

`final_fetch_after_disable` shows that this is the only way: in a run in which
every polling gets to `killed`, the final fetch of an execution comes after the
`disable_cs_trace()` of its `stop_trace()`. `final_fetch_before_disable` is a run
with one failed decode in which it does not.
-/

namespace CsTrace
namespace Threads

open Hybrid (CovMap)

variable {n : ℕ} {b : Build} {s : Sys n} {l : Label n}

/-! ### The condition and the invariant -/

/-- The step takes no polling out through an error exit before `killed`, and
leaves no execution without its polling or without its stop signal: no drain's
`kill()` fails but with `ESRCH`, no drain's disable or decode fails, no
`set_cpu_affinity()` fails with `decoder_ready` set, and no calibration run is left
behind. -/
def PollsThrough (s : Sys n) : Label n → Bool
  -- with `decoder_ready` clear, `stop_trace()` waits for ever
  | .affinity ok => ok || !s.decoderReady
  | .drainDisable ok | .drainDecode _ ok => ok
  | .sendStop r | .sendCont r => r != .error
  | .resume r => r == .ok || s.kind != .calibration
  | .disable ok => ok || s.kind != .calibration
  | _ => true

theorem PollsThrough.not_abandons (h : PollsThrough s l = true) : l.abandons s = false := by
  cases l with
  | resume r => cases r <;> simp_all [PollsThrough, Label.abandons]
  | disable ok => cases ok <;> simp_all [PollsThrough, Label.abandons]
  | _ => rfl

/-- The decoder thread has consumed the stop signal. -/
def DecPc.pastStop : DecPc → Bool
  | .finalFetch | .finalDecode | .exit => true
  | _ => false

/-- The stop signal is set by the execution that waits for its polling, and is
consumed before the polling ends. -/
structure StopFlag (s : Sys n) : Prop where
  disabled : s.main = .signalStop ∨ s.main = .join → s.disabledExec = s.exec
  flag : s.stopPending = true → s.main = .join
  pastStop : s.dec.pastStop = true → s.main = .join ∧ s.stopPending = false
  ready : s.main.phase = .launched → s.decoderReady = true →
    s.main = .join ∧ s.stopPending = false

theorem StopFlag.afterInit (bitmap : CovMap n) : StopFlag (.afterInit bitmap) := by
  refine ⟨?_, nofun, nofun, nofun⟩
  rintro (h | h) <;> cases h

/-! ### Steps of the main thread -/

/-- A step of the main thread outside its wait for the decoder thread. -/
theorem StopFlag.outside {t : Sys n} (h : StopFlag s) (hs : s.main ≠ .join) (ht : t.main ≠ .join)
    (hstop : t.stopPending = s.stopPending) (hdec : t.dec = s.dec)
    (hdis : t.main = .signalStop → t.disabledExec = t.exec)
    (hready : t.main.phase = .launched → t.decoderReady = false) : StopFlag t := by
  -- outside the wait the flag is clear, and the decoder thread has not consumed it
  have hclear : s.stopPending = false := by
    by_contra hp
    exact hs (h.flag (by simpa using hp))
  have hpast : s.dec.pastStop = false := by
    by_contra hp
    exact hs (h.pastStop (by simpa using hp)).1
  refine ⟨?_, ?_, ?_, ?_⟩
  · rintro (hm | hm)
    · exact hdis hm
    · exact absurd hm ht
  · rw [hstop, hclear]
    nofun
  · rw [hdec, hpast]
    nofun
  · intro hm hr
    exact absurd hr (by simp [hready hm])

/-- Until `stop_trace()` waits for it, the polling is not over. -/
theorem StopFlag.not_ready (h : StopFlag s) (hm : s.main.phase = .launched) (hs : s.main ≠ .join) :
    s.decoderReady = false := by
  by_contra hr
  exact hs (h.ready hm (by simpa using hr)).1

theorem StopFlag.signalStop (h : StopFlag s) (hen : enabled b s .signalStop = true) :
    StopFlag (effect s .signalStop) := by
  have hmain : s.main = .signalStop := beq_iff_eq.mp hen
  refine ⟨fun _ => h.disabled (.inl hmain), fun _ => rfl, ?_, ?_⟩
  · intro hp
    have hjoin := (h.pastStop hp).1
    simp [hmain] at hjoin
  · intro _ hr
    have hjoin := (h.ready (by rw [hmain]; rfl) hr).1
    simp [hmain] at hjoin

theorem StopFlag.join (h : StopFlag s) (hh : Handshake s) (hen : enabled b s .join = true) :
    StopFlag (effect s .join) := by
  obtain ⟨hmain, hready⟩ := Bool.and_eq_true_iff.mp hen
  have hstop := (h.ready (by rw [beq_iff_eq.mp hmain]; rfl) hready).2
  refine ⟨?_, ?_, ?_, nofun⟩
  · rintro (hm | hm) <;> cases hm
  · intro hp
    exact absurd hp (by simp [effect, hstop])
  · intro hp
    have hidle := (hh.ready hready).1
    exact absurd hp (by simp [effect, hidle, DecPc.pastStop])

/-! ### Steps of the decoder thread -/

/-- The decoder thread gets past `killed` by consuming the stop signal only. -/
theorem pastStop_effect (hen : enabled b s l = true) (hc : PollsThrough s l = true)
    (hl : l ≠ .waitStop) (hp : (effect s l).dec.pastStop = true) : s.dec.pastStop = true := by
  cases l with
  | waitStop => exact absurd rfl hl
  | poll r => cases r <;> cases hp
  | sendStop r | sendCont r =>
    cases r with
    | ok | esrch => cases hp
    | error => cases hc
  | drainDisable ok | drainDecode p ok =>
    cases ok with
    | true => cases hp
    | false => cases hc
  | check filled => cases filled <;> cases hp
  | waitStart | entry | waitSuspend | drainFetch | drainEnable | exit => cases hp
  | finalFetch | finalDecode =>
    rw [beq_iff_eq.mp hen]
    rfl
  | _ => exact hp

/-- A step that touches neither the main thread nor the two flags. -/
theorem StopFlag.decoder {t : Sys n} (h : StopFlag s) (hmain : t.main = s.main)
    (hexec : t.exec = s.exec) (hdis : t.disabledExec = s.disabledExec)
    (hstop : t.stopPending = s.stopPending)
    (hready : t.decoderReady = true → s.decoderReady = true)
    (hpast : t.dec.pastStop = true → s.dec.pastStop = true) : StopFlag t := by
  refine ⟨?_, ?_, ?_, ?_⟩
  · rw [hmain, hdis, hexec]
    exact h.disabled
  · rw [hstop, hmain]
    exact h.flag
  · rw [hmain, hstop]
    exact fun hp => h.pastStop (hpast hp)
  · rw [hmain, hstop]
    exact fun hm hr => h.ready hm (hready hr)

theorem StopFlag.waitStop (h : StopFlag s) (hen : enabled b s .waitStop = true) :
    StopFlag (effect s .waitStop) := by
  obtain ⟨-, hstop⟩ := Bool.and_eq_true_iff.mp hen
  have hmain := h.flag hstop
  exact ⟨h.disabled, nofun, fun _ => ⟨hmain, rfl⟩, fun _ _ => ⟨hmain, rfl⟩⟩

theorem StopFlag.exit (h : StopFlag s) (hen : enabled b s .exit = true) :
    StopFlag (effect s .exit) := by
  have hdone := h.pastStop (by rw [beq_iff_eq.mp hen]; rfl)
  exact ⟨h.disabled, h.flag, nofun, fun _ _ => hdone⟩

theorem StopFlag.step (h : StopFlag s) (hh : Handshake s) (hen : enabled b s l = true)
    (hc : PollsThrough s l = true) : StopFlag (effect s l) := by
  cases l with
  | begin kind stops =>
    refine h.outside ?_ (by rintro ⟨⟩) rfl rfl (by rintro ⟨⟩) (by rintro ⟨⟩)
    rcases Bool.or_eq_true_iff.mp (Bool.and_eq_true_iff.mp hen).1 with hm | hm <;>
      rw [beq_iff_eq.mp hm] <;> rintro ⟨⟩
  | affinity ok =>
    cases ok with
    | true =>
      refine h.outside (by rw [beq_iff_eq.mp hen]; rintro ⟨⟩) ?_ rfl rfl ?_ ?_ <;> rintro ⟨⟩
    | false =>
      have hready : s.decoderReady = false := by simpa [PollsThrough] using hc
      refine h.outside (by rw [beq_iff_eq.mp hen]; rintro ⟨⟩) ?_ rfl rfl ?_ fun _ => hready <;>
        rintro ⟨⟩
  | clear | arm =>
    refine h.outside (by rw [beq_iff_eq.mp hen]; rintro ⟨⟩) ?_ rfl rfl ?_ ?_ <;> rintro ⟨⟩
  | reset ok | enable ok =>
    -- the decoder thread was made not ready before
    have hready := hh.armed (by rw [beq_iff_eq.mp hen]; rfl)
    refine h.outside (by rw [beq_iff_eq.mp hen]; rintro ⟨⟩) ?_ rfl rfl ?_ fun _ => hready
    · cases ok <;> rintro ⟨⟩
    · cases ok <;> rintro ⟨⟩
  | signalStart =>
    have hready := hh.armed (by rw [beq_iff_eq.mp hen]; rfl)
    refine h.outside (by rw [beq_iff_eq.mp hen]; rintro ⟨⟩) ?_ rfl rfl ?_ fun _ => hready <;>
      rintro ⟨⟩
  | resume r =>
    have hmain : s.main = .resume := beq_iff_eq.mp hen
    have hready := h.not_ready (by rw [hmain]; rfl) (by rw [hmain]; rintro ⟨⟩)
    have hnext : (effect s (.resume r)).main ≠ .join ∧
        (effect s (.resume r)).main ≠ .signalStop := by
      cases r <;> cases hkind : s.kind <;>
        simp [effect, Sys.resume, hkind, Kind.afterFailedResume]
    exact h.outside (by rw [hmain]; rintro ⟨⟩) hnext.1 rfl rfl (fun hm => absurd hm hnext.2)
      fun _ => hready
  | read st =>
    have hmain : s.main = .waiting := beq_iff_eq.mp (Bool.and_eq_true_iff.mp hen).1
    have hready := h.not_ready (by rw [hmain]; rfl) (by rw [hmain]; rintro ⟨⟩)
    have hnext : (effect s (.read st)).main ≠ .join ∧ (effect s (.read st)).main ≠ .signalStop := by
      cases hst : st.isSigstop <;> simp [effect, Sys.read, hst]
    exact h.outside (by rw [hmain]; rintro ⟨⟩) hnext.1 rfl rfl (fun hm => absurd hm hnext.2)
      fun _ => hready
  | suspendCb | exitCb =>
    have hready := h.not_ready (by rw [beq_iff_eq.mp hen]; rfl)
      (by rw [beq_iff_eq.mp hen]; rintro ⟨⟩)
    refine h.outside (by rw [beq_iff_eq.mp hen]; rintro ⟨⟩) ?_ rfl rfl ?_ fun _ => hready <;>
      rintro ⟨⟩
  | disable ok =>
    have hmain : s.main = .disable := beq_iff_eq.mp hen
    have hready := h.not_ready (by rw [hmain]; rfl) (by rw [hmain]; rintro ⟨⟩)
    -- a failed disable leaves the execution, with no stop signal sent
    refine h.outside (by rw [hmain]; rintro ⟨⟩) ?_ rfl rfl ?_ fun _ => hready
    · cases ok <;> cases hkind : s.kind <;>
        simp [effect, Sys.disable, hkind, Kind.afterFailedStop]
    · cases ok with
      | true => exact fun _ => rfl
      | false => cases hkind : s.kind <;> simp [effect, Sys.disable, hkind, Kind.afterFailedStop]
  | signalStop => exact h.signalStop hen
  | join => exact h.join hh hen
  | waitStop => exact h.waitStop hen
  | exit => exact h.exit hen
  | entry => exact h.decoder rfl rfl rfl rfl (by rintro ⟨⟩) (by rintro ⟨⟩)
  | _ => exact h.decoder rfl rfl rfl rfl id (pastStop_effect hen hc (by rintro ⟨⟩))

/-! ### The final fetch -/

/-- **The final fetch comes after the disable.** In every run whose pollings all
get to the label `killed`, when the decoder thread makes the last fetch of an
execution, the `stop_trace()` of this execution has disabled the sinks. -/
theorem final_fetch_after_disable
    (hs : ((traceSystem b n).restrict PollsThrough).machine.Reachable s)
    (hfetch : s.dec = .finalFetch) : s.disabledExec = s.decExec := by
  have hinv := Guarded.invariant_restrict (I := fun s => Handshake s ∧ StopFlag s) hs
    (by rintro _ ⟨bitmap, rfl⟩; exact ⟨.afterInit bitmap, .afterInit bitmap⟩)
    fun s l h hen hc => ⟨h.1.step hen (PollsThrough.not_abandons hc), h.2.step h.1 hen hc⟩
  obtain ⟨hh, hf⟩ := hinv
  -- the thread that fetches has consumed the flag, so the main thread waits for it
  have hjoin := (hf.pastStop (by rw [hfetch]; rfl)).1
  rw [hh.decExec (by rw [hfetch]; nofun)]
  exact hf.disabled (.inr hjoin)

/-- One execution after another up to its final fetch, no call failing. -/
theorem final_fetch_after_disable_short :
    let s := (traceSystem .stalker 1).run (.afterInit fun _ => 0#8)
      [.begin .first true, .affinity true, .clear, .arm, .reset true, .enable true, .signalStart,
        .resume .ok, .waitStart, .entry, .childDie (.exited 0), .relay, .poll .esrch,
        .read (.exited 0), .exitCb, .disable true, .signalStop, .waitStop]
    s.dec = .finalFetch ∧ s.disabledExec = s.decExec := by
  refine ⟨by decide, final_fetch_after_disable (b := .stalker) ?_ (by decide)⟩
  exact Guarded.reachable_of_applicable (.of_init ⟨_, rfl⟩) (by decide)

/-- Two executions. The first is drained once and the decode of the drain fails;
the child of the second exits at once. -/
def failedDecodeRun : List (Label 1) :=
  [.begin .first true, .affinity true, .clear, .arm, .reset true, .enable true, .signalStart,
    .resume .ok, .waitStart, .entry, .poll .ok, .check true, .sendStop .ok,
    .childStop sigstop, .relay, .read (.stopped sigstop), .suspendCb, .waitSuspend,
    .drainDisable true, .drainFetch, .drainEnable true, .sendCont .ok,
    .drainDecode ⟨id, false⟩ false, .exit,
    .childDie (.exited 0), .relay, .read (.exited 0), .exitCb, .disable true, .signalStop, .join,
    .begin .first true, .affinity true, .clear, .arm, .reset true, .enable true, .signalStart,
    .resume .ok, .waitStart, .entry, .childDie (.exited 0), .relay, .poll .esrch, .waitStop]

/-- **A failed decode lets the next final fetch run early.** After a drain whose
decode fails, the stop signal of the execution is left over, and the next
execution makes its final fetch with the main thread not yet in `stop_trace()`. -/
theorem final_fetch_before_disable :
    ∃ s, ((traceSystem .coresight 1).restrict Lawful).machine.Reachable s ∧
      s.dec = .finalFetch ∧ s.decExec = 2 ∧ s.disabledExec = 1 := by
  refine ⟨((traceSystem .coresight 1).restrict Lawful).run (.afterInit fun _ => 0#8)
    failedDecodeRun, ?_, ?_⟩
  · exact Guarded.reachable_of_applicable (.of_init ⟨_, rfl⟩) (by decide)
  · decide

end Threads
end CsTrace
