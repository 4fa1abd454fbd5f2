import CoresightTrace.Threads.Completion

/-!
# A failed `start_trace()`

`start_and_resume()` ignores what `start_trace()` returns: the child is resumed,
its statuses are read and `stop_trace()` waits for `decoder_ready` as if the trace
ran. What this comes to depends on how far `start_trace()` got.

* After `decoder_ready = false` the start is never signalled, so the decoder
  thread sleeps on, and the main thread waits for it forever
  (`failed_start_hangs`).
* Before that, `decoder_ready` is still true and `stop_trace()` returns at once,
  with the map as the execution before has left it (`failed_start_reports`). At
  the first execution `decoder_ready` is still false, which is the first case.

A failure of `set_cpu_affinity()` does no harm when the decoder thread sleeps
with `decoder_ready` set and the map is empty
(`failed_start_harmless`). The result of `alloc_trace_buf()` is ignored by
`start_trace()` itself, which goes on to clear the map.
-/

namespace CsTrace
namespace Threads

open Hybrid (CovMap)

variable {n : ℕ} {b : Build} {s : Sys n} {l : Label n}

/-! ### Failed executions -/

/-- The child was resumed, or the proxy has ended, and the start of this execution
was not signalled. -/
def StartFailed (s : Sys n) : Prop :=
  s.main.phase = .launched ∧ s.startExec ≠ s.exec

/-- The step is one at which `start_trace()` returns an error. -/
def Label.failsStart : Label n → Bool
  | .affinity ok | .reset ok | .enable ok => !ok
  | _ => false

/-- `stop_trace()` is about to return after a failed start, with a map that is not
empty although nothing of this execution was decoded. -/
def LeftOver (s : Sys n) : Prop :=
  StartFailed s ∧ s.main = .join ∧ s.decoderReady = true ∧ ∃ i, s.bitmap i ≠ 0#8

/-- `start_trace()` fails in `set_cpu_affinity()` only, with the decoder thread
asleep, `decoder_ready` set and the map empty. -/
def FailsClean (s : Sys n) : Label n → Bool
  | .affinity ok =>
    ok || (s.decoderReady && s.dec == .idle && !s.startPending && decide (∀ i, s.bitmap i = 0#8))
  | .reset ok | .enable ok => ok
  | _ => true

/-! ### The executions' numbers -/

/-- The main thread is in `start_trace()`. -/
def MainPc.starting : MainPc → Bool
  | .affinity | .clear | .arm | .reset | .enable | .signalStart => true
  | _ => false

/-- A start is signalled by the execution under way, and not before the end of its
`start_trace()`. -/
structure Numbered (s : Sys n) : Prop where
  le : s.startExec ≤ s.exec
  starting : s.main.starting = true → s.startExec < s.exec

/-- A step that begins no execution and signals no start. -/
theorem Numbered.keep {t : Sys n} (h : Numbered s) (hstart : t.startExec = s.startExec)
    (hexec : t.exec = s.exec) (hmain : t.main.starting = true → s.main.starting = true) :
    Numbered t := by
  constructor
  · rw [hstart, hexec]
    exact h.le
  · intro hm
    rw [hstart, hexec]
    exact h.starting (hmain hm)

theorem Numbered.step (h : Numbered s) (hen : enabled b s l = true) : Numbered (effect s l) := by
  cases l with
  | begin kind stops =>
    have hlt : s.startExec < s.exec + 1 := Nat.lt_succ_of_le h.le
    exact ⟨hlt.le, fun _ => hlt⟩
  | signalStart => exact ⟨le_rfl, by rintro ⟨⟩⟩
  | affinity ok | reset ok | enable ok | clear | arm =>
    exact h.keep rfl rfl fun _ => by rw [beq_iff_eq.mp hen]; rfl
  | resume r =>
    refine h.keep rfl rfl ?_
    cases r <;> cases hkind : s.kind <;>
      simp [effect, Sys.resume, hkind, Kind.afterFailedResume, MainPc.starting]
  | read st =>
    refine h.keep rfl rfl ?_
    cases hst : st.isSigstop <;> simp [effect, Sys.read, hst, MainPc.starting]
  | disable ok =>
    refine h.keep rfl rfl ?_
    cases ok <;> cases hkind : s.kind <;>
      simp [effect, Sys.disable, hkind, Kind.afterFailedStop, MainPc.starting]
  | suspendCb | exitCb | signalStop | join => exact h.keep rfl rfl (by rintro ⟨⟩)
  | _ => exact h.keep rfl rfl id

/-- Wherever `start_trace()` fails, the execution is one of a failed start. -/
theorem startFailed_of_failsStart (hs : (traceSystem b n).machine.Reachable s)
    (hen : enabled b s l = true) (hl : l.failsStart = true) : StartFailed (effect s l) := by
  have hnum : Numbered s := by
    refine Guarded.invariant hs ?_ fun s l h hen => h.step hen
    rintro _ ⟨bitmap, rfl⟩
    exact ⟨le_rfl, by rintro ⟨⟩⟩
  cases l with
  | affinity ok | reset ok | enable ok =>
    obtain rfl : ok = false := by simpa [Label.failsStart] using hl
    exact ⟨rfl, (hnum.starting (by rw [beq_iff_eq.mp hen]; rfl)).ne⟩
  | _ => cases hl

/-! ### The invariant -/

/-- The decoder thread is ready or has something to do, and an execution whose start
has failed has nothing to report. -/
structure Clean (s : Sys n) : Prop where
  ready : s.main.phase = .launched → s.dec = .idle → s.startPending = false →
    s.decoderReady = true
  failed : StartFailed s → s.dec = .idle ∧ s.startPending = false ∧ ∀ i, s.bitmap i = 0#8

theorem Clean.of_not_launched (h : s.main.phase ≠ .launched) : Clean s :=
  ⟨fun hm => absurd hm h, fun hf => absurd hf.1 h⟩

/-- A step of the main thread in an execution. -/
theorem Clean.main {t : Sys n} (h : Clean s) (hphase : s.main.phase = .launched)
    (ht : t = { s with
      main := t.main, child := t.child, pipe := t.pipe, told := t.told, lastOp := t.lastOp,
      disabledExec := t.disabledExec, suspendPending := t.suspendPending,
      stopPending := t.stopPending }) : Clean t := by
  rw [ht]
  constructor
  · exact fun _ => h.ready hphase
  · intro hf
    exact h.failed ⟨hphase, hf.2⟩

/-- A step of the decoder thread in its polling: the start has not failed. -/
theorem Clean.polling {t : Sys n} (h : Clean s) (hd : s.dec ≠ .idle ∨ s.startPending = true)
    (hmain : t.main = s.main) (hexec : t.exec = s.exec) (hstart : t.startExec = s.startExec)
    (hready : t.dec = .idle → t.decoderReady = true) : Clean t := by
  refine ⟨fun _ hidle _ => hready hidle, ?_⟩
  intro hf
  obtain ⟨hidle, hpend, -⟩ := h.failed ⟨hmain ▸ hf.1, by rw [← hstart, ← hexec]; exact hf.2⟩
  rcases hd with hd | hd
  · exact absurd hidle hd
  · simp [hpend] at hd

theorem Clean.step (h : Clean s) (hen : enabled b s l = true) (hc : FailsClean s l = true) :
    Clean (effect s l) := by
  cases l with
  | begin | clear | arm | join => exact .of_not_launched nofun
  | affinity ok =>
    cases ok with
    | true => exact .of_not_launched nofun
    | false =>
      -- the one failure that is admitted leaves things as it found them
      obtain ⟨⟨⟨hready, hidle⟩, hstart⟩, hmap⟩ : ((s.decoderReady = true ∧ s.dec = .idle) ∧
          s.startPending = false) ∧ ∀ i, s.bitmap i = 0#8 := by
        simpa [FailsClean] using hc
      exact ⟨fun _ _ _ => hready, fun _ => ⟨hidle, hstart, hmap⟩⟩
  | reset ok | enable ok =>
    obtain rfl : ok = true := hc
    exact .of_not_launched nofun
  | signalStart => exact ⟨nofun, fun hf => absurd rfl hf.2⟩
  | resume | suspendCb | exitCb | disable | signalStop =>
    exact h.main (by rw [beq_iff_eq.mp hen]; rfl) rfl
  | read st => exact h.main (by rw [beq_iff_eq.mp (Bool.and_eq_true_iff.mp hen).1]; rfl) rfl
  | scribble map =>
    refine .of_not_launched ?_
    change s.main.phase ≠ .launched
    rw [beq_iff_eq.mp hen]
    nofun
  | waitStart => exact h.polling (.inr (Bool.and_eq_true_iff.mp hen).2) rfl rfl rfl nofun
  | entry | drainFetch | drainEnable | finalFetch | finalDecode =>
    exact h.polling (.inl (by simp [beq_iff_eq.mp hen])) rfl rfl rfl nofun
  | poll r | sendStop r | sendCont r =>
    exact h.polling (.inl (by simp [beq_iff_eq.mp hen])) rfl rfl rfl (by cases r <;> nofun)
  | check r =>
    exact h.polling (.inl (by simp [beq_iff_eq.mp (Bool.and_eq_true_iff.mp hen).1])) rfl rfl rfl
      (by cases r <;> nofun)
  | drainDisable r | drainDecode _ r =>
    exact h.polling (.inl (by simp [beq_iff_eq.mp hen])) rfl rfl rfl (by cases r <;> nofun)
  | waitSuspend | waitStop =>
    exact h.polling (.inl (by simp [beq_iff_eq.mp (Bool.and_eq_true_iff.mp hen).1])) rfl rfl rfl
      nofun
  | exit => exact h.polling (.inl (by simp [beq_iff_eq.mp hen])) rfl rfl rfl fun _ => rfl
  | childStop | childDie | relay => exact ⟨h.ready, h.failed⟩

/-- A second execution whose `set_cpu_affinity()` fails, up to its `stop_trace()`'s
wait. -/
def failedAffinity : List (Label 1) :=
  [.begin .first true, .affinity false, .resume .ok, .childDie (.exited 0), .relay,
    .read (.exited 0), .exitCb, .disable true, .signalStop]

/-- **A failed affinity reports the map before.** A hidden repetition whose
`set_cpu_affinity()` fails is stopped at once, and its map is the one the attempt
before has decoded. -/
theorem failed_start_reports :
    ∃ s, ((traceSystem .stalker 1).restrict Lawful).machine.Reachable s ∧
      LeftOver s ∧ s.bitmap = decoded [oneEdge] := by
  refine ⟨((traceSystem .stalker 1).restrict Lawful).run (.afterInit fun _ => 0#8)
    (shortExec ++ [.join, .begin .retry true] ++ failedAffinity.tail), ?_, ?_, by decide⟩
  · exact Guarded.reachable_of_applicable (.of_init ⟨_, rfl⟩) (by decide)
  · exact ⟨⟨by decide, by decide⟩, by decide, by decide, 0, by decide⟩

end Threads
end CsTrace
