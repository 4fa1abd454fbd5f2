import CoresightTrace.Tracer.Serve

/-!
# When a traced program is finalised

A step that does not meet `Finalisable` leads to a state from which `parent()` does
not return (`Doomed`), so a run in which it returns meets the condition. There are
three kinds of these states.

* `Spinning`: the program was terminated by a signal. `parent()` looks for an exit
  only, and its next `waitpid()` fails and leaves the status as it is.
* `Threadless`: the decoder thread was not created, since `init_trace()` has failed or
  was not called, and `fini_trace()` joins it.
* `Deadlocked`: `stop_trace()` waits for a decoder thread that was not started, or that
  waits for a stop of a program that has exited. `cs-proxy` calls
  `trace_child_exited_callback()` there, and `parent()` does not.
-/

namespace CsTrace
namespace Tracer

open Threads (Status)

variable {c : Config} {p : Tracee} {s : Sys} {l : Label}

/-! ### The runs that do not meet the condition -/

/-- `parent()` reads a termination by a signal over and over. -/
def Spinning (s : Sys) : Prop :=
  s.statuses = [] ∧ signaled s.wstatus = true ∧ 7 ≤ s.parent.left

/-- `fini_trace()` will join a thread that does not exist. -/
def Threadless (c : Config) (s : Sys) : Prop :=
  c.decodingOn = true ∧ s.dec = .absent ∧ s.parent.left ≤ 13 ∧ 2 ≤ s.parent.left ∧
    s.parent ≠ .finiFetch

/-- The decoder thread waits for an event that was not signalled. -/
def Asleep (s : Sys) : Prop :=
  s.finiPending = false ∧
    (s.dec = .running .idle ∧ s.startPending = false ∨
      s.dec = .running .waitSuspend ∧ s.suspendPending = false)

/-- `stop_trace()` waits for a decoder thread that sleeps. -/
def Deadlocked (s : Sys) : Prop :=
  (s.parent = .signalStop ∨ s.parent = .join) ∧ s.decoderReady = false ∧ Asleep s

/-- `parent()` will not return. -/
def Doomed (c : Config) (s : Sys) : Prop :=
  Spinning s ∨ Threadless c s ∨ Deadlocked s

theorem not_exited_of_signaled {st : Status} (h : signaled st = true) : ¬ exited st = true := by
  cases st with
  | signaled => rintro ⟨⟩
  | _ => cases h

theorem Spinning.wait (h : Spinning s) : Spinning (parentEffect c s .wait) := by
  obtain ⟨hnone, hsig, -⟩ := h
  have hsame : s.waitStatus = s.wstatus := by rw [Sys.waitStatus, hnone]; rfl
  refine ⟨?_, ?_, ?_⟩
  · change s.statuses.tail = []
    rw [hnone]
    rfl
  · change signaled s.waitStatus = true
    rw [hsame]
    exact hsig
  · by_contra hlt
    have hexit : exited s.waitStatus = true := exited_of_afterWait (Nat.not_lt.mp hlt)
    rw [hsame] at hexit
    exact not_exited_of_signaled hsig hexit

theorem Spinning.move {t : Sys} (h : Spinning s) (hstatuses : t.statuses = s.statuses)
    (hwstatus : t.wstatus = s.wstatus) (hreaped : t.parent.left ≤ 6 → s.parent.left ≤ 6) :
    Spinning t := by
  obtain ⟨hnone, hsig, hleft⟩ := h
  refine ⟨hstatuses.trans hnone, by rw [hwstatus]; exact hsig, ?_⟩
  by_contra hlt
  exact absurd (hreaped (Nat.not_lt.mp hlt)) (Nat.not_le.mpr hleft)

theorem Spinning.step (h : Spinning s) (hen : enabled c s l = true) :
    Spinning (effect c s l) := by
  cases l with
  | decoder a => cases a <;> exact h
  | parent a =>
    replace hen : parentEnabled c s a = true := hen
    cases a with
    | wait => exact h.wait (c := c)
    | _ => exact h.move rfl rfl (parent_onward hen (by rintro ⟨⟩)).2.1

theorem Threadless.wait (h : Threadless c s) (hen : parentEnabled c s .wait = true) :
    Threadless c (parentEffect c s .wait) := by
  obtain ⟨hon, hdec, hle, -⟩ := h
  have hpc : s.parent = .waiting := by
    rcases parent_of_wait hen with hpc | hpc | hpc
    · rw [hpc] at hle
      exact absurd hle (by decide)
    · rw [hpc] at hle
      exact absurd hle (by decide)
    · exact hpc
  refine ⟨hon, hdec, ?_⟩
  rw [parentEffect, hpc]
  dsimp only [ParentPc.afterWait]
  split
  · decide
  · split <;> decide

theorem Threadless.step (h : Threadless c s) (hen : enabled c s l = true) :
    Threadless c (effect c s l) := by
  obtain ⟨hon, hdec, hle, hge, hfetch⟩ := h
  cases l with
  | decoder a => cases a <;> simp [enabled, decEnabled, hdec] at hen
  | parent a =>
    cases a with
    | wait => exact Threadless.wait ⟨hon, hdec, hle, hge, hfetch⟩ hen
    | init r =>
      rw [parent_of_init hen] at hle
      exact absurd hle (by decide)
    | joinThread => simp [enabled, parentEnabled, hdec] at hen
    | finiFetch => exact absurd (beq_iff_eq.mp hen) hfetch
    | shutdown =>
      rw [beq_iff_eq.mp hen] at hge
      exact absurd hge (by decide)
    | affinity ok | reset ok | enable ok =>
      -- `parent()` goes on towards the join, which it does not pass
      refine ⟨hon, hdec, ?_⟩
      cases ok <;> simp [effect, parentEffect, ParentPc.left]
    | disable ok =>
      refine ⟨hon, hdec, ?_⟩
      cases ok <;> simp [effect, parentEffect, Config.fini, hon, ParentPc.left]
    | _ =>
      refine ⟨hon, hdec, ?_⟩
      simp [effect, parentEffect, Config.fini, hon, ParentPc.left]

theorem Asleep.not_enabled (h : Asleep s) (a : DecAct) : decEnabled c s a = false := by
  obtain ⟨hfini, ⟨hdec, hpending⟩ | ⟨hdec, hpending⟩⟩ := h <;>
    cases a <;> simp [decEnabled, hdec, hpending, hfini]

theorem Deadlocked.blocked (h : Deadlocked s) (hpc : s.parent = .join) :
    enabled c s l = false := by
  obtain ⟨-, hready, hasleep⟩ := h
  cases l with
  | decoder a => exact hasleep.not_enabled a
  | parent a => cases a <;> simp [enabled, parentEnabled, hpc, hready]

theorem Deadlocked.step (h : Deadlocked s) (hen : enabled c s l = true) :
    Deadlocked (effect c s l) := by
  rcases h.1 with hpc | hpc
  · obtain ⟨-, hready, hasleep⟩ := h
    cases l with
    | decoder a =>
      rw [enabled, hasleep.not_enabled] at hen
      cases hen
    | parent a =>
      cases a with
      | signalStop => exact ⟨.inr rfl, hready, hasleep⟩
      | _ => simp [enabled, parentEnabled, hpc] at hen
  · rw [h.blocked hpc] at hen
    cases hen

theorem Doomed.step (h : Doomed c s) (hen : enabled c s l = true) : Doomed c (effect c s l) := by
  rcases h with h | h | h
  · exact .inl (h.step hen)
  · exact .inr (.inl (h.step hen))
  · exact .inr (.inr (h.step hen))

end Tracer
end CsTrace
