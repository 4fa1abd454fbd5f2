import CoresightTrace.Threads.Handshake

/-!
# What is decoded when `stop_trace()` returns

The map and the overflow flag the proxy reads after `stop_trace()` were written
by the decoder thread. `start_trace()` clears both before the decoder thread can
run, and the handshake keeps the passes of other executions away, so they are
what the passes of this execution made of an empty map, whatever earlier
executions left behind (`Fresh`).
-/

namespace CsTrace
namespace Threads

open Hybrid (CovMap)

variable {n : ℕ} {b : Build} {s : Sys n} {l : Label n}

/-- The decode passes of the last execution. -/
def Sys.own (s : Sys n) : List (Pass n) :=
  (s.passes.filter fun p => p.1 == s.exec).map Prod.snd

/-- What decode passes make of an empty map. -/
def decoded (ps : List (Pass n)) : CovMap n :=
  ps.foldl (fun m p => p.apply m) fun _ => 0#8

/-- Every `start_trace()` and `stop_trace()` returns 0: the step makes none fail,
and begins an execution only when the `stop_trace()` of the last one has
returned. -/
def Returns0 (s : Sys n) : Label n → Bool
  | .begin _ _ => s.main == .stopped || s.exec == 0
  | .affinity ok | .reset ok | .enable ok | .disable ok => ok
  | _ => true

/-! ### An execution left behind

A calibration run whose `SIGCONT` fails is never stopped. In the runs at hand it
is the last one. -/

/-- The last execution was left without its `stop_trace()`. -/
def LeftBehind (s : Sys n) : Prop := s.main = .idle ∧ 0 < s.exec

/-- The main thread is idle before the first execution, and after one left
behind. -/
theorem begun_step (h : s.main ≠ .idle → 0 < s.exec) (hen : enabled b s l = true) :
    (effect s l).main ≠ .idle → 0 < (effect s l).exec := by
  cases l with
  | begin => exact fun _ => Nat.succ_pos _
  | affinity | clear | arm | reset | enable | signalStart | resume | suspendCb | exitCb | disable
  | signalStop => exact fun _ => h (by rw [beq_iff_eq.mp hen]; nofun)
  | read | join => exact fun _ => h (by rw [beq_iff_eq.mp (Bool.and_eq_true_iff.mp hen).1]; nofun)
  | _ => exact h

theorem LeftBehind.of_abandons (h : s.main ≠ .idle → 0 < s.exec) (hen : enabled b s l = true)
    (hr : Returns0 s l = true) (hk : l.abandons s = true) : LeftBehind (effect s l) := by
  cases l with
  | resume r =>
    have hexec := h (by rw [beq_iff_eq.mp hen]; nofun)
    simp only [Label.abandons, Bool.and_eq_true, bne_iff_ne, beq_iff_eq] at hk
    exact ⟨by simp [effect, Sys.resume, hk.1, hk.2, Kind.afterFailedResume], hexec⟩
  | disable ok =>
    -- its `stop_trace()` has returned 0
    cases ok with
    | true => cases hk
    | false => cases hr
  | _ => cases hk

theorem LeftBehind.step (h : LeftBehind s) (hen : enabled b s l = true)
    (hr : Returns0 s l = true) : LeftBehind (effect s l) := by
  obtain ⟨hmain, hexec⟩ := h
  cases l with
  | begin => simp [Returns0, hmain, hexec.ne'] at hr
  | affinity | clear | arm | reset | enable | signalStart | resume | read | suspendCb | exitCb
  | disable | signalStop | join => simp [enabled, hmain] at hen
  | _ => exact ⟨hmain, hexec⟩

/-! ### The invariant -/

/-- How many of the sections of `start_trace()` the main thread has entered. -/
def MainPc.rank : MainPc → ℕ
  | .idle | .stopped => 0
  | .affinity => 1
  | .clear => 2
  | .arm => 3
  | .reset => 4
  | .enable => 5
  | .signalStart => 6
  | _ => 7

theorem MainPc.rank_of_launched {pc : MainPc} (h : pc.phase = .launched) : pc.rank = 7 := by
  cases pc <;> first | rfl | cases h

/-- The map and the overflow flag are the current execution's own. -/
structure Fresh (s : Sys n) : Prop where
  tags : ∀ p ∈ s.passes, p.1 ≤ s.exec
  unstarted : 1 ≤ s.main.rank → s.main.rank ≤ 6 → s.own = []
  bitmap : 3 ≤ s.main.rank → s.bitmap = decoded s.own
  overflow : 5 ≤ s.main.rank → s.overflow = s.own.any Pass.overflow
  polled : s.main.rank = 7 → s.startPending = true ∨ s.decExec = s.exec

theorem Fresh.afterInit (bitmap : CovMap n) : Fresh (.afterInit bitmap) :=
  ⟨nofun, nofun, nofun, nofun, nofun⟩

/-- A step that neither begins an execution nor clears or writes the map and the
flag, nor is part of the start signal, goes on in `start_trace()`, ends the
execution, or stays. -/
theorem rank_effect (hen : enabled b s l = true) (hr : Returns0 s l = true)
    (hk : l.abandons s = false) :
    (∃ kind stops, l = .begin kind stops) ∨ l = .clear ∨ l = .reset true ∨ l = .signalStart ∨
      (effect s l).main.rank = s.main.rank ∨ (effect s l).main.rank = 0 ∨
      ((effect s l).main.rank = s.main.rank + 1 ∧ s.main.rank ∈ [1, 3, 5]) := by
  cases l with
  | begin kind stops => exact .inl ⟨kind, stops, rfl⟩
  | clear => simp
  | signalStart => simp
  | reset ok => cases ok <;> simp_all [Returns0]
  | affinity ok | enable ok =>
    cases ok with
    | true => simp [effect, beq_iff_eq.mp hen, MainPc.rank]
    | false => cases hr
  | arm | suspendCb | exitCb | signalStop => simp [effect, beq_iff_eq.mp hen, MainPc.rank]
  | resume r =>
    -- the main thread is past the start signal, and stays past it
    have hlaunched : (effect s (.resume r)).main.rank = 7 := by
      cases r <;> cases hkind : s.kind <;>
        simp_all [effect, Sys.resume, Kind.afterFailedResume, MainPc.rank, Label.abandons]
    have hwas : s.main.rank = 7 := by
      rw [beq_iff_eq.mp hen]
      rfl
    simp [hlaunched, hwas]
  | read st =>
    have hlaunched : (effect s (.read st)).main.rank = 7 := by
      cases h : st.isSigstop <;> simp [effect, Sys.read, MainPc.rank, h]
    have hwas : s.main.rank = 7 := by
      rw [beq_iff_eq.mp (Bool.and_eq_true_iff.mp hen).1]
      rfl
    simp [hlaunched, hwas]
  | disable ok =>
    cases ok with
    | true => simp [effect, Sys.disable, beq_iff_eq.mp hen, MainPc.rank]
    | false => cases hr
  | join => simp [effect, MainPc.rank]
  | _ => simp [effect, Sys.decode, Sys.relay]

/-- A decode pass is one of the current execution. -/
theorem Fresh.decode (h : Fresh s) (hh : Handshake s) (hd : s.dec ≠ .idle) (p : Pass n)
    (next : DecPc) : Fresh (s.decode p next) := by
  have hrank : s.main.rank = 7 := MainPc.rank_of_launched (hh.launched hd)
  -- the polling is of the current execution, so the pass counts as its own
  have hown : (s.decode p next).own = s.own ++ [p] := by
    unfold Sys.own Sys.decode
    simp [hh.decExec hd]
  refine ⟨?_, ?_, ?_, ?_, h.polled⟩
  · intro q hq
    rcases List.mem_append.mp hq with hq | hq
    · exact h.tags q hq
    · rw [List.mem_singleton.mp hq]
      exact (hh.decExec hd).le
  · intro _ h6
    exact absurd (hrank.symm.trans_le h6) (by decide)
  · intro h3
    rw [hown]
    unfold decoded
    rw [List.foldl_append]
    exact congrArg p.apply (h.bitmap h3)
  · intro h5
    rw [hown, List.any_append, ← h.overflow h5]
    simp [Sys.decode]

theorem Fresh.begin (h : Fresh s) (kind : Kind) (stops : Bool) :
    Fresh (s.begin kind stops) := by
  have hrank : (s.begin kind stops).main.rank = 1 := rfl
  refine ⟨?_, ?_, by omega, by omega, by omega⟩
  · intro p hp
    exact (h.tags p hp).trans (Nat.le_succ _)
  · -- no pass is of an execution that begins only now
    intro _ _
    unfold Sys.own Sys.begin
    rw [List.filter_eq_nil_iff.mpr, List.map_nil]
    intro p hp
    have htag := h.tags p hp
    simp
    omega

/-- A step that leaves the passes, the map and the flag alone. -/
theorem Fresh.keep {t : Sys n} (h : Fresh s)
    (hrank : t.main.rank = s.main.rank ∨ t.main.rank = 0 ∨
      (t.main.rank = s.main.rank + 1 ∧ s.main.rank ∈ [1, 3, 5]))
    (hexec : t.exec = s.exec) (hpasses : t.passes = s.passes) (hbitmap : t.bitmap = s.bitmap)
    (hoverflow : t.overflow = s.overflow)
    (hpolled : s.startPending = true ∨ s.decExec = s.exec →
      t.startPending = true ∨ t.decExec = t.exec) : Fresh t := by
  have hown : t.own = s.own := by
    unfold Sys.own
    rw [hpasses, hexec]
  -- the ranks at which something new is promised are left to the steps that do it
  have hcase : s.main.rank = 1 ∨ s.main.rank = 3 ∨ s.main.rank = 5 ∨
      t.main.rank = s.main.rank ∨ t.main.rank = 0 := by
    rcases hrank with hr | hr | ⟨-, hr⟩
    · exact .inr (.inr (.inr (.inl hr)))
    · exact .inr (.inr (.inr (.inr hr)))
    · simp only [List.mem_cons, List.not_mem_nil, or_false] at hr
      omega
  refine ⟨?_, ?_, ?_, ?_, ?_⟩
  · rw [hpasses, hexec]
    exact h.tags
  · intro h1 h6
    rw [hown]
    exact h.unstarted (by omega) (by omega)
  · intro h3
    rw [hbitmap, hown]
    exact h.bitmap (by omega)
  · intro h5
    rw [hoverflow, hown]
    exact h.overflow (by omega)
  · intro h7
    exact hpolled (h.polled (by omega))

theorem Fresh.step (h : Fresh s) (hh : Handshake s) (hen : enabled b s l = true)
    (hr : Returns0 s l = true) (hk : l.abandons s = false) : Fresh (effect s l) := by
  have hrank := rank_effect hen hr hk
  cases l with
  | begin kind stops => exact h.begin kind stops
  | clear =>
    -- before the start signal no pass is of this execution, so the map may be emptied
    have hmain := beq_iff_eq.mp hen
    have hown := h.unstarted (by rw [hmain]; decide) (by rw [hmain]; decide)
    refine ⟨h.tags, fun _ _ => hown, fun _ => ?_, fun h5 => ?_, nofun⟩
    · change _ = decoded s.own
      rw [hown]
      rfl
    · exact absurd h5 (show ¬ 5 ≤ 3 by decide)
  | reset ok =>
    cases ok with
    | false => cases hr
    | true =>
      have hmain := beq_iff_eq.mp hen
      have hown := h.unstarted (by rw [hmain]; decide) (by rw [hmain]; decide)
      refine ⟨h.tags, fun _ _ => hown, fun _ => ?_, fun _ => ?_, nofun⟩
      · exact h.bitmap (by rw [hmain]; decide)
      · change false = s.own.any _
        rw [hown]
        rfl
  | signalStart =>
    have hmain := beq_iff_eq.mp hen
    refine ⟨h.tags, fun _ h6 => ?_, fun _ => ?_, fun _ => ?_, fun _ => .inl rfl⟩
    · exact absurd h6 (show ¬ 7 ≤ 6 by decide)
    · exact h.bitmap (by rw [hmain]; decide)
    · exact h.overflow (by rw [hmain]; decide)
  | scribble map =>
    -- only between executions, when the map is not looked at
    have hzero : s.main.rank = 0 := by
      rw [beq_iff_eq.mp hen]
      rfl
    exact ⟨h.tags, h.unstarted, fun h3 => absurd (hzero ▸ h3) (by decide), h.overflow, h.polled⟩
  | waitStart =>
    -- the thread takes up the execution that the signal was for
    obtain ⟨-, hstart⟩ := Bool.and_eq_true_iff.mp hen
    exact h.keep (.inl rfl) rfl rfl rfl rfl fun _ => .inr (hh.startExec hstart)
  | drainDecode p ok =>
    exact h.decode hh (by rw [beq_iff_eq.mp hen]; nofun) p _
  | finalDecode p ok =>
    exact h.decode hh (by rw [beq_iff_eq.mp hen]; nofun) p _
  | _ => exact h.keep (by simpa using hrank) rfl rfl rfl rfl id

/-! ### The handshake's result -/

/-- The handshake and the freshness hold until an execution is left behind. -/
theorem Fresh.of_reachable (hs : ((traceSystem b n).restrict Returns0).machine.Reachable s) :
    LeftBehind s ∨ Handshake s ∧ Fresh s := by
  have hinv := Guarded.invariant_restrict
    (I := fun s => (s.main ≠ .idle → 0 < s.exec) ∧ (LeftBehind s ∨ Handshake s ∧ Fresh s)) hs
    (by
      rintro _ ⟨bitmap, rfl⟩
      exact ⟨fun h => absurd rfl h, .inr ⟨.afterInit bitmap, .afterInit bitmap⟩⟩)
    fun s l h hen hr => by
      obtain ⟨hbegun, hleft | ⟨hh, hf⟩⟩ := h
      · exact ⟨begun_step hbegun hen, .inl (hleft.step hen hr)⟩
      · refine ⟨begun_step hbegun hen, ?_⟩
        cases hk : l.abandons s with
        | true => exact .inl (.of_abandons hbegun hen hr hk)
        | false => exact .inr ⟨hh.step hen hk, hf.step hh hen hr hk⟩
  exact hinv.2

/-- A pass that finds one edge, in a trace that overflowed. -/
def oneEdge : Pass 1 := ⟨fun m i => m i ||| 1#8, true⟩

/-- A short execution up to the end of its polling: the child exits before the
decoder thread has seen it run. -/
def shortExec : List (Label 1) :=
  [.begin .first true, .affinity true, .clear, .arm, .reset true, .enable true, .signalStart,
    .resume .ok, .childDie (.exited 0), .relay, .read (.exited 0), .exitCb, .disable true,
    .signalStop, .waitStart, .entry, .poll .esrch, .waitStop, .finalFetch,
    .finalDecode oneEdge true, .exit]

end Threads
end CsTrace
