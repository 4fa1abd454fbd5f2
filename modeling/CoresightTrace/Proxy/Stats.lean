import CoresightTrace.Proxy.Protocol

/-!
# The refresh of the statistics file

`main()` counts every attempt, confirm and sample in `total_exec_count`, and at
the end of a test case rewrites the file of `AFLCS_STATS_FILE` if the count is a
multiple of `STATS_PERIOD`. A test case makes one execution or several, and the
count is looked at once, so a multiple can be passed without being seen.

`statsSystem` is the proxy's system with one ghost, the count at the end of the
last test case. A step that counts an execution `overshoots` when the test case
has already brought the count to a multiple. In the runs without such a step the
file is rewritten at the end of every test case that reaches a multiple, and
between test cases it is less than a period behind (`stats_refreshed`).
`period_missed` is a run with one: the second execution of the 256th test case is
the 257th of the run.
-/

namespace CsTrace
namespace CsProxy

open Governor (InitReads CpuPolicy)

/-- The system, and the count at the end of the last test case. -/
structure Watched where
  sys : Sys
  /-- History: `total_exec_count` when the last test case ended. -/
  before : ℕ

/-- `total_exec_count`. -/
abbrev Watched.total (w : Watched) : ℕ := w.sys.proxy.totalExecCount

/-- `total_exec_count` as the file has it; a file not written yet has counted
nothing. -/
abbrev Watched.inFile (w : Watched) : ℕ := w.sys.proxy.lastStats.getD 0

/-- The proxy's system with the ghost. -/
def statsSystem (cfg : Config) : Guarded Watched Label where
  init w := (∃ policy, w.sys = .initial cfg policy) ∧ w.before = 0
  enabled w l := enabled w.sys l
  effect w l :=
    { sys := effect cfg w.sys l
      before := match l with
        | .endTestcase => w.total
        | _ => w.before }

/-- The end of a child run of the task is counted. -/
def Task.counted : Task → Bool
  | .calibrate _ _ _ => false
  | _ => true

/-- The step counts an execution after the test case has brought the count to a
multiple of the period. -/
def Watched.overshoots (w : Watched) : Label → Bool
  | .finish t _ => t.counted && decide (w.before < w.total) && w.total % statsPeriod == 0
  | _ => false

/-- The runs in which the execution that completes a period is the last one of its
test case. -/
def evenSystem (cfg : Config) : Guarded Watched Label :=
  (statsSystem cfg).restrict fun w l => !w.overshoots l

/-! ### What a step counts -/

/-- The count and the file. -/
def Proxy.stats (p : Proxy) : ℕ × Option ℕ := (p.totalExecCount, p.lastStats)

/-- From `p` the proxy goes on within the test case, with nothing counted. -/
def Proxy.GoesOn (p q : Proxy) : Prop := q.stats = p.stats ∧ q.pc ≠ .request

section Ramps

variable (cfg : Config)

theorem launch_goesOn (p : Proxy) : p.GoesOn p.launch := by
  refine ⟨rfl, ?_⟩
  unfold Proxy.launch
  dsimp only
  split <;> simp

/-- A rung counts nothing. -/
theorem rungOr_goesOn (p : Proxy) (mode : Governor.FreqMode) (again : Bool) (i : ℕ) {ended : Proxy}
    (hended : p.GoesOn ended) : p.GoesOn (p.rungOr mode again i ended) := by
  unfold Proxy.rungOr
  split
  · refine ⟨rfl, ?_⟩
    dsimp only
    split <;> simp
  · exact hended

theorem bbEnable_goesOn (p : Proxy) : p.GoesOn (p.bbEnable cfg) := by
  unfold Proxy.bbEnable Proxy.ramp
  split
  · split
    · split
      · exact launch_goesOn _
      · exact rungOr_goesOn _ _ _ _ (launch_goesOn _)
    · exact launch_goesOn _
  · exact launch_goesOn p

theorem endFirstRamp_goesOn (runs : ℕ) (p : Proxy) : p.GoesOn (p.endFirstRamp cfg runs) := by
  unfold Proxy.endFirstRamp
  exact bbEnable_goesOn cfg _

theorem handed_goesOn (p : Proxy) (r : InitReads) (pid : Raw) :
    p.GoesOn (p.handed cfg r pid) := by
  unfold Proxy.handed Proxy.ramp
  dsimp only
  split
  · split
    · exact endFirstRamp_goesOn cfg 0 _
    · exact rungOr_goesOn _ _ _ _ (endFirstRamp_goesOn cfg 0 _)
  · exact bbEnable_goesOn cfg _

theorem endRung_goesOn (p : Proxy) (mode : Governor.FreqMode) (i : ℕ) (again overflowed : Bool) :
    p.GoesOn (p.endRung cfg mode i again overflowed) := by
  have hend : ∀ q : Proxy, q.GoesOn (q.endRamp cfg again (i + 1)) := by
    intro q
    unfold Proxy.endRamp
    split
    · exact launch_goesOn q
    · exact endFirstRamp_goesOn cfg _ q
  unfold Proxy.endRung
  dsimp only
  split
  · exact hend _
  · exact rungOr_goesOn _ _ _ _ (hend _)

/-- The end of a child run counts it, unless it was a rung. -/
theorem finish_stats (p : Proxy) (t : Task) (o : Bool) :
    (p.finish cfg t o).stats =
        (p.totalExecCount + (if t.counted then 1 else 0), p.lastStats) ∧
      (p.finish cfg t o).pc ≠ .request := by
  cases t with
  | calibrate mode i again => exact endRung_goesOn cfg p mode i again _
  | attempt first =>
    unfold Proxy.finish
    dsimp only
    generalize (Governor.endAttempt _ _ _ _ _).2 = next
    cases next with
    | retry | forceMin => exact ⟨rfl, by simp [Proxy.afterAttempt]⟩
    | done =>
      refine ⟨rfl, ?_⟩
      rcases afterAttempt_done cfg _ with hpc | hpc <;> rw [hpc] <;> simp
  | confirm | sample => exact ⟨rfl, by simp [Proxy.finish]⟩

theorem verdict_goesOn (p : Proxy) (confirm : Bool) : p.GoesOn (p.verdict cfg confirm) := by
  unfold Proxy.verdict
  split
  · exact ⟨rfl, by simp⟩
  · split
    · refine ⟨rfl, ?_⟩
      dsimp only
      split <;> simp
    · exact ⟨rfl, by simp⟩

end Ramps

/-- The count and the file after the label's step. -/
def Sys.statsAfter (cfg : Config) (s : Sys) : Label → ℕ × Option ℕ
  | .finish t _ => (s.proxy.totalExecCount + (if t.counted then 1 else 0), s.proxy.lastStats)
  | .endTestcase =>
    (s.proxy.totalExecCount,
      if cfg.statsFile ∧ s.proxy.totalExecCount % statsPeriod = 0 then some s.proxy.totalExecCount
      else s.proxy.lastStats)
  | _ => s.proxy.stats

/-- **What a step counts and writes.** The end of a child run that is no rung adds
to the count, and the end of a test case writes the file when the count is a
multiple of the period. -/
theorem effect_stats (cfg : Config) (s : Sys) (l : Label) :
    (effect cfg s l).proxy.stats = s.statsAfter cfg l := by
  cases l with
  | handed r w => exact (handed_goesOn cfg s.proxy r w.val).1
  | finish t o => exact (finish_stats cfg s.proxy t o).1
  | verdict confirm => exact (verdict_goesOn cfg s.proxy confirm).1
  | _ => rfl

/-- The end of a test case is the only way back to the read of a request. -/
theorem effect_request (cfg : Config) (s : Sys) {l : Label} (hl : l ≠ .endTestcase)
    (hpc : (effect cfg s l).proxy.pc = .request) : s.proxy.pc = .request := by
  cases l with
  | endTestcase => exact absurd rfl hl
  | handed r w => exact absurd hpc (handed_goesOn cfg s.proxy r w.val).2
  | finish t o => exact absurd hpc (finish_stats cfg s.proxy t o).2
  | verdict confirm => exact absurd hpc (verdict_goesOn cfg s.proxy confirm).2
  | start t =>
    -- a start goes to the report or to the resume, never back
    simp only [effect, Proxy.start] at hpc
    split at hpc <;> exact absurd hpc (by simp)
  | readStatus t w =>
    simp only [effect] at hpc
    split at hpc <;> exact absurd hpc (by simp)
  | ask w => exact hpc
  | fsFork pid => exact hpc
  | fsWritePid => exact hpc
  | relay status => exact hpc
  | _ => exact absurd hpc (by simp [effect, Sys.kill, Proxy.goto])

/-! ### The refresh -/

/-- What carries the refresh through a run: the count has not passed the multiple
after `before`, and the file has the one up to `before`. -/
structure Refreshed (w : Watched) : Prop where
  le : w.before ≤ w.total
  bound : w.total ≤ (w.before / statsPeriod + 1) * statsPeriod
  file : w.inFile = w.before / statsPeriod * statsPeriod
  idle : w.sys.proxy.pc = .request → w.total = w.before

/-- A test case that reached a multiple has stopped on it. -/
theorem Refreshed.total_mod {w : Watched} (h : Refreshed w)
    (hreached : w.before / statsPeriod < w.total / statsPeriod) : w.total % statsPeriod = 0 := by
  have hbound := h.bound
  unfold statsPeriod at *
  omega

/-- A step within a test case that leaves the file alone and does not take the
count past the next multiple. -/
theorem Refreshed.within {cfg : Config} {w : Watched} (h : Refreshed w) {l : Label}
    (hl : l ≠ .endTestcase) {total : ℕ}
    (hs : (effect cfg w.sys l).proxy.stats = (total, w.sys.proxy.lastStats)) (hle : w.total ≤ total)
    (hbound : total ≤ (w.before / statsPeriod + 1) * statsPeriod)
    (hidle : w.sys.proxy.pc = .request → total = w.total) :
    Refreshed ⟨effect cfg w.sys l, w.before⟩ := by
  have htotal : (effect cfg w.sys l).proxy.totalExecCount = total := congrArg Prod.fst hs
  have hfile : (effect cfg w.sys l).proxy.lastStats = w.sys.proxy.lastStats := congrArg Prod.snd hs
  refine ⟨?_, ?_, ?_, fun hpc => ?_⟩
  · show w.before ≤ (effect cfg w.sys l).proxy.totalExecCount
    rw [htotal]
    exact h.le.trans hle
  · show (effect cfg w.sys l).proxy.totalExecCount ≤ _
    rw [htotal]
    exact hbound
  · show (effect cfg w.sys l).proxy.lastStats.getD 0 = _
    rw [hfile]
    exact h.file
  · have hreq := effect_request cfg w.sys hl hpc
    exact htotal.trans ((hidle hreq).trans (h.idle hreq))

/-- The end of a child run that is counted and does not overshoot. -/
theorem Refreshed.counted {cfg : Config} {w : Watched} (h : Refreshed w) {t : Task} {o : Bool}
    (hpc : w.sys.proxy.pc = .finish t) (ht : t.counted = true)
    (hl : w.overshoots (.finish t o) = false) :
    Refreshed ⟨effect cfg w.sys (.finish t o), w.before⟩ := by
  have hs := effect_stats cfg w.sys (.finish t o)
  simp only [Sys.statsAfter, ht, if_true] at hs
  refine h.within (by simp) hs (Nat.le_succ _) ?_ fun hreq => ?_
  · -- the multiple has not been reached yet, so it is not passed now
    have hshort : ¬ (w.before < w.total ∧ w.total % statsPeriod = 0) := by
      intro hc
      simp [Watched.overshoots, ht, hc.1, hc.2] at hl
    have hle := h.le
    have hbound := h.bound
    show w.total + 1 ≤ (w.before / statsPeriod + 1) * statsPeriod
    unfold statsPeriod at *
    omega
  · rw [hpc] at hreq
    exact absurd hreq (by simp)

/-- The end of a test case. -/
theorem Refreshed.ended {cfg : Config} (hstats : cfg.statsFile = true) {w : Watched}
    (h : Refreshed w) : Refreshed ⟨effect cfg w.sys .endTestcase, w.total⟩ := by
  refine ⟨Nat.le_refl _, ?_, ?_, fun _ => rfl⟩
  · show w.total ≤ (w.total / statsPeriod + 1) * statsPeriod
    unfold statsPeriod
    omega
  · show (if cfg.statsFile ∧ w.total % statsPeriod = 0 then some w.total
      else w.sys.proxy.lastStats).getD 0 = w.total / statsPeriod * statsPeriod
    by_cases hmod : w.total % statsPeriod = 0
    · -- the file is written now
      rw [if_pos ⟨hstats, hmod⟩, Option.getD_some]
      exact (Nat.div_mul_cancel (Nat.dvd_of_mod_eq_zero hmod)).symm
    · -- no multiple was reached, and the file is up to date as it is
      have hperiod : w.before / statsPeriod = w.total / statsPeriod := by
        have hle := h.le
        have hbound := h.bound
        unfold statsPeriod at *
        omega
      rw [if_neg fun hc => hmod hc.2, ← hperiod]
      exact h.file

/-- One step that does not overshoot. -/
theorem Refreshed.step {cfg : Config} (hstats : cfg.statsFile = true) {w : Watched}
    (h : Refreshed w) {l : Label} (hen : enabled w.sys l = true) (hl : w.overshoots l = false) :
    Refreshed ((statsSystem cfg).effect w l) := by
  have hs := effect_stats cfg w.sys l
  cases l with
  | finish t o =>
    cases ht : t.counted with
    | true => exact h.counted (by simpa [enabled] using hen) ht hl
    | false =>
      simp only [Sys.statsAfter, ht] at hs
      exact h.within (by simp) hs (Nat.le_refl _) h.bound fun _ => rfl
  | endTestcase => exact h.ended hstats
  | _ => exact h.within (by simp) hs (Nat.le_refl _) h.bound fun _ => rfl

theorem Refreshed.of_reachable {cfg : Config} (hstats : cfg.statsFile = true) {w : Watched}
    (hw : (evenSystem cfg).machine.Reachable w) : Refreshed w := by
  refine Guarded.invariant_restrict hw ?_ fun w l h hen hl => h.step hstats hen (by simpa using hl)
  rintro ⟨s, before⟩ ⟨⟨policy, hs⟩, hbefore⟩
  dsimp only at hs hbefore
  subst hs hbefore
  refine ⟨Nat.le_refl 0, Nat.zero_le _, ?_, fun _ => rfl⟩
  show 0 = 0 / statsPeriod * statsPeriod
  rw [Nat.zero_div, Nat.zero_mul]

/-- **The statistics file is refreshed every period.** With the file set, in every
run in which the execution that brings `total_exec_count` to a multiple of the
period is the last one of its test case: at the end of every test case that reached
or passed a multiple the file is written, and between test cases it is less than a
period behind the count. -/
theorem stats_refreshed (cfg : Config) (hstats : cfg.statsFile = true) {w : Watched}
    (hw : (evenSystem cfg).machine.Reachable w) :
    (w.sys.proxy.pc = .endTestcase → w.before / statsPeriod < w.total / statsPeriod →
        (effect cfg w.sys .endTestcase).proxy.lastStats = some w.total) ∧
      (w.sys.proxy.pc = .request → w.total - w.inFile < statsPeriod) := by
  have h := Refreshed.of_reachable hstats hw
  refine ⟨fun _ hreached => ?_, fun hpc => ?_⟩
  · exact if_pos ⟨hstats, h.total_mod hreached⟩
  · rw [h.idle hpc, h.file]
    unfold statsPeriod
    omega

/-! ### A period that is missed

A hybrid proxy without calibration. 255 test cases are discarded after one
execution each, and the 256th is confirmed by a second one. -/

/-- A hybrid proxy that writes statistics. -/
def hybridConfig : Config := ⟨.hybrid, true, false, 0, true⟩

/-- The labels of a test case up to its verdict, the child being the `c`-th. -/
def toVerdict (c : ℕ) : List Label :=
  [.ask 0, .readRequest 0, .forward, .fsFork 10, .fsWritePid,
    .handed ⟨false, 1200, 600, [], "schedutil", 600, 1200, 0⟩ ⟨10, true, c⟩,
    .start (.attempt true), .report, .cont (.attempt true), .relay 0,
    .readStatus (.attempt true) ⟨0, false, c⟩, .finish (.attempt true) false]

/-- The rest of a test case whose path is discarded, up to its end. -/
def discarded : List Label := [.verdict false]

/-- The rest of a test case whose path is confirmed, up to its end, the second child
being the `c`-th. -/
def confirmed (c : ℕ) : List Label :=
  [.verdict true, .fork .confirm, .fsFork 11, .fsWritePid, .forked .confirm ⟨11, true, c⟩,
    .start .confirm, .cont .confirm, .relay 0, .readStatus .confirm ⟨0, false, c⟩,
    .finish .confirm false]

/-- The system at a point of a test case, or between two, with `k` children and
every pipe empty. -/
structure At (pc : Pc) (k total before : ℕ) (file : Option ℕ) (w : Watched) : Prop where
  pc : w.sys.proxy.pc = pc
  noRamp : w.sys.proxy.needsCalibration = false
  total : w.sys.proxy.totalExecCount = total
  before : w.before = before
  file : w.sys.proxy.lastStats = file
  requests : w.sys.requests = []
  ctl : w.sys.ctl = []
  st : w.sys.st = []
  fs : w.sys.fs = .token
  forks : w.sys.forks = k

/-- One execution brings a test case to its verdict. -/
theorem At.toVerdict {k : ℕ} {file : Option ℕ} {w : Watched} (h : At .request k k k file w) :
    (evenSystem hybridConfig).applicable w (CsProxy.toVerdict (k + 1)) = true ∧
      At .verdict (k + 1) (k + 1) k file
        ((evenSystem hybridConfig).run w (CsProxy.toVerdict (k + 1))) := by
  obtain ⟨⟨proxy, requests, outer, ctl, st, fs, resumed, forks, pidOf, terminal, held, lastResumed,
    received, current, finished⟩, before⟩ := w
  obtain ⟨hpc, hramp, htotal, hbefore, hfile, hreq, hctl, hst, hfs, hforks⟩ := h
  dsimp only at *
  subst hbefore hreq hctl hst hfs hforks
  have hdone := Governor.endAttempt_clean
  constructor
  · simp [CsProxy.toVerdict, Guarded.applicable, evenSystem, Guarded.restrict, statsSystem, enabled,
      effect, Watched.overshoots, hpc, hramp, Proxy.goto, Proxy.handed, Proxy.initOnce,
      Proxy.bbEnable, Proxy.launch, Proxy.start, Sys.kill, Sys.relay, sigstopped, htotal,
      hybridConfig]
  · -- the pipes are as before; what the proxy holds depends on how the attempt ended
    refine ⟨?_, ?_, ?_, rfl, ?_, rfl, rfl, rfl, rfl, rfl⟩ <;>
      simp [CsProxy.toVerdict, Guarded.run, evenSystem, Guarded.restrict, statsSystem, effect,
        hramp, Proxy.goto, Proxy.handed, Proxy.initOnce, Proxy.bbEnable, Proxy.launch, Proxy.start,
        Sys.kill, Sys.relay, sigstopped, wifsignaled, Proxy.finish, Proxy.count,
        Proxy.afterAttempt, hdone, hybridConfig, htotal, hfile]

/-- A discarded path ends the test case. -/
theorem At.discarded {k total before : ℕ} {file : Option ℕ} {w : Watched}
    (h : At .verdict k total before file w) :
    (evenSystem hybridConfig).applicable w CsProxy.discarded = true ∧
      At .endTestcase k total before file ((evenSystem hybridConfig).run w CsProxy.discarded) := by
  constructor
  · simp [CsProxy.discarded, Guarded.applicable, evenSystem, Guarded.restrict, statsSystem, enabled,
      Watched.overshoots, h.pc]
  · exact ⟨rfl, h.noRamp, h.total, h.before, h.file, h.requests, h.ctl, h.st, h.fs, h.forks⟩

/-- The end of a test case short of a multiple. -/
theorem At.ended {k total before : ℕ} {file : Option ℕ} {w : Watched}
    (h : At .endTestcase k total before file w) (hmod : total % statsPeriod ≠ 0) :
    (evenSystem hybridConfig).applicable w [.endTestcase] = true ∧
      At .request k total total file ((evenSystem hybridConfig).run w [.endTestcase]) := by
  constructor
  · simp [Guarded.applicable, evenSystem, Guarded.restrict, statsSystem, enabled,
      Watched.overshoots, h.pc]
  · refine ⟨rfl, h.noRamp, h.total, h.total, ?_, h.requests, h.ctl, h.st, h.fs, h.forks⟩
    refine (if_neg fun hc => hmod ?_).trans h.file
    rw [← h.total]
    exact hc.2

/-- A confirmed path ends the test case one execution later. -/
theorem At.confirmed {k total before : ℕ} {file : Option ℕ} {w : Watched}
    (h : At .verdict k total before file w) :
    (statsSystem hybridConfig).applicable w (CsProxy.confirmed (k + 1)) = true ∧
      At .endTestcase (k + 1) (total + 1) before file
        ((statsSystem hybridConfig).run w (CsProxy.confirmed (k + 1))) := by
  obtain ⟨⟨proxy, requests, outer, ctl, st, fs, resumed, forks, pidOf, terminal, held, lastResumed,
    received, current, finished⟩, before'⟩ := w
  obtain ⟨hpc, hramp, htotal, hbefore, hfile, hreq, hctl, hst, hfs, hforks⟩ := h
  dsimp only at *
  subst hbefore hreq hctl hst hfs hforks
  constructor
  · simp [CsProxy.confirmed, Guarded.applicable, statsSystem, enabled, effect, hpc, Proxy.verdict,
      Proxy.goto, Proxy.start, Sys.kill, Sys.relay, sigstopped]
  · exact ⟨rfl, hramp, congrArg (· + 1) htotal, rfl, hfile, rfl, rfl, rfl, rfl, rfl⟩

/-- Up to 255 test cases of one execution each. -/
theorem exists_between (k : ℕ) (hk : k < statsPeriod) :
    ∃ w, (evenSystem hybridConfig).machine.Reachable w ∧ At .request k k k none w := by
  induction k with
  | zero =>
    refine ⟨⟨.initial hybridConfig ⟨600, 1200, 0, "schedutil"⟩, 0⟩, ?_, ?_⟩
    · exact .of_init ⟨⟨_, rfl⟩, rfl⟩
    · exact ⟨rfl, rfl, rfl, rfl, rfl, rfl, rfl, rfl, rfl, rfl⟩
  | succ k ih =>
    obtain ⟨w, hw, hat⟩ := ih (by omega)
    obtain ⟨hrun, hverdict⟩ := hat.toVerdict
    obtain ⟨hrun', hend⟩ := hverdict.discarded
    obtain ⟨hrun'', hnext⟩ := hend.ended (by unfold statsPeriod at *; omega)
    have hreach := Guarded.reachable_of_applicable hw hrun
    exact ⟨_, Guarded.reachable_of_applicable (Guarded.reachable_of_applicable hreach hrun') hrun'',
      hnext⟩

/-- The 256th test case makes one execution, and the file is written at its end. -/
theorem stats_refreshed_period :
    ∃ w, (evenSystem hybridConfig).machine.Reachable w ∧ w.sys.proxy.pc = .endTestcase ∧
      (effect hybridConfig w.sys .endTestcase).proxy.lastStats = some 256 := by
  obtain ⟨w, hw, hend⟩ : ∃ w, (evenSystem hybridConfig).machine.Reachable w ∧
      At .endTestcase 256 256 255 none w := by
    obtain ⟨w, hw, hat⟩ := exists_between 255 (by decide)
    obtain ⟨hrun, hverdict⟩ := hat.toVerdict
    obtain ⟨hrun', hend⟩ := hverdict.discarded
    have hreach := Guarded.reachable_of_applicable hw hrun
    exact ⟨_, Guarded.reachable_of_applicable hreach hrun', hend⟩
  refine ⟨w, hw, hend.pc, ?_⟩
  rw [(stats_refreshed hybridConfig rfl hw).1 hend.pc ?_]
  · exact congrArg some hend.total
  · rw [Watched.total, hend.total, hend.before]
    decide

/-- **A period is missed.** The 256th test case makes two executions: the count goes
from 255 to 257, the file is not written, and between test cases it is more than a
period behind. -/
theorem period_missed :
    ∃ w, (statsSystem hybridConfig).machine.Reachable w ∧ w.sys.proxy.pc = .endTestcase ∧
      w.before / statsPeriod < w.total / statsPeriod ∧
      (effect hybridConfig w.sys .endTestcase).proxy.lastStats ≠ some w.total ∧
      let v := (statsSystem hybridConfig).effect w .endTestcase
      v.sys.proxy.pc = .request ∧ ¬ v.total - v.inFile < statsPeriod := by
  -- 255 test cases of one execution, and one of two
  obtain ⟨w, hw, hend⟩ : ∃ w, (statsSystem hybridConfig).machine.Reachable w ∧
      At .endTestcase 257 257 255 none w := by
    obtain ⟨w, hw, hat⟩ := exists_between 255 (by decide)
    obtain ⟨hrun, hverdict⟩ := hat.toVerdict
    have hreach := Guarded.reachable_of_restrict (Guarded.reachable_of_applicable hw hrun)
    obtain ⟨hrun', hend⟩ := hverdict.confirmed
    exact ⟨_, Guarded.reachable_of_applicable hreach hrun', hend⟩
  have hunwritten : (effect hybridConfig w.sys .endTestcase).proxy.lastStats = none := by
    refine (if_neg fun hc => ?_).trans hend.file
    have hmod := hc.2
    rw [hend.total] at hmod
    exact absurd hmod (by decide)
  refine ⟨w, hw, hend.pc, ?_, ?_, rfl, ?_⟩
  · rw [Watched.total, hend.total, hend.before]
    decide
  · rw [hunwritten]
    simp
  · show ¬ w.sys.proxy.totalExecCount -
      (effect hybridConfig w.sys .endTestcase).proxy.lastStats.getD 0 < statsPeriod
    rw [hunwritten, hend.total]
    decide

end CsProxy
end CsTrace
