import CoresightTrace.Etm.State

/-!
# Every execution runs with the ETMs programmed for it

`Programmed` is what an execution needs: the branch-broadcast bit of every ETM, the
decoder's mode and `current_bb_mode` are what was asked for last, and under the PID
filter the comparator of every ETM holds the pid of the execution and was never
written but in programming mode.

The first half holds in every run (`Tuned`). The second fails in two kinds of runs.

* A calibration run that is given up leaves the ETMs enabled. `start_trace()` that
  follows it on the sinks-only path writes the comparators of enabled ETMs, where the
  comment in `enable_trace_sinks_only()` says that they are in programming mode
  (`left_run_writes_enabled`).
* The forkserver relays the status of a child that exits early, which the proxy takes
  for a pid. For status 0 no comparator is written, and that of an earlier execution
  stays (`zero_pid_keeps_comparator`).

`Reprograms` excludes the two, and `every_execution_programmed` is that nothing else is
needed.
-/

namespace CsTrace
namespace EtmConfig

variable {n : ℕ} {c : Config} {s : Session n} {l : Label n}

/-- The ETMs and the decoder are set for the execution that was started last. -/
structure Programmed (c : Config) (s : Session n) : Prop where
  etm : ∀ i, (s.ptm i).bb = s.lastBb
  decoder : s.decoderBb = s.lastBb
  current : s.currentBbMode = s.lastBb
  comparator : c.pidFilter = true →
    ∀ i, ((s.ptm i).cidcvrL : ℤ) = s.lastPid ∧ (s.ptm i).cidcvrH = 0
  programming : c.pidFilter = true → ∀ i, (s.ptm i).wroteEnabled = false

/-- Under the PID filter an execution is started with a pid, and not on the sinks-only
path while the one before it was left running. -/
def Reprograms (c : Config) (s : Session n) : Label n → Bool
  | .start pid _ =>
    !c.pidFilter || (decide (0 < pid) && (s.isFirstTrace || s.exec != .left))
  | _ => true

/-! ### Branch broadcast -/

/-- The branch-broadcast mode is the same everywhere, except that ETMs that were never
configured do not have it yet. -/
structure Tuned (s : Session n) : Prop where
  current : s.currentBbMode = s.lastBb
  decoder : s.decoderBb = s.lastBb
  bit : s.lastBb = 0 ∨ s.lastBb = 1
  fresh : s.traceEverConfigured = false →
    s.isFirstTrace = true ∧ s.exec = .idle ∧ ∀ i, (s.ptm i).bb = 0
  etm : s.traceEverConfigured = true → ∀ i, (s.ptm i).bb = s.lastBb

theorem Tuned.initial {ptm : Fin n → Etm} (h : ∀ i, (ptm i).bb = 0) :
    Tuned (Session.initial ptm) :=
  ⟨rfl, rfl, .inl rfl, fun _ => ⟨rfl, rfl, h⟩, by rintro ⟨⟩⟩

/-- An execution that runs was configured. -/
theorem Tuned.configured (h : Tuned s) (hexec : s.exec ≠ .idle) :
    s.traceEverConfigured = true := by
  by_contra hnot
  exact hexec (h.fresh (Bool.eq_false_iff.mpr hnot)).2.1

/-- Disabling the ETMs changes no branch-broadcast bit. -/
theorem disableCsTrace_bb (c : Config) (s : Session n) (i : Fin n) :
    ((disableCsTrace c s).ptm i).bb = (s.ptm i).bb := by
  unfold disableCsTrace disableTraceSinksOnly
  dsimp only
  split <;> rfl

/-- **`enable_cs_trace()` keeps the mode**, and configures ETMs that were not. -/
theorem Tuned.enableCsTrace (h : Tuned s) (c : Config) (a : Fin n → Answer) (pid : ℤ) :
    Tuned (enableCsTrace c s a pid) ∧
      (EtmConfig.enableCsTrace c s a pid).traceEverConfigured = true := by
  obtain ⟨hdec, hcur, -, -, hbb, -, -, hever⟩ := enableCsTrace_frame c s a pid
  have hconf : (EtmConfig.enableCsTrace c s a pid).traceEverConfigured = true := by
    rw [hever, Bool.or_eq_true_iff]
    by_cases hconf : s.traceEverConfigured = true
    · exact .inr hconf
    · exact .inl (h.fresh (Bool.eq_false_iff.mpr hconf)).1
  refine ⟨⟨?_, ?_, ?_, ?_, ?_⟩, hconf⟩
  · rw [hcur, hbb]
    exact h.current
  · rw [hdec, hbb]
    exact h.decoder
  · rw [hbb]
    exact h.bit
  · intro hnot
    rw [hconf] at hnot
    cases hnot
  · -- the bit is kept, or set by the configuration that this call makes
    intro _ i
    rw [hbb, ← h.current]
    refine enableCsTrace_bb c s a pid i (by rw [h.current]; exact h.bit) ?_
    by_cases hconf : s.traceEverConfigured = true
    · left
      rw [h.current]
      exact h.etm hconf i
    · right
      obtain ⟨hfirst, -, hzero⟩ := h.fresh (Bool.eq_false_iff.mpr hconf)
      exact ⟨hfirst, hzero i⟩

theorem Tuned.step (hstalker : c.stalker = true) (h : Tuned s) (hen : enabled s l = true) :
    Tuned (effect c s l) := by
  cases l with
  | setBbMode bbMode =>
    -- the ETMs get the bit now if they were configured, and at the first start otherwise
    have hbit : bbMode = 0 ∨ bbMode = 1 := by
      have hbits := (Bool.and_eq_true_iff.mp hen).2
      simpa using hbits
    have hmode : (if bbMode ≠ 0 then (1 : ℤ) else 0) = bbMode := by
      rcases hbit with rfl | rfl <;> rfl
    refine ⟨hmode, by simp [effect, traceSetBbMode, hstalker], hbit, ?_, ?_⟩
    · intro hnot
      change s.traceEverConfigured = false at hnot
      obtain ⟨-, hexec, hzero⟩ := h.fresh hnot
      refine ⟨rfl, hexec, ?_⟩
      intro i
      simpa [effect, traceSetBbMode, hnot] using hzero i
    · intro hconf i
      change s.traceEverConfigured = true at hconf
      simp only [effect, traceSetBbMode, hconf, if_true]
      exact hmode
  | start pid a =>
    have hset : Tuned { s with childPid := pid, lastPid := pid } :=
      ⟨h.current, h.decoder, h.bit, h.fresh, h.etm⟩
    obtain ⟨ht, hconf⟩ := hset.enableCsTrace c a 0
    refine ⟨ht.current, ht.decoder, ht.bit, ?_, ht.etm⟩
    intro hnot
    exact absurd hconf (by rw [Bool.not_eq_true]; exact hnot)
  | startFails pid => exact ⟨h.current, h.decoder, h.bit, h.fresh, h.etm⟩
  | reenable a =>
    -- disabling leaves the bits alone, and what follows is the path of a start
    have hdis : Tuned (disableCsTrace c s) := by
      refine ⟨h.current, h.decoder, h.bit, ?_, ?_⟩
      · intro hnot
        obtain ⟨hfirst, hexec, hzero⟩ := h.fresh hnot
        exact ⟨hfirst, hexec, fun i => (disableCsTrace_bb c s i).trans (hzero i)⟩
      · intro hconf i
        exact (disableCsTrace_bb c s i).trans (h.etm hconf i)
    exact (hdis.enableCsTrace c a s.childPid).1
  | stop =>
    refine ⟨h.current, h.decoder, h.bit, ?_, ?_⟩
    · intro hnot
      obtain ⟨hfirst, -, hzero⟩ := h.fresh hnot
      exact ⟨hfirst, rfl, fun i => (disableCsTrace_bb c s i).trans (hzero i)⟩
    · intro hconf i
      exact (disableCsTrace_bb c s i).trans (h.etm hconf i)
  | leave =>
    -- an execution that runs has configured the ETMs
    refine ⟨h.current, h.decoder, h.bit, ?_, h.etm⟩
    intro hnot
    have hrun : s.exec = .running := beq_iff_eq.mp hen
    have hconf := h.configured (by rw [hrun]; rintro ⟨⟩)
    exact absurd hconf (by rw [Bool.not_eq_true]; exact hnot)

/-! ### The comparators -/

/-- Under the PID filter: no comparator was written but in programming mode, the ETMs
are enabled exactly while an execution is not stopped, unless they are to be
configured anew, and a running execution has its pid in the comparators. -/
structure Gated (s : Session n) : Prop where
  unwritten : ∀ i, (s.ptm i).wroteEnabled = false
  idle : s.exec = .idle → s.isFirstTrace = false → ∀ i, (s.ptm i).enabled = false
  live : s.exec ≠ .idle → s.isFirstTrace = false → ∀ i, (s.ptm i).enabled = true
  running : s.exec = .running → isPid s.childPid = true ∧ 0 < s.childPid ∧
    s.childPid = s.lastPid ∧
    ∀ i, ((s.ptm i).cidcvrL : ℤ) = s.childPid ∧ (s.ptm i).cidcvrH = 0

/-- **`enable_cs_trace()` gates the ETMs on the child**, if they are in programming
mode or configured anew. -/
theorem Gated.enableCsTrace (hstalker : c.stalker = true) (hfilter : c.pidFilter = true)
    (hwrote : ∀ i, (s.ptm i).wroteEnabled = false) (hpid : isPid s.childPid = true)
    (hpos : 0 < s.childPid) (hlast : s.childPid = s.lastPid)
    (hprog : ∀ i, s.isFirstTrace = true ∨ (s.ptm i).enabled = false) (a : Fin n → Answer)
    (pid : ℤ) : Gated { EtmConfig.enableCsTrace c s a pid with exec := .running } := by
  obtain ⟨-, -, hchild, -, -, hlast', -, -⟩ := enableCsTrace_frame c s a pid
  have hcid (i : Fin n) := enableCsTrace_cid hfilter s a pid i hpid hpos (hprog i)
  refine ⟨?_, by rintro ⟨⟩, ?_, ?_⟩
  · intro i
    exact (hcid i).2.2.trans (hwrote i)
  · intro _ _ i
    exact enableCsTrace_enabled hstalker s a pid i
  · intro _
    change isPid (EtmConfig.enableCsTrace c s a pid).childPid = true ∧
      0 < (EtmConfig.enableCsTrace c s a pid).childPid ∧
      (EtmConfig.enableCsTrace c s a pid).childPid = (EtmConfig.enableCsTrace c s a pid).lastPid ∧
      ∀ i, (((EtmConfig.enableCsTrace c s a pid).ptm i).cidcvrL : ℤ) =
        (EtmConfig.enableCsTrace c s a pid).childPid ∧ _
    rw [hchild, hlast']
    exact ⟨hpid, hpos, hlast, fun i => ⟨(hcid i).1, (hcid i).2.1⟩⟩

/-- Disabling puts every ETM in programming mode. -/
theorem disableCsTrace_etm (hstalker : c.stalker = true) (s : Session n) (i : Fin n) :
    (disableCsTrace c s).ptm i = (s.ptm i).traceDisable := by
  simp [disableCsTrace, disableTraceSinksOnly, Config.etmCycledPerWindow, hstalker]

theorem Gated.step (hstalker : c.stalker = true) (hfilter : c.pidFilter = true) (h : Gated s)
    (hen : enabled s l = true) (hc : Reprograms c s l = true) : Gated (effect c s l) := by
  cases l with
  | setBbMode bbMode =>
    -- the ETMs are enabled again, and will be configured anew
    have hexec : s.exec ≠ .running := by simpa using (Bool.and_eq_true_iff.mp hen).1
    refine ⟨?_, fun _ => by rintro ⟨⟩, fun _ => by rintro ⟨⟩, fun hrun => absurd hrun hexec⟩
    intro i
    simp only [effect, traceSetBbMode]
    split <;> exact h.unwritten i
  | start pid a =>
    obtain ⟨hexec, hpid⟩ := Bool.and_eq_true_iff.mp hen
    have hexec : s.exec ≠ .running := by simpa using hexec
    obtain ⟨hpos, hpath⟩ : 0 < pid ∧ (s.isFirstTrace = true ∨ s.exec ≠ .left) := by
      simpa [Reprograms, hfilter] using hc
    refine Gated.enableCsTrace (s := { s with childPid := pid, lastPid := pid }) hstalker hfilter
      h.unwritten hpid hpos rfl ?_ a 0
    intro i
    cases hfirst : s.isFirstTrace with
    | true => exact .inl rfl
    | false =>
      right
      have hidle : s.exec = .idle := by
        cases hs : s.exec with
        | idle => rfl
        | running => exact absurd hs hexec
        | left => exact absurd hs (hpath.resolve_left (by simp [hfirst]))
      exact h.idle hidle hfirst i
  | startFails pid =>
    have hexec : s.exec ≠ .running := by simpa using (Bool.and_eq_true_iff.mp hen).1
    exact ⟨h.unwritten, h.idle, h.live, fun hrun => absurd hrun hexec⟩
  | reenable a =>
    have hrun : s.exec = .running := beq_iff_eq.mp hen
    obtain ⟨hpid, hpos, hlast, -⟩ := h.running hrun
    have hexec : (effect c s (.reenable a)).exec = .running :=
      (enableCsTrace_frame c (disableCsTrace c s) a s.childPid).2.2.2.1.trans hrun
    have hg := Gated.enableCsTrace (s := disableCsTrace c s) hstalker hfilter
      (fun i => by rw [disableCsTrace_etm hstalker]; exact h.unwritten i) hpid hpos hlast
      (fun i => .inr (by rw [disableCsTrace_etm hstalker]; rfl)) a s.childPid
    rw [← hexec] at hg
    exact hg
  | stop =>
    refine ⟨?_, ?_, fun hne => absurd rfl hne, by rintro ⟨⟩⟩
    · intro i
      change ((disableCsTrace c s).ptm i).wroteEnabled = false
      rw [disableCsTrace_etm hstalker]
      exact h.unwritten i
    · intro _ _ i
      change ((disableCsTrace c s).ptm i).enabled = false
      rw [disableCsTrace_etm hstalker]
      rfl
  | leave =>
    have hrun : s.exec = .running := beq_iff_eq.mp hen
    refine ⟨h.unwritten, by rintro ⟨⟩, ?_, by rintro ⟨⟩⟩
    intro _
    exact h.live (by rw [hrun]; rintro ⟨⟩)

/-! ### Runs -/

/-- The branch-broadcast mode is right in every execution of every run. -/
theorem tuned_of_reachable (hstalker : c.stalker = true)
    (hs : (etmSystem c n).machine.Reachable s) : Tuned s := by
  refine Guarded.invariant hs ?_ fun s l h hen => h.step hstalker hen
  rintro _ ⟨ptm, hptm, rfl⟩
  exact .initial fun i => (hptm i).1

theorem gated_of_reachable (hstalker : c.stalker = true) (hfilter : c.pidFilter = true)
    (hs : ((etmSystem c n).restrict (Reprograms c)).machine.Reachable s) : Gated s := by
  refine Guarded.invariant_restrict hs ?_ fun s l h hen hc => h.step hstalker hfilter hen hc
  rintro _ ⟨ptm, hptm, rfl⟩
  exact ⟨fun i => (hptm i).2, fun _ => by rintro ⟨⟩, fun _ => by rintro ⟨⟩, by rintro ⟨⟩⟩

/-- A running execution is programmed in every run that meets the condition. -/
theorem programmed_of_running (hstalker : c.stalker = true)
    (hs : ((etmSystem c n).restrict (Reprograms c)).machine.Reachable s)
    (hrun : s.exec = .running) : Programmed c s := by
  have ht := tuned_of_reachable hstalker (Guarded.reachable_of_restrict hs)
  have hconf := ht.configured (by rw [hrun]; rintro ⟨⟩)
  refine ⟨ht.etm hconf, ht.decoder, ht.current, ?_, ?_⟩
  · intro hfilter
    obtain ⟨-, -, hlast, hcid⟩ := (gated_of_reachable hstalker hfilter hs).running hrun
    rw [← hlast]
    exact hcid
  · intro hfilter
    exact (gated_of_reachable hstalker hfilter hs).unwritten

/-- **Every execution runs with the ETMs programmed for it, and exactly when.** In
every run whose executions meet the condition, every execution is programmed from
where `enable_cs_trace()` returns to where it is stopped; and from there an execution
started with a pid is programmed if and only if it meets its condition. -/
theorem every_execution_programmed (c : Config) (hstalker : c.stalker = true) (s : Session n)
    (hs : ((etmSystem c n).restrict (Reprograms c)).machine.Reachable s) :
    (s.exec = .running → Programmed c s) ∧
      ∀ pid a, 0 < n → 0 < pid → enabled s (.start pid a) = true →
        (Programmed c (effect c s (.start pid a)) ↔ Reprograms c s (.start pid a) = true) := by
  refine ⟨programmed_of_running hstalker hs, ?_⟩
  intro pid a hn hpos hen
  constructor
  · intro hp
    by_contra hnot
    -- the filter is on, and the execution before was left running
    obtain ⟨hfilter, hleft⟩ : c.pidFilter = true ∧ s.isFirstTrace = false ∧ s.exec = .left := by
      simpa [Reprograms, hpos] using hnot
    obtain ⟨hfirst, hexec⟩ := hleft
    have hlive := (gated_of_reachable hstalker hfilter hs).live (by rw [hexec]; rintro ⟨⟩)
      hfirst ⟨0, hn⟩
    have hwrote := enableCsTrace_live hfilter { s with childPid := pid, lastPid := pid } a 0
      ⟨0, hn⟩ hpos hfirst hlive
    exact absurd (hp.programming hfilter ⟨0, hn⟩) (by rw [Bool.not_eq_false]; exact hwrote)
  · intro hc
    have hstep : ((etmSystem c n).restrict (Reprograms c)).machine.step s (.start pid a)
        (effect c s (.start pid a)) :=
      ⟨Bool.and_eq_true_iff.mpr ⟨hen, hc⟩, rfl⟩
    exact programmed_of_running hstalker (hs.step hstep) rfl

/-- The Stalker build with its PID filter. -/
def stalkerConfig : Config :=
  ⟨true, true⟩

/-- An ETM that was not configured yet. -/
def freshEtm : Etm :=
  ⟨false, 0, 7, 0, false⟩

/-- CSAL leaves the registers alone, and a write to an enabled ETM is lost. -/
def keeps (n : ℕ) : Fin n → Answer :=
  fun _ => ⟨false, 7, 0, false⟩

/-- Two executions on two CPUs, the second with branch broadcast and drained once. -/
theorem every_execution_programmed_drained :
    let s := (etmSystem stalkerConfig 2).run (.initial fun _ => freshEtm)
      [.start 100 (keeps 2), .stop, .setBbMode 1, .start 101 (keeps 2), .reenable (keeps 2)]
    Programmed stalkerConfig s ∧ s.lastBb = 1 ∧ s.lastPid = 101 := by
  intro s
  have hs : ((etmSystem stalkerConfig 2).restrict (Reprograms stalkerConfig)).machine.Reachable
      s :=
    Guarded.reachable_of_applicable
      (.of_init ⟨fun _ => freshEtm, fun _ => ⟨rfl, rfl⟩, rfl⟩) (by decide +kernel)
  exact ⟨(every_execution_programmed stalkerConfig rfl s hs).1 (by decide +kernel),
    by decide +kernel, by decide +kernel⟩

/-- **A run that is left makes the next one write to enabled ETMs.** The child of a
calibration run dies before it is resumed, and the run is given up. The next execution
takes the sinks-only path: its write to the comparator is made while the ETM is
enabled, and where the hardware ignores it the ETM stays gated on the dead child. -/
theorem left_run_writes_enabled :
    ∃ s : Session 1, (etmSystem stalkerConfig 1).machine.Reachable s ∧ s.exec = .running ∧
      s.lastPid = 101 ∧ (s.ptm 0).cidcvrL = 100 ∧ (s.ptm 0).wroteEnabled = true ∧
      ¬ Programmed stalkerConfig s := by
  have hrun : (etmSystem stalkerConfig 1).machine.Reachable
      ((etmSystem stalkerConfig 1).run (.initial fun _ => freshEtm)
        [.start 100 (keeps 1), .leave, .start 101 (keeps 1)]) :=
    Guarded.reachable_of_applicable
      (.of_init ⟨fun _ => freshEtm, fun _ => ⟨rfl, rfl⟩, rfl⟩) (by decide +kernel)
  refine ⟨_, hrun, by decide +kernel, by decide +kernel, by decide +kernel, by decide +kernel, ?_⟩
  intro h
  exact absurd (h.programming rfl 0) (by decide +kernel)

/-- **Status 0 is no pid.** A child exits with status 0 before it stops, and the
execution that is started for it runs with the comparator of the one before. -/
theorem zero_pid_keeps_comparator :
    ∃ s : Session 1, (etmSystem stalkerConfig 1).machine.Reachable s ∧ s.exec = .running ∧
      s.lastPid = 0 ∧ (s.ptm 0).cidcvrL = 100 ∧ ¬ Programmed stalkerConfig s := by
  have hrun : (etmSystem stalkerConfig 1).machine.Reachable
      ((etmSystem stalkerConfig 1).run (.initial fun _ => freshEtm)
        [.start 100 (keeps 1), .stop, .start 0 (keeps 1)]) :=
    Guarded.reachable_of_applicable
      (.of_init ⟨fun _ => freshEtm, fun _ => ⟨rfl, rfl⟩, rfl⟩) (by decide +kernel)
  refine ⟨_, hrun, by decide +kernel, by decide +kernel, by decide +kernel, ?_⟩
  intro h
  exact absurd (h.comparator rfl 0).1 (by decide +kernel)

end EtmConfig
end CsTrace
