import CoresightTrace.Framework.Interference
import CoresightTrace.Governor.AtRest
import CoresightTrace.Hybrid.Sampling
import CoresightTrace.Proxy.Control

/-!
# Sampling as a measurement

`AFLCS_HYBRID_SAMPLE=N` has every `N`-th discarded input run once more with branch
broadcast on. The source calls it "a measurement: it costs execs and changes nothing
AFL++ sees". A sampled run goes through everything an ordinary one does: it is
decoded into the map AFL++ reads, its result is passed to the governor and its map to
the hybrid filter. The map is saved before it and put back after it, the filter counts
it apart, and the governor takes it as a result of the addr pass.

Here the control of the proxy (`Proxy/Control.lean`) is put together with the filter
and the maps, one test case of hybrid mode after the other (`Session.testcase`). What
the target does in a run is given for each test case, and may depend on the policy the
run is made under. `sampling_unseen` compares a campaign with the same one without
sampling.

The last of the three is the one that shows: the addr position moves with the sampled
results, and the confirms run at it. The campaigns agree if the outcome of a confirm
does not depend on the frequency, or the governor is off. The example after the
theorem is a campaign in which AFL++ is shown another map because an earlier discard
was sampled.
-/

namespace CsTrace
namespace CsProxy

open Governor Hybrid

variable {n : ℕ}

/-! ### A session -/

/-- A run of the target: what its decode makes of the shared map, whether its trace
overflowed, and the status it ends with. -/
structure RunResult (n : ℕ) where
  decode : CovMap n → CovMap n
  overflowed : Bool
  status : Raw

/-- A test case: the pid of its child, what AFL++ makes of the shared map before it,
the key of its input, and its runs under each policy. -/
structure Testcase (n : ℕ) where
  pid : Raw
  prepare : CovMap n → CovMap n
  inputKey : BitVec 64
  path : CpuPolicy → RunResult n
  confirm : CpuPolicy → RunResult n
  sample : CpuPolicy → RunResult n

/-- The variables of the proxy, those of `hybrid.c`, and the two maps. -/
structure Session (n : ℕ) where
  proxy : Proxy
  hybrid : State n
  traceBitmap : CovMap n
  sampleSavedMap : CovMap n

/-- A test case as it was: the policy its path pass ran under, its verdict if there was
one, and what AFL++ reads, the status and the map. -/
structure Outcome (n : ℕ) where
  policy : CpuPolicy
  verdict : Option HybridVerdict
  status : Raw
  map : CovMap n

/-- The policy a child is run under. -/
def Session.policyOf (cfg : Config) (t : Task) (s : Session n) : CpuPolicy :=
  (s.proxy.start cfg t).gov.policy

/-- A child run: `start_and_resume()` or `retry_child()`, the reads of its statuses,
`stop_trace()`, and what is made of the outcome. -/
def Session.childRun (cfg : Config) (t : Task) (r : RunResult n) (s : Session n) : Session n :=
  { s with
    proxy := ({ s.proxy.start cfg t with waitStatus := r.status } : Proxy).finish cfg t r.overflowed
    traceBitmap := r.decode s.traceBitmap }

/-- `confirm_with_branch_broadcast()`. -/
def Session.confirmWithBranchBroadcast (A : PurgeArith) (cfg : Config)
    (run : CpuPolicy → RunResult n) (s : Session n) : Session n :=
  let r := run (s.policyOf cfg .confirm)
  let s := s.childRun cfg .confirm r
  { s with hybrid := hybridAfterConfirm (sourcePolicy A) s.traceBitmap r.overflowed s.hybrid }

/-- `sample_with_branch_broadcast()`. -/
def Session.sampleWithBranchBroadcast (cfg : Config) (run : CpuPolicy → RunResult n)
    (s : Session n) : Session n :=
  let s := { s with sampleSavedMap := s.traceBitmap }
  let r := run (s.policyOf cfg .sample)
  let s := s.childRun cfg .sample r
  { s with
    hybrid := hybridAfterSample s.traceBitmap r.overflowed s.hybrid
    -- the map `hybrid_after_path()` chose is put back
    traceBitmap := s.sampleSavedMap }

/-- The session with what `hybrid_after_path()` returned and left. -/
def Session.judged (cfg : Config) (r : PathResult n) (s : Session n) : Session n :=
  { s with
    proxy := s.proxy.verdict cfg (decide (r.verdict = .confirm))
    hybrid := r.st
    traceBitmap := r.map }

/-- The hybrid branch of `main()`, with the verdict. -/
def Session.hybridBranch (A : PurgeArith) (cfg : Config) (tc : Testcase n) (overflowed : Bool)
    (s : Session n) : Session n × HybridVerdict :=
  let r := hybridAfterPath (sourcePolicy A) s.traceBitmap overflowed tc.inputKey s.hybrid
  let s := s.judged cfg r
  (if s.proxy.pc = .fork .confirm then s.confirmWithBranchBroadcast A cfg tc.confirm
    else if s.proxy.pc = .fork .sample then s.sampleWithBranchBroadcast cfg tc.sample
    else s,
    r.verdict)

/-- AFL++ has asked for the test case, and its child is handed over. -/
def Session.handed (cfg : Config) (reads : InitReads) (tc : Testcase n) (s : Session n) :
    Session n :=
  { s with
    proxy := s.proxy.handed cfg reads tc.pid
    traceBitmap := tc.prepare s.traceBitmap }

/-- A test case of hybrid mode, up to the status that is reported. The path pass is
made once: `freq_gov_should_retry()` asks for the addr mode. -/
def Session.testcase (A : PurgeArith) (cfg : Config) (reads : InitReads) (s : Session n)
    (tc : Testcase n) : Session n × List (Outcome n) :=
  let s := s.handed cfg reads tc
  let policy := s.policyOf cfg (.attempt true)
  let r := tc.path policy
  let s := s.childRun cfg (.attempt true) r
  let after :=
    if s.proxy.pc = .verdict then
      let b := s.hybridBranch A cfg tc (cfg.decodingOn && r.overflowed)
      (b.1, some b.2)
    else (s, none)
  ({ after.1 with proxy := after.1.proxy.endTestcase cfg },
    [⟨policy, after.2, after.1.proxy.status, after.1.traceBitmap⟩])

/-- The governor when the first test case is launched: initialized, and with the ramp
of the addr pass behind it unless `AFLCS_FREQ_CALIBRATE` is 0. -/
def launchGov (policy : CpuPolicy) (reads : InitReads) (shots : Option (ℕ → Shot)) : FreqGov :=
  let g := freqGovInit (.static policy) reads false
  match shots with
  | none => g
  | some shots => freqGovCopyStart (freqGovCalibrate g .addr shots).1 .atom .addr

/-- The session at that moment, whatever the maps hold. -/
def Session.launch (cfg : Config) (policy : CpuPolicy) (reads : InitReads)
    (shots : Option (ℕ → Shot)) (pathCls pathKept edgeCls bitmap saved : CovMap n) :
    Session n where
  proxy := { Proxy.initial cfg policy with
    gov := launchGov policy reads shots
    firstRun := false
    needsCalibration := false }
  hybrid := hybridInit pathCls pathKept edgeCls
  traceBitmap := bitmap
  sampleSavedMap := saved

/-! ### One run -/

section Run

variable {cfg : Config} {p : Proxy}

/-- Once calibrated, the proxy launches the child that was handed over. -/
theorem handed_launched (hfirst : p.firstRun = false) (hcal : p.needsCalibration = false)
    (hcov : cfg.covType = .hybrid) (reads : InitReads) (pid : Raw) :
    p.handed cfg reads pid =
      { p with
        childPid := pid
        didCalibrate := false
        curRepetitionNum := 0
        forcedMinDone := false
        pc := .start (.attempt true) } := by
  unfold Proxy.handed Proxy.initOnce Proxy.bbEnable Proxy.launch
  simp [hfirst, hcal, hcov]

theorem currentFreqMode_hybrid (hcov : cfg.covType = .hybrid) : cfg.currentFreqMode = .atom := by
  unfold Config.currentFreqMode
  rw [if_neg (by simp [hcov])]

/-- What the path pass leaves in the proxy. -/
theorem finish_path (hcov : cfg.covType = .hybrid) (hdec : cfg.decodingOn = true) (w : Raw)
    (o : Bool) :
    ({ p.start cfg (.attempt true) with waitStatus := w } : Proxy).finish cfg (.attempt true) o =
      { p with
        gov := p.gov.afterRun .atom o
        waitStatus := w
        status := w
        totalExecCount := p.totalExecCount + 1
        overflowExecCount := if o then p.overflowExecCount + 1 else p.overflowExecCount
        pc := if wifsignaled w then .endTestcase else .verdict } := by
  have hend : endAttempt (freqGovApply p.gov .atom) .atom p.curRepetitionNum p.forcedMinDone o =
      (p.gov.afterRun .atom o, .done) := by
    unfold endAttempt FreqGov.afterRun freqGovShouldRetry
    simp
  unfold Proxy.finish Proxy.start Proxy.count Proxy.afterAttempt
  simp only [currentFreqMode_hybrid hcov, hdec, Bool.true_and, hend, hcov, true_and]
  cases wifsignaled w <;> rfl

/-- What an edge pass leaves in the proxy. -/
theorem finish_edge {t : Task} (ht : t = .confirm ∨ t = .sample) (w : Raw) (o : Bool) :
    ({ p.start cfg t with waitStatus := w } : Proxy).finish cfg t o =
      { p with
        gov := p.gov.afterRun .addr o
        waitStatus := w
        totalExecCount := p.totalExecCount + 1
        overflowExecCount := if o then p.overflowExecCount + 1 else p.overflowExecCount
        pc := .endTestcase } := by
  rcases ht with rfl | rfl <;> rfl

/-- What a verdict leaves in the proxy. -/
theorem verdict_cases (cfg : Config) (p : Proxy) :
    p.verdict cfg true = { p with pc := .fork .confirm } ∧
      p.verdict cfg false =
        { p with
          hybridDiscards := if cfg.hybridSample = 0 then p.hybridDiscards else p.hybridDiscards + 1
          pc := if cfg.hybridSample ≠ 0 ∧ (p.hybridDiscards + 1) % cfg.hybridSample = 0
            then .fork .sample else .endTestcase } := by
  refine ⟨rfl, ?_⟩
  unfold Proxy.verdict
  by_cases hN : cfg.hybridSample = 0
  · simp [hN]
  · simp [hN]

theorem verdict_frame (cfg : Config) (p : Proxy) (b : Bool) :
    (p.verdict cfg b).gov = p.gov ∧ (p.verdict cfg b).status = p.status ∧
      (p.verdict cfg b).firstRun = p.firstRun ∧
      (p.verdict cfg b).needsCalibration = p.needsCalibration := by
  cases b with
  | true => exact ⟨rfl, rfl, rfl, rfl⟩
  | false =>
    rw [(verdict_cases cfg p).2]
    exact ⟨rfl, rfl, rfl, rfl⟩

end Run

/-! ### Sound sessions -/

/-- The governor can make a run, and the first test case was launched. -/
structure Session.Sound (s : Session n) : Prop where
  prepared : Prepared s.proxy.gov
  adapted : Adapted s.proxy.gov
  initialized : s.proxy.firstRun = false
  calibrated : s.proxy.needsCalibration = false

section Sound

variable {cfg : Config} {s : Session n}

/-- The path pass, made from a sound session. -/
theorem Session.Sound.path (h : s.Sound) (hcov : cfg.covType = .hybrid)
    (hdec : cfg.decodingOn = true) (reads : InitReads) (tc : Testcase n) (r : RunResult n) :
    AtRest ((s.handed cfg reads tc).childRun cfg (.attempt true) r).proxy.gov ∧
      ((s.handed cfg reads tc).childRun cfg (.attempt true) r).Sound ∧
      (s.handed cfg reads tc).childRun cfg (.attempt true) r =
        { s with
          proxy := { s.proxy with
            childPid := tc.pid
            didCalibrate := false
            curRepetitionNum := 0
            forcedMinDone := false
            gov := s.proxy.gov.afterRun .atom r.overflowed
            waitStatus := r.status
            status := r.status
            totalExecCount := s.proxy.totalExecCount + 1
            overflowExecCount :=
              if r.overflowed then s.proxy.overflowExecCount + 1 else s.proxy.overflowExecCount
            pc := if wifsignaled r.status then .endTestcase else .verdict }
          traceBitmap := r.decode (tc.prepare s.traceBitmap) } := by
  have hrest := h.prepared.afterRun .atom r.overflowed
  unfold Session.handed Session.childRun
  dsimp only
  rw [finish_path hcov hdec, handed_launched h.initialized h.calibrated hcov]
  exact ⟨hrest, ⟨hrest.prepared, h.adapted.afterRun .atom _, h.initialized, h.calibrated⟩, rfl⟩

/-- An edge pass, made from a sound session. -/
theorem Session.Sound.edge (h : s.Sound) (cfg : Config) {t : Task}
    (ht : t = .confirm ∨ t = .sample) (r : RunResult n) :
    (s.childRun cfg t r).Sound ∧
      s.childRun cfg t r =
        { s with
          proxy := { s.proxy with
            gov := s.proxy.gov.afterRun .addr r.overflowed
            waitStatus := r.status
            totalExecCount := s.proxy.totalExecCount + 1
            overflowExecCount :=
              if r.overflowed then s.proxy.overflowExecCount + 1 else s.proxy.overflowExecCount
            pc := .endTestcase }
          traceBitmap := r.decode s.traceBitmap } := by
  unfold Session.childRun
  rw [finish_edge ht]
  exact ⟨⟨(h.prepared.afterRun .addr _).prepared, h.adapted.afterRun .addr _, h.initialized,
    h.calibrated⟩, rfl⟩

theorem Session.Sound.judged (h : s.Sound) (cfg : Config) (r : PathResult n) :
    (s.judged cfg r).Sound := by
  obtain ⟨hgov, -, hfirst, hcal⟩ := verdict_frame cfg s.proxy (decide (r.verdict = .confirm))
  exact ⟨hgov ▸ h.prepared, hgov ▸ h.adapted, hfirst.trans h.initialized,
    hcal.trans h.calibrated⟩

theorem Session.Sound.hybridBranch (h : s.Sound) (A : PurgeArith) (cfg : Config)
    (tc : Testcase n) (overflowed : Bool) : (s.hybridBranch A cfg tc overflowed).1.Sound := by
  unfold Session.hybridBranch
  dsimp only
  generalize hybridAfterPath (sourcePolicy A) s.traceBitmap overflowed tc.inputKey s.hybrid = r
  have hj := h.judged cfg r
  split
  · obtain ⟨hedge, -⟩ := hj.edge cfg (.inl rfl)
      (tc.confirm ((s.judged cfg r).policyOf cfg .confirm))
    exact ⟨hedge.prepared, hedge.adapted, hedge.initialized, hedge.calibrated⟩
  · split
    · obtain ⟨hedge, -⟩ := hj.edge cfg (.inr rfl)
        (tc.sample ((s.judged cfg r).policyOf cfg .sample))
      exact ⟨hedge.prepared, hedge.adapted, hedge.initialized, hedge.calibrated⟩
    · exact hj

/-- The governor stays on, or off. -/
theorem hybridBranch_enabled (h : s.Sound) (A : PurgeArith) (cfg : Config) (tc : Testcase n)
    (overflowed : Bool) :
    (s.hybridBranch A cfg tc overflowed).1.proxy.gov.enabled = s.proxy.gov.enabled := by
  unfold Session.hybridBranch
  dsimp only
  generalize hybridAfterPath (sourcePolicy A) s.traceBitmap overflowed tc.inputKey s.hybrid = r
  have hj := h.judged cfg r
  have hgov : (s.judged cfg r).proxy.gov = s.proxy.gov := (verdict_frame cfg s.proxy _).1
  rw [← hgov]
  split
  · unfold Session.confirmWithBranchBroadcast
    dsimp only
    rw [(hj.edge cfg (.inl rfl) _).2]
    exact (afterRun_fixed _ _ _).enabled
  · split
    · unfold Session.sampleWithBranchBroadcast Session.childRun
      dsimp only
      rw [finish_edge (.inr rfl)]
      exact (afterRun_fixed _ _ _).enabled
    · rfl

theorem testcase_enabled (h : s.Sound) (A : PurgeArith) (hcov : cfg.covType = .hybrid)
    (hdec : cfg.decodingOn = true) (reads : InitReads) (tc : Testcase n) :
    (s.testcase A cfg reads tc).1.proxy.gov.enabled = s.proxy.gov.enabled := by
  unfold Session.testcase
  dsimp only
  generalize (s.handed cfg reads tc).policyOf cfg (.attempt true) = policy
  generalize tc.path policy = r
  obtain ⟨-, hpath, heq⟩ := h.path hcov hdec reads tc r
  have henabled : ((s.handed cfg reads tc).childRun cfg (.attempt true) r).proxy.gov.enabled =
      s.proxy.gov.enabled := by
    rw [heq]
    exact (afterRun_fixed _ _ _).enabled
  rw [← henabled]
  split
  · exact hybridBranch_enabled hpath A cfg tc _
  · rfl

/-- **A test case leaves the session sound.** -/
theorem Session.Sound.testcase (h : s.Sound) (A : PurgeArith) (hcov : cfg.covType = .hybrid)
    (hdec : cfg.decodingOn = true) (reads : InitReads) (tc : Testcase n) :
    (s.testcase A cfg reads tc).1.Sound := by
  unfold Session.testcase
  dsimp only
  generalize (s.handed cfg reads tc).policyOf cfg (.attempt true) = policy
  generalize tc.path policy = r
  obtain ⟨-, hpath, -⟩ := h.path hcov hdec reads tc r
  split
  · have hend := hpath.hybridBranch A cfg tc (cfg.decodingOn && r.overflowed)
    exact ⟨hend.prepared, hend.adapted, hend.initialized, hend.calibrated⟩
  · exact ⟨hpath.prepared, hpath.adapted, hpath.initialized, hpath.calibrated⟩

end Sound

/-! ### Sessions alike -/

/-- The sessions differ in what a sampled run writes: the addr search, the figures of
the samples, and the proxy's counts. -/
structure Alike (s s' : Session n) : Prop where
  gov : s.proxy.gov.unaddressed = s'.proxy.gov.unaddressed
  hybrid : s.hybrid.unsampled = s'.hybrid.unsampled
  status : s.proxy.status = s'.proxy.status
  map : s.traceBitmap = s'.traceBitmap

/-- The outcome of a confirm does not depend on the policy it is made under. -/
def Testcase.Unhurried (tc : Testcase n) : Prop :=
  ∀ p p', tc.confirm p = tc.confirm p'

section Alike

variable {A : PurgeArith} {cfg cfg' : Config} {s s' : Session n} {tc : Testcase n}

theorem Alike.enabled (h : Alike s s') : s.proxy.gov.enabled = s'.proxy.gov.enabled := by
  have henabled := congrArg FreqGov.enabled h.gov
  exact henabled

/-- **A sampled run shows nowhere else.** -/
theorem Alike.sample (h : Alike s s') (hs : s.Sound) (hrest : AtRest s.proxy.gov)
    (run : CpuPolicy → RunResult n) : Alike (s.sampleWithBranchBroadcast cfg run) s' := by
  unfold Session.sampleWithBranchBroadcast Session.childRun
  dsimp only
  rw [finish_edge (.inr rfl)]
  refine ⟨?_, ?_, h.status, h.map⟩
  · exact (hrest.unaddressed_afterRun hs.adapted _).trans h.gov
  · exact (hybridAfterSample_unsampled _ _ s.hybrid).trans h.hybrid

/-- The confirms of the two sessions have the same outcome. -/
theorem Alike.confirm_eq (h : Alike s s')
    (htc : s.proxy.gov.enabled = true → tc.Unhurried) :
    tc.confirm (s.policyOf cfg .confirm) = tc.confirm (s'.policyOf cfg' .confirm) := by
  cases he : s.proxy.gov.enabled with
  | true => exact htc he _ _
  | false =>
    -- a governor that is off leaves the policy as it is
    have hoff (g : FreqGov) (hg : g.enabled = false) : freqGovApply g .addr = g := by
      unfold freqGovApply
      rw [if_pos (by simp [hg])]
    unfold Session.policyOf Proxy.start
    dsimp only
    rw [hoff _ he, hoff _ (h.enabled.symm.trans he)]
    have hpolicy := congrArg FreqGov.policy h.gov
    exact congrArg tc.confirm hpolicy

/-- A confirm finds and leaves the sessions alike. -/
theorem Alike.confirm (h : Alike s s') (hs : s.Sound) (hs' : s'.Sound)
    (hrest : AtRest s.proxy.gov) (hrest' : AtRest s'.proxy.gov)
    (htc : s.proxy.gov.enabled = true → tc.Unhurried) :
    Alike (s.confirmWithBranchBroadcast A cfg tc.confirm)
      (s'.confirmWithBranchBroadcast A cfg' tc.confirm) := by
  have hr : tc.confirm (s.policyOf cfg .confirm) = tc.confirm (s'.policyOf cfg' .confirm) :=
    h.confirm_eq htc
  unfold Session.confirmWithBranchBroadcast
  dsimp only
  rw [← hr]
  generalize tc.confirm (s.policyOf cfg .confirm) = r
  have hblind := (operate_noninterfering A).blind s.hybrid s'.hybrid
    (.confirm (r.decode s.traceBitmap) r.overflowed) rfl h.hybrid
  rw [(hs.edge cfg (.inl rfl) r).2, (hs'.edge cfg' (.inl rfl) r).2]
  refine ⟨?_, ?_, h.status, congrArg r.decode h.map⟩
  · calc (s.proxy.gov.afterRun .addr r.overflowed).unaddressed
      _ = s.proxy.gov.unaddressed := hrest.unaddressed_afterRun hs.adapted _
      _ = s'.proxy.gov.unaddressed := h.gov
      _ = (s'.proxy.gov.afterRun .addr r.overflowed).unaddressed :=
          (hrest'.unaddressed_afterRun hs'.adapted _).symm
  · dsimp only
    rw [← h.map]
    exact hblind.1

/-- The verdict is taken alike. -/
theorem Alike.judged (h : Alike s s') {r r' : PathResult n}
    (hst : r.st.unsampled = r'.st.unsampled) (hmap : r.map = r'.map) :
    Alike (s.judged cfg r) (s'.judged cfg' r') := by
  obtain ⟨hgov, hstatus, -⟩ := verdict_frame cfg s.proxy (decide (r.verdict = .confirm))
  obtain ⟨hgov', hstatus', -⟩ := verdict_frame cfg' s'.proxy (decide (r'.verdict = .confirm))
  unfold Session.judged
  refine ⟨?_, hst, (hstatus.trans h.status).trans hstatus'.symm, hmap⟩
  dsimp only
  rw [hgov, hgov']
  exact h.gov

/-- The hybrid branch, with sampling and without. -/
theorem Alike.hybridBranch (h : Alike s s') (hs : s.Sound) (hs' : s'.Sound) (A : PurgeArith)
    (cfg : Config) (hrest : AtRest s.proxy.gov) (hrest' : AtRest s'.proxy.gov)
    (htc : s.proxy.gov.enabled = true → tc.Unhurried) (overflowed : Bool) :
    Alike (s.hybridBranch A cfg tc overflowed).1
        (s'.hybridBranch A { cfg with hybridSample := 0 } tc overflowed).1 ∧
      (s.hybridBranch A cfg tc overflowed).2 =
        (s'.hybridBranch A { cfg with hybridSample := 0 } tc overflowed).2 := by
  obtain ⟨hst, hanswer⟩ := (operate_noninterfering A).blind s.hybrid s'.hybrid
    (.path ⟨s.traceBitmap, overflowed, tc.inputKey⟩) rfl h.hybrid
  unfold operate at hst hanswer
  simp only [List.cons.injEq, Prod.mk.injEq, and_true] at hst hanswer
  obtain ⟨hverdict, hmap⟩ := hanswer
  unfold Session.hybridBranch
  dsimp only
  rw [← h.map]
  refine ⟨?_, hverdict⟩
  generalize hybridAfterPath (sourcePolicy A) s.traceBitmap overflowed tc.inputKey s.hybrid = r
    at hst hverdict hmap ⊢
  generalize hybridAfterPath (sourcePolicy A) s.traceBitmap overflowed tc.inputKey s'.hybrid = r'
    at hst hverdict hmap ⊢
  have hj := hs.judged cfg r
  have hj' := hs'.judged { cfg with hybridSample := 0 } r'
  have hnext : Alike (s.judged cfg r) (s'.judged { cfg with hybridSample := 0 } r') :=
    h.judged hst hmap
  unfold Session.judged at hj hj' hnext ⊢
  rw [← hverdict] at hj' hnext ⊢
  cases hv : r.verdict with
  | confirm =>
    rw [hv] at hj hj' hnext
    exact hnext.confirm hj hj' hrest hrest' htc
  | discard =>
    rw [hv] at hj hnext
    simp only [reduceCtorEq, decide_false, (verdict_cases _ _).2] at hj hnext ⊢
    by_cases hN : cfg.hybridSample ≠ 0 ∧ (s.proxy.hybridDiscards + 1) % cfg.hybridSample = 0
    · simp only [if_pos hN] at hj hnext ⊢
      simpa using hnext.sample hj hrest tc.sample
    · simp only [if_neg hN] at hnext ⊢
      simpa using hnext

/-- The policy of the path pass is the same with sampling and without. -/
theorem Alike.path_policy (h : Alike s s') (hs : s.Sound) (hs' : s'.Sound)
    (hcov : cfg.covType = .hybrid) (reads : InitReads) :
    (s.handed cfg reads tc).policyOf cfg (.attempt true) =
      (s'.handed { cfg with hybridSample := 0 } reads tc).policyOf { cfg with hybridSample := 0 }
        (.attempt true) := by
  have hmode (c : Config) (hc : c.covType = .hybrid) (t : Session n) (ht : t.Sound) :
      (t.handed c reads tc).policyOf c (.attempt true) =
        (freqGovApply t.proxy.gov .atom).policy := by
    unfold Session.policyOf Session.handed Proxy.start
    dsimp only
    rw [handed_launched ht.initialized ht.calibrated hc, currentFreqMode_hybrid hc]
  have happly : (freqGovApply s.proxy.gov .atom).unaddressed =
      (freqGovApply s'.proxy.gov .atom).unaddressed := by
    rw [freqGovApply_unaddressed, freqGovApply_unaddressed, h.gov]
  have hpolicy := congrArg FreqGov.policy happly
  calc (s.handed cfg reads tc).policyOf cfg (.attempt true)
    _ = (freqGovApply s.proxy.gov .atom).policy := hmode cfg hcov s hs
    _ = (freqGovApply s'.proxy.gov .atom).policy := hpolicy
    _ = _ := (hmode { cfg with hybridSample := 0 } hcov s' hs').symm

/-- **One test case** is seen alike, and leaves the sessions alike. -/
theorem Alike.testcase (h : Alike s s') (hs : s.Sound) (hs' : s'.Sound)
    (hcov : cfg.covType = .hybrid) (hdec : cfg.decodingOn = true) (reads : InitReads)
    (htc : s.proxy.gov.enabled = true → tc.Unhurried) :
    Alike (s.testcase A cfg reads tc).1
        (s'.testcase A { cfg with hybridSample := 0 } reads tc).1 ∧
      (s.testcase A cfg reads tc).2 =
        (s'.testcase A { cfg with hybridSample := 0 } reads tc).2 := by
  unfold Session.testcase
  dsimp only
  rw [← h.path_policy hs hs' hcov reads]
  generalize (s.handed cfg reads tc).policyOf cfg (.attempt true) = policy
  generalize tc.path policy = r
  have hoff : ({ cfg with hybridSample := 0 } : Config).covType = .hybrid := hcov
  obtain ⟨hrest, hsound, heq⟩ := hs.path hcov hdec reads tc r
  obtain ⟨hrest', hsound', heq'⟩ := hs'.path hoff hdec reads tc r
  generalize (s.handed cfg reads tc).childRun cfg (.attempt true) r = t at hsound hrest heq ⊢
  generalize (s'.handed { cfg with hybridSample := 0 } reads tc).childRun
    { cfg with hybridSample := 0 } (.attempt true) r = t' at hsound' hrest' heq' ⊢
  have hpath : Alike t t' := by
    rw [heq, heq']
    refine ⟨?_, h.hybrid, rfl, ?_⟩
    · dsimp only
      rw [afterRun_unaddressed, afterRun_unaddressed, h.gov]
    · dsimp only
      rw [h.map]
  have hpc : t.proxy.pc = t'.proxy.pc := by rw [heq, heq']
  have henabled : t.proxy.gov.enabled = true → tc.Unhurried := by
    intro he
    rw [heq] at he
    refine htc ?_
    rw [← he]
    exact (afterRun_fixed s.proxy.gov .atom r.overflowed).enabled.symm
  rw [← hpc]
  by_cases hv : t.proxy.pc = .verdict
  · obtain ⟨hnext, hverdict⟩ := hpath.hybridBranch hsound hsound' A cfg hrest hrest' henabled
      (cfg.decodingOn && r.overflowed)
    rw [if_pos hv, if_pos hv]
    dsimp only
    refine ⟨⟨hnext.gov, hnext.hybrid, hnext.status, hnext.map⟩, ?_⟩
    rw [hverdict, hnext.status, hnext.map]
  · rw [if_neg hv, if_neg hv]
    refine ⟨⟨hpath.gov, hpath.hybrid, hpath.status, hpath.map⟩, ?_⟩
    dsimp only
    rw [hpath.status, hpath.map]

end Alike

/-! ### What it costs -/

section Cost

variable {A : PurgeArith} {cfg : Config} {s : Session n}

/-- The verdict is `v`, as a count. -/
def Outcome.is (v : HybridVerdict) (o : Outcome n) : Bool :=
  decide (o.verdict = some v)

/-- The hybrid branch makes a run for a confirm, and one for each `hybrid_sample`-th
discard. -/
theorem hybridBranch_counts (A : PurgeArith) (cfg : Config) (s : Session n) (tc : Testcase n)
    (overflowed : Bool) :
    let b := s.hybridBranch A cfg tc overflowed
    b.1.proxy.hybridDiscards =
        s.proxy.hybridDiscards + (if b.2 = .discard ∧ cfg.hybridSample ≠ 0 then 1 else 0) ∧
      b.1.proxy.totalExecCount + s.proxy.hybridDiscards / cfg.hybridSample =
        s.proxy.totalExecCount + (if b.2 = .confirm then 1 else 0) +
          b.1.proxy.hybridDiscards / cfg.hybridSample := by
  unfold Session.hybridBranch
  dsimp only
  generalize hybridAfterPath (sourcePolicy A) s.traceBitmap overflowed tc.inputKey s.hybrid = r
  unfold Session.judged
  cases hv : r.verdict with
  | confirm =>
    simp only [decide_true, (verdict_cases _ _).1, if_true, reduceCtorEq, false_and, if_false,
      Session.confirmWithBranchBroadcast, Session.childRun]
    rw [finish_edge (.inl rfl)]
    exact ⟨rfl, rfl⟩
  | discard =>
    simp only [reduceCtorEq, decide_false, (verdict_cases _ _).2, true_and, if_false]
    by_cases hN : cfg.hybridSample = 0
    · simp [hN]
    · have hdiv : (s.proxy.hybridDiscards + 1) / cfg.hybridSample = _ := Nat.succ_div
      by_cases hsample : (s.proxy.hybridDiscards + 1) % cfg.hybridSample = 0
      · rw [if_pos (Nat.dvd_of_mod_eq_zero hsample)] at hdiv
        simp only [hN, hsample, ne_eq, not_false_eq_true, true_and, if_true, if_false, reduceCtorEq,
          Pc.fork.injEq, Session.sampleWithBranchBroadcast, Session.childRun]
        rw [finish_edge (.inr rfl)]
        refine ⟨rfl, ?_⟩
        change s.proxy.totalExecCount + 1 + s.proxy.hybridDiscards / cfg.hybridSample =
          s.proxy.totalExecCount + 0 + (s.proxy.hybridDiscards + 1) / cfg.hybridSample
        omega
      · rw [if_neg (fun hdvd => hsample (Nat.mod_eq_zero_of_dvd hdvd))] at hdiv
        simp [hN, hsample, hdiv]

/-- The execs of a test case. -/
theorem testcase_counts (hs : s.Sound) (hcov : cfg.covType = .hybrid)
    (hdec : cfg.decodingOn = true) (reads : InitReads) (tc : Testcase n) :
    let t := s.testcase A cfg reads tc
    t.1.proxy.totalExecCount + s.proxy.hybridDiscards / cfg.hybridSample =
        s.proxy.totalExecCount + t.2.length + t.2.countP (·.is .confirm) +
          t.1.proxy.hybridDiscards / cfg.hybridSample ∧
      (cfg.hybridSample ≠ 0 →
        t.1.proxy.hybridDiscards = s.proxy.hybridDiscards + t.2.countP (·.is .discard)) := by
  unfold Session.testcase
  dsimp only
  generalize (s.handed cfg reads tc).policyOf cfg (.attempt true) = policy
  generalize tc.path policy = r
  obtain ⟨-, -, heq⟩ := hs.path hcov hdec reads tc r
  generalize (s.handed cfg reads tc).childRun cfg (.attempt true) r = t at heq ⊢
  have htotal : t.proxy.totalExecCount = s.proxy.totalExecCount + 1 := by rw [heq]
  have hdiscards : t.proxy.hybridDiscards = s.proxy.hybridDiscards := by rw [heq]
  by_cases hv : t.proxy.pc = .verdict
  · obtain ⟨hd, hexecs⟩ := hybridBranch_counts A cfg t tc (cfg.decodingOn && r.overflowed)
    rw [if_pos hv]
    dsimp only
    rw [hdiscards] at hd hexecs
    rw [htotal] at hexecs
    generalize t.hybridBranch A cfg tc (cfg.decodingOn && r.overflowed) = b at hd hexecs ⊢
    constructor
    · change b.1.proxy.totalExecCount + _ = _ + _ + _ + b.1.proxy.hybridDiscards / _
      rw [hexecs]
      cases b.2 <;> simp [Outcome.is]
    · intro hN
      change b.1.proxy.hybridDiscards = _
      rw [hd]
      cases b.2 <;> simp [Outcome.is, hN]
  · rw [if_neg hv]
    constructor
    · change t.proxy.totalExecCount + _ = _ + t.proxy.hybridDiscards / _
      rw [htotal, hdiscards]
      simp [Outcome.is]
    · intro _
      change t.proxy.hybridDiscards = _
      rw [hdiscards]
      simp [Outcome.is]

/-- The execs of a campaign. -/
theorem campaign_counts (hs : s.Sound) (hcov : cfg.covType = .hybrid)
    (hdec : cfg.decodingOn = true) (reads : InitReads) (tcs : List (Testcase n)) :
    let t := Ops.run (Session.testcase A cfg reads) s tcs
    t.1.proxy.totalExecCount + s.proxy.hybridDiscards / cfg.hybridSample =
        s.proxy.totalExecCount + t.2.length + t.2.countP (·.is .confirm) +
          t.1.proxy.hybridDiscards / cfg.hybridSample ∧
      (cfg.hybridSample ≠ 0 →
        t.1.proxy.hybridDiscards = s.proxy.hybridDiscards + t.2.countP (·.is .discard)) := by
  induction tcs generalizing s with
  | nil => exact ⟨rfl, fun _ => rfl⟩
  | cons tc tcs ih =>
    obtain ⟨hone, hdiscards⟩ := testcase_counts (A := A) hs hcov hdec reads tc
    obtain ⟨hrest, hdiscards'⟩ := ih (hs.testcase A hcov hdec reads tc)
    unfold Ops.run
    dsimp only at hone hdiscards hrest hdiscards' ⊢
    simp only [List.length_append, List.countP_append]
    constructor
    · omega
    · intro hN
      rw [hdiscards' hN, hdiscards hN, Nat.add_assoc]

end Cost

/-! ### The campaign -/

/-- The session is launched sound. -/
theorem Session.Sound.launch {cfg : Config} {policy : CpuPolicy} {reads : InitReads}
    (hpolicy : policy.scalingMinFreq ≤ policy.scalingMaxFreq)
    (hreads : reads.disabled = false →
      0 < reads.cpuinfoMinFreq ∧ reads.cpuinfoMinFreq ≤ reads.cpuinfoMaxFreq)
    (shots : Option (ℕ → Shot)) (pathCls pathKept edgeCls bitmap saved : CovMap n) :
    (Session.launch cfg policy reads shots pathCls pathKept edgeCls bitmap saved).Sound := by
  have hinit : Prepared (freqGovInit (.static policy) reads false) := by
    cases hd : reads.disabled with
    | true => exact .inl (by unfold freqGovInit; simp [hd])
    | false =>
      obtain ⟨hpos, hle⟩ := hreads hd
      exact .inr ((Unset.static hpolicy).init false hd hpos hle)
  have hadapted : Adapted (freqGovInit (.static policy) reads false) := .init _ reads false
  have hlaunch : Prepared (launchGov policy reads shots) ∧
      Adapted (launchGov policy reads shots) := by
    unfold launchGov
    cases shots with
    | none => exact ⟨hinit, hadapted⟩
    | some shots =>
      exact ⟨(hinit.calibrate .addr shots).copyStart .atom .addr,
        (hadapted.run (.calibrate .addr shots)).run (.copyStart .atom .addr)⟩
  exact ⟨hlaunch.1, hlaunch.2, rfl, rfl⟩

/-- The two sessions in the middle of a campaign. -/
structure Abreast (governed : Bool) (s s' : Session n) : Prop where
  left : s.Sound
  right : s'.Sound
  alike : Alike s s'
  enabled : s.proxy.gov.enabled = governed

theorem Abreast.testcase {governed : Bool} {cfg : Config} {s s' : Session n} {tc : Testcase n}
    (h : Abreast governed s s') (A : PurgeArith) (hcov : cfg.covType = .hybrid)
    (hdec : cfg.decodingOn = true) (reads : InitReads)
    (htc : governed = true → tc.Unhurried) :
    Abreast governed (s.testcase A cfg reads tc).1
        (s'.testcase A { cfg with hybridSample := 0 } reads tc).1 ∧
      (s.testcase A cfg reads tc).2 =
        (s'.testcase A { cfg with hybridSample := 0 } reads tc).2 := by
  have hoff : ({ cfg with hybridSample := 0 } : Config).covType = .hybrid := hcov
  obtain ⟨hnext, hout⟩ := h.alike.testcase (A := A) h.left h.right hcov hdec reads
    (fun he => htc (h.enabled.symm.trans he))
  exact ⟨⟨h.left.testcase A hcov hdec reads tc, h.right.testcase A hoff hdec reads tc, hnext,
    (testcase_enabled h.left A hcov hdec reads tc).trans h.enabled⟩, hout⟩

/-- The two campaigns have the same outcomes. -/
theorem Abreast.campaign {governed : Bool} {cfg : Config} {s s' : Session n}
    {tcs : List (Testcase n)} (h : Abreast governed s s') (A : PurgeArith)
    (hcov : cfg.covType = .hybrid) (hdec : cfg.decodingOn = true) (reads : InitReads)
    (htcs : governed = true → ∀ tc ∈ tcs, tc.Unhurried) :
    (Ops.run (Session.testcase A cfg reads) s tcs).2 =
      (Ops.run (Session.testcase A { cfg with hybridSample := 0 } reads) s' tcs).2 := by
  refine (Ops.run_related ?_ h).2
  intro tc htc t t' ht
  exact ht.testcase A hcov hdec reads (fun hon => htcs hon tc htc)

/-- A governor that reads `AFLCS_FREQ_GOV=0` is off. -/
theorem launchGov_enabled (policy : CpuPolicy) (reads : InitReads) (shots : Option (ℕ → Shot)) :
    (launchGov policy reads shots).enabled = !reads.disabled := by
  have hinit : (freqGovInit (.static policy) reads false).enabled = !reads.disabled := by
    unfold freqGovInit
    cases hd : reads.disabled <;> simp [FreqGov.static]
  unfold launchGov
  cases shots with
  | none => exact hinit
  | some shots =>
    exact ((Call.fixed _ (.calibrate .addr shots)).trans
      (Call.fixed _ (.copyStart .atom .addr))).enabled.trans hinit

/-- **Sampling is a measurement.** In a campaign of hybrid mode, from its first test
case on, sampling every `hybrid_sample`-th discard changes neither what AFL++ reads, nor
the verdicts, nor the policies of the path passes, provided that the governor is off or
the confirms come out the same at every frequency. It costs one exec for each
`hybrid_sample` discards. -/
theorem sampling_unseen (A : PurgeArith) (cfg : Config) (hcov : cfg.covType = .hybrid)
    (hdec : cfg.decodingOn = true) (policy : CpuPolicy)
    (hpolicy : policy.scalingMinFreq ≤ policy.scalingMaxFreq) (reads : InitReads)
    (hreads : reads.disabled = false →
      0 < reads.cpuinfoMinFreq ∧ reads.cpuinfoMinFreq ≤ reads.cpuinfoMaxFreq)
    (shots : Option (ℕ → Shot)) (pathCls pathKept edgeCls bitmap saved : CovMap n)
    (tcs : List (Testcase n)) (hedge : reads.disabled = false → ∀ tc ∈ tcs, tc.Unhurried) :
    let start := Session.launch cfg policy reads shots pathCls pathKept edgeCls bitmap saved
    let on := Ops.run (Session.testcase A cfg reads) start tcs
    let off := Ops.run (Session.testcase A { cfg with hybridSample := 0 } reads) start tcs
    on.2 = off.2 ∧
      on.1.proxy.totalExecCount =
        off.1.proxy.totalExecCount + on.2.countP (·.is .discard) / cfg.hybridSample := by
  intro start on off
  have hstart : start.Sound :=
    .launch hpolicy hreads shots pathCls pathKept edgeCls bitmap saved
  have hoff : ({ cfg with hybridSample := 0 } : Config).covType = .hybrid := hcov
  have habreast : Abreast (!reads.disabled) start start :=
    ⟨hstart, hstart, ⟨rfl, rfl, rfl, rfl⟩, launchGov_enabled policy reads shots⟩
  have hseen : on.2 = off.2 :=
    habreast.campaign A hcov hdec reads (fun hon => hedge (by simpa using hon))
  refine ⟨hseen, ?_⟩
  obtain ⟨hon, hdiscards⟩ := campaign_counts (A := A) hstart hcov hdec reads tcs
  obtain ⟨hplain, -⟩ := campaign_counts (A := A) hstart hoff hdec reads tcs
  change on.1.proxy.totalExecCount + 0 / cfg.hybridSample =
    0 + on.2.length + on.2.countP (·.is .confirm) + on.1.proxy.hybridDiscards / cfg.hybridSample
    at hon
  change off.1.proxy.totalExecCount + 0 / 0 =
    0 + off.2.length + off.2.countP (·.is .confirm) + off.1.proxy.hybridDiscards / 0 at hplain
  have hquot : on.1.proxy.hybridDiscards / cfg.hybridSample =
      on.2.countP (·.is .discard) / cfg.hybridSample := by
    by_cases hN : cfg.hybridSample = 0
    · rw [hN, Nat.div_zero, Nat.div_zero]
    · have hcount : on.1.proxy.hybridDiscards = 0 + on.2.countP (·.is .discard) := hdiscards hN
      rw [hcount, Nat.zero_add]
  rw [Nat.zero_div, Nat.zero_add, Nat.add_zero, hquot, hseen] at hon
  rw [Nat.div_zero, Nat.div_zero, Nat.add_zero, Nat.add_zero, Nat.zero_add] at hplain
  rw [hon, hplain, hseen]

/-! ### A sampled discard -/

/-- A run that exits, with every hit count at `hits`. -/
def RunResult.counting (hits : Byte) (overflowed : Bool) : RunResult 1 :=
  ⟨fun _ _ => hits, overflowed, 0⟩

/-- A test case with `hits` on the path. When it is sampled its trace overflows. -/
def hitting (hits : Byte) (confirm : CpuPolicy → RunResult 1) : Testcase 1 where
  pid := 100
  prepare _ := fun _ => 0
  inputKey := 0
  path _ := .counting hits false
  confirm := confirm
  sample _ := .counting hits true

/-- Hybrid mode with every discard sampled. -/
def sampleAll : Config where
  covType := .hybrid
  decodingOn := true
  calibrate := false
  hybridSample := 1
  statsFile := false

/-- Its session on a board that lists no frequencies. -/
def sampleAllStart : Session 1 :=
  .launch sampleAll ⟨408000, 1200000, 0, "schedutil"⟩ unlistedReads none
    (fun _ => 0) (fun _ => 0) (fun _ => 0) (fun _ => 0) (fun _ => 0)

/-- What AFL++ reads in the campaign, with every `N`-th discard sampled. -/
def sampleAllOutcomes (N : ℕ) (tcs : List (Testcase 1)) : List (Outcome 1) :=
  (Ops.run (Session.testcase .exact { sampleAll with hybridSample := N } unlistedReads)
    sampleAllStart tcs).2

/-- A path that is confirmed, then discarded and sampled. -/
theorem sampling_unseen_discard :
    let tcs := [hitting 1 fun _ => .counting 1 false, hitting 1 fun _ => .counting 1 false]
    sampleAllOutcomes 1 tcs = sampleAllOutcomes 0 tcs ∧
      (sampleAllOutcomes 1 tcs).countP (·.is .discard) = 1 := by
  intro tcs
  have hsteady : ∀ tc ∈ tcs, tc.Unhurried := by
    intro tc htc p p'
    simp only [tcs, List.mem_cons, List.not_mem_nil, or_false, or_self] at htc
    rw [htc]
    rfl
  obtain ⟨hseen, -⟩ := sampling_unseen (n := 1) .exact sampleAll rfl rfl
    ⟨408000, 1200000, 0, "schedutil"⟩ (by decide) unlistedReads (fun _ => by decide) none
    (fun _ => 0) (fun _ => 0) (fun _ => 0) (fun _ => 0) (fun _ => 0) tcs (fun _ => hsteady)
  exact ⟨hseen, by decide +kernel⟩

/-- Where the confirms depend on the frequency, a sampled discard shows: the overflow
of the sample has the next confirm made at the floor, and so not truncated. -/
example :
    let tcs := [hitting 1 fun _ => .counting 1 false, hitting 1 fun _ => .counting 1 false,
      hitting 8 fun p => if p.scalingMaxFreq ≤ 408000 then .counting 8 false else .counting 0 true]
    (sampleAllOutcomes 1 tcs).map (fun o => (o.map 0).toNat) = [1, 1, 8] ∧
      (sampleAllOutcomes 0 tcs).map (fun o => (o.map 0).toNat) = [1, 1, 0] := by
  decide +kernel

end CsProxy
end CsTrace
