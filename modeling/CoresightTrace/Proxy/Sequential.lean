import CoresightTrace.Framework.Tally
import CoresightTrace.Proxy.Full

/-!
# The protocol, one test case after the other

AFL++, the proxy and the forkserver interleave their steps (`Proxy/Full.lean`).
`full_sequential` says that it does not show: in every reachable state the test cases that
were finished are those of `Session.testcase`, one after the other, and the words AFL++ was
sent are their pids and statuses. So what is shown of campaigns holds of the protocol:
`full_sampling_unseen` compares two runs of it, with sampling and without.
-/

namespace CsTrace
namespace CsProxy

open Governor Hybrid

variable {n : ℕ}

/-! ### Runs -/

/-- The words AFL++ is sent: a pid and a status for each test case. -/
def sent (tcs : ℕ → Testcase n) (outcomes : List (Outcome n)) : List Raw :=
  outcomes.zipIdx.flatMap fun o => [(tcs o.2).pid, o.1.status]

theorem sent_concat (tcs : ℕ → Testcase n) (outcomes : List (Outcome n)) (o : Outcome n) :
    sent tcs (outcomes ++ [o]) = sent tcs outcomes ++ [(tcs outcomes.length).pid, o.status] := by
  unfold sent
  rw [List.zipIdx_append, List.flatMap_append]
  simp

/-- AFL++ was sent the pid of the current test case. -/
def Pc.reported : Pc → Bool
  | .request | .forward | .handed | .start (.attempt true) | .report => false
  | _ => true

/-- The campaign of `Session.testcase`, of the first `k` test cases. -/
def campaignRun (A : PurgeArith) (cfg : Config) (reads : InitReads) (s : Session n)
    (tcs : ℕ → Testcase n) (k : ℕ) : Session n × List (Outcome n) :=
  Ops.run (Session.testcase A cfg reads) s ((List.range k).map tcs)

theorem campaignRun_succ (A : PurgeArith) (cfg : Config) (reads : InitReads) (s : Session n)
    (tcs : ℕ → Testcase n) (k : ℕ) :
    campaignRun A cfg reads s tcs (k + 1) =
      (((campaignRun A cfg reads s tcs k).1.testcase A cfg reads (tcs k)).1,
        (campaignRun A cfg reads s tcs k).2 ++
          ((campaignRun A cfg reads s tcs k).1.testcase A cfg reads (tcs k)).2) := by
  unfold campaignRun
  rw [List.range_succ, List.map_append, List.map_singleton]
  exact Prod.ext (Ops.run_concat _ _ _ _) (Ops.run_concat_answers _ _ _ _)

/-- Where a run is: the test cases that are finished, and how far the current one has
come. -/
structure Sequential (A : PurgeArith) (cfg : Config) (reads : InitReads) (s : Session n)
    (tcs : ℕ → Testcase n) (x : Full n) : Prop where
  sound : (campaignRun A cfg reads s tcs x.outcomes.length).1.Sound
  outcomes : x.outcomes = (campaignRun A cfg reads s tcs x.outcomes.length).2
  stage : x.At A cfg reads (x.current tcs) (campaignRun A cfg reads s tcs x.outcomes.length).1
    x.sys.proxy.pc
  outer : x.sys.outer = sent tcs x.outcomes ++
    if x.sys.proxy.pc.reported then [(x.current tcs).pid] else []

section Runs

variable {A : PurgeArith} {cfg : Config} {reads : InitReads} {s : Session n}
  {tcs : ℕ → Testcase n} {x : Full n}

/-- A step within a test case. -/
theorem Sequential.within (h : Sequential A cfg reads s tcs x) {y : Full n}
    (hout : y.outcomes = x.outcomes)
    (hstage : y.At A cfg reads (x.current tcs)
      (campaignRun A cfg reads s tcs x.outcomes.length).1 y.sys.proxy.pc)
    (houter : y.sys.outer = sent tcs x.outcomes ++
      if y.sys.proxy.pc.reported then [(x.current tcs).pid] else []) :
    Sequential A cfg reads s tcs y := by
  have hcurrent : y.current tcs = x.current tcs := by
    unfold Full.current
    rw [hout]
  refine ⟨?_, ?_, ?_, ?_⟩
  · rw [hout]
    exact h.sound
  · rw [hout]
    exact h.outcomes
  · rw [hout, hcurrent]
    exact hstage
  · rw [hout, hcurrent]
    exact houter

/-- The last step of a test case. -/
theorem Sequential.endTestcase (h : Sequential A cfg reads s tcs x) (hcov : cfg.covType = .hybrid)
    (hdec : cfg.decodingOn = true) (hpc : x.sys.proxy.pc = .endTestcase) :
    Sequential A cfg reads s tcs (x.effect A cfg tcs .endTestcase) := by
  have hstage := h.stage
  rw [hpc] at hstage
  obtain ⟨hfollows, hout⟩ := hstage.endTestcase
  have hlen : (x.effect A cfg tcs .endTestcase).outcomes.length = x.outcomes.length + 1 :=
    List.length_append
  have hsucc := campaignRun_succ A cfg reads s tcs x.outcomes.length
  refine ⟨?_, ?_, ?_, ?_⟩
  · rw [hlen, hsucc]
    exact h.sound.testcase A hcov hdec reads _
  · rw [hlen, hsucc, hout]
    exact congrArg (· ++ _) h.outcomes
  · rw [hlen, hsucc]
    exact hfollows
  · have houter := h.outer
    rw [hpc] at houter
    change x.sys.outer ++ [x.sys.proxy.status] = sent tcs (x.outcomes ++ [_]) ++ []
    rw [houter, sent_concat, List.append_nil, List.append_assoc]
    rfl

/-- Where the proxy is in front of a step, and how far the test case has come. -/
theorem Sequential.place (h : Sequential A cfg reads s tcs x) {l : Label} {pc : Pc}
    (hen : enabled x.sys l = true) (hl : l.site? = some pc) :
    x.sys.proxy.pc = pc ∧ x.At A cfg reads (x.current tcs)
      (campaignRun A cfg reads s tcs x.outcomes.length).1 pc := by
  have hpc := pc_of_enabled hen hl
  exact ⟨hpc, hpc ▸ h.stage⟩

/-- A step within a test case, from `pc` to `next`, that writes AFL++ nothing. -/
theorem Sequential.silent (h : Sequential A cfg reads s tcs x) {y : Full n} {pc next : Pc}
    (hpc : x.sys.proxy.pc = pc) (hnext : y.sys.proxy.pc = next)
    (hout : y.outcomes = x.outcomes) (houter : y.sys.outer = x.sys.outer)
    (hrep : next.reported = pc.reported)
    (hstage : y.At A cfg reads (x.current tcs)
      (campaignRun A cfg reads s tcs x.outcomes.length).1 next) :
    Sequential A cfg reads s tcs y := by
  subst hpc hnext
  refine h.within hout hstage ?_
  rw [houter, h.outer, hrep]

/-- Behind a path pass its pid was sent, whatever comes next. -/
theorem afterAttempt_reported (p : Proxy) (next : Next) :
    (p.afterAttempt cfg next).pc.reported = true := by
  cases next with
  | retry | forceMin => rfl
  | done =>
    unfold Proxy.afterAttempt
    dsimp only
    split <;> rfl

theorem verdict_reported (p : Proxy) (confirm : Bool) :
    (p.verdict cfg confirm).pc.reported = true := by
  cases confirm with
  | true => rfl
  | false =>
    rw [(verdict_cases cfg p).2]
    dsimp only
    split <;> rfl

/-- The steps of the path pass. -/
theorem Sequential.path (h : Sequential A cfg reads s tcs x) (hcov : cfg.covType = .hybrid)
    (hdec : cfg.decodingOn = true) {l : Label} (hen : enabled x.sys l = true)
    (hans : x.answers A tcs l = true)
    (hl : l = .start (.attempt true) ∨ l = .cont (.attempt true) ∨
      (∃ w, l = .readStatus (.attempt true) w) ∨ ∃ o, l = .finish (.attempt true) o) :
    Sequential A cfg reads s tcs (x.effect A cfg tcs l) := by
  rcases hl with rfl | rfl | ⟨w, rfl⟩ | ⟨o, rfl⟩
  · obtain ⟨hpc, hat⟩ := h.place hen rfl
    exact h.silent hpc rfl rfl rfl rfl hat.startPath
  · obtain ⟨hpc, hat⟩ := h.place hen rfl
    exact h.silent hpc rfl rfl rfl rfl hat.contPath
  · obtain ⟨hpc, hat⟩ := h.place hen rfl
    refine h.silent hpc rfl rfl rfl ?_ (hat.readPath w hans)
    change Pc.reported (if sigstopped w.val then _ else _) = _
    split <;> rfl
  · obtain ⟨hpc, hat⟩ := h.place hen rfl
    refine h.silent hpc rfl rfl rfl ?_ (hat.finishPath h.sound hcov hdec (beq_iff_eq.mp hans))
    exact afterAttempt_reported _ _

/-- The steps of an edge pass. -/
theorem Sequential.edge (h : Sequential A cfg reads s tcs x) {t : Task}
    (ht : t = .confirm ∨ t = .sample) {l : Label} (hen : enabled x.sys l = true)
    (hans : x.answers A tcs l = true)
    (hl : l = .start t ∨ l = .cont t ∨ (∃ w, l = .readStatus t w) ∨ ∃ o, l = .finish t o) :
    Sequential A cfg reads s tcs (x.effect A cfg tcs l) := by
  rcases hl with rfl | rfl | ⟨w, rfl⟩ | ⟨o, rfl⟩
  · obtain ⟨hpc, hat⟩ := h.place hen rfl
    obtain ⟨hnext, hat'⟩ := hat.startEdge ht
    -- what the start leaves alone is seen for each of the two
    refine h.silent hpc hnext ?_ ?_ ?_ hat' <;> rcases ht with rfl | rfl <;> rfl
  · obtain ⟨hpc, hat⟩ := h.place hen rfl
    exact h.silent hpc rfl rfl rfl rfl (hat.contEdge ht)
  · obtain ⟨hpc, hat⟩ := h.place hen rfl
    refine h.silent hpc rfl rfl rfl ?_ (hat.readEdge ht w)
    change Pc.reported (if sigstopped w.val then _ else _) = _
    split <;> rfl
  · obtain ⟨hpc, hat⟩ := h.place hen rfl
    obtain ⟨hnext, hat'⟩ := hat.finishEdge ht (beq_iff_eq.mp hans)
    refine h.silent hpc hnext ?_ rfl rfl hat'
    rcases ht with rfl | rfl <;> rfl

/-- **Every step of the protocol** is a step within a test case, or its last. -/
theorem Sequential.step (h : Sequential A cfg reads s tcs x) (hcov : cfg.covType = .hybrid)
    (hdec : cfg.decodingOn = true) {l : Label}
    (hl : (fullSystem A cfg s tcs).enabled x l = true) :
    Sequential A cfg reads s tcs (x.effect A cfg tcs l) := by
  obtain ⟨hen, hans⟩ := Bool.and_eq_true_iff.mp hl
  -- a child run is of the path pass, or of an edge pass
  have hrun (t : Task) (pc : Pc) (hsite : l.site? = some pc)
      (hpc : pc = .start t ∨ pc = .cont t ∨ pc = .wait t ∨ pc = .finish t)
      (hlabel : l = .start t ∨ l = .cont t ∨ (∃ w, l = .readStatus t w) ∨ ∃ o, l = .finish t o) :
      Sequential A cfg reads s tcs (x.effect A cfg tcs l) := by
    rcases (h.place hen hsite).2.task hpc with rfl | ht
    · exact h.path hcov hdec hen hans hlabel
    · exact h.edge ht hen hans hlabel
  cases l with
  | ask w | fsFork pid | fsWritePid | relay w =>
    exact h.silent rfl rfl rfl rfl rfl (h.stage.frame rfl)
  | start t => exact hrun t _ rfl (.inl rfl) (.inl rfl)
  | cont t => exact hrun t _ rfl (.inr (.inl rfl)) (.inr (.inl rfl))
  | readStatus t w => exact hrun t _ rfl (.inr (.inr (.inl rfl))) (.inr (.inr (.inl ⟨w, rfl⟩)))
  | finish t o => exact hrun t _ rfl (.inr (.inr (.inr rfl))) (.inr (.inr (.inr ⟨o, rfl⟩)))
  | endTestcase => exact h.endTestcase hcov hdec (pc_of_enabled hen rfl)
  | readRequest w =>
    obtain ⟨hpc, hat⟩ := h.place hen rfl
    exact h.silent hpc rfl rfl rfl rfl (hat.readRequest w)
  | forward =>
    obtain ⟨hpc, hat⟩ := h.place hen rfl
    exact h.silent hpc rfl rfl rfl rfl hat.forward
  | handed r w =>
    obtain ⟨hpc, hat⟩ := h.place hen rfl
    obtain ⟨hnext, hat'⟩ := hat.handed h.sound hcov r w (beq_iff_eq.mp hans)
    exact h.silent hpc hnext rfl rfl rfl hat'
  | report =>
    obtain ⟨hpc, hat⟩ := h.place hen rfl
    refine h.within rfl hat.report ?_
    -- the pid of the current test case is the word that is written
    have houter := h.outer
    rw [hpc] at houter
    change x.sys.outer ++ [x.sys.proxy.childPid] = _ ++ [_]
    rw [houter, hat.2.2]
    simp [Pc.reported]
  | verdict confirm =>
    obtain ⟨hpc, hat⟩ := h.place hen rfl
    refine h.silent hpc rfl rfl rfl ?_ (hat.verdict (beq_iff_eq.mp hans))
    exact verdict_reported x.sys.proxy confirm
  | fork t =>
    obtain ⟨hpc, hat⟩ := h.place hen rfl
    have hat' := hat.fork
    rcases hat.1.task with rfl | rfl
    · exact h.silent hpc rfl rfl rfl rfl hat'
    · exact h.silent hpc rfl rfl rfl rfl hat'
  | forked t w =>
    obtain ⟨hpc, hat⟩ := h.place hen rfl
    have hat' := hat.forked w
    rcases hat.1.task with rfl | rfl
    · exact h.silent hpc rfl rfl rfl rfl hat'
    · exact h.silent hpc rfl rfl rfl rfl hat'

/-- A run from a sound session. -/
theorem Sequential.of_reachable (hs : s.Sound) (hpc : s.proxy.pc = .request)
    (hcov : cfg.covType = .hybrid) (hdec : cfg.decodingOn = true) (reads : InitReads)
    (hx : (fullSystem A cfg s tcs).machine.Reachable x) : Sequential A cfg reads s tcs x := by
  refine Guarded.invariant hx ?_ fun y l hy hl => hy.step hcov hdec hl
  rintro y ⟨policy, hsys, hsession, hout⟩
  have hproxy : y.sys.proxy = s.proxy := congrArg Sys.proxy hsys
  have hfollows : y.Follows s := by
    refine ⟨?_, ?_, ?_, ?_⟩
    · rw [hproxy]
      exact .refl _
    · exact congrArg Session.hybrid hsession
    · exact congrArg Session.traceBitmap hsession
    · exact congrArg Session.sampleSavedMap hsession
  refine ⟨?_, ?_, ?_, ?_⟩
  · rw [hout]
    exact hs
  · rw [hout]
    rfl
  · rw [hproxy, hpc, hout]
    exact hfollows
  · rw [hproxy, hpc, hout]
    exact congrArg Sys.outer hsys

/-- What AFL++ has seen is what it sees of every longer campaign, up to here. -/
theorem Sequential.prefixes (h : Sequential A cfg reads s tcs x) {m : ℕ}
    (hm : x.outcomes.length < m) :
    x.outcomes <+: (campaignRun A cfg reads s tcs m).2 ∧
      x.sys.outer <+: sent tcs (campaignRun A cfg reads s tcs m).2 := by
  -- one test case more is one outcome more, and two words
  have hmore (k : ℕ) : ∃ o : Outcome n, (campaignRun A cfg reads s tcs (k + 1)).2 =
      (campaignRun A cfg reads s tcs k).2 ++ [o] := by
    rw [campaignRun_succ, testcase_eq]
    exact ⟨_, rfl⟩
  induction m, hm using Nat.le_induction with
  | base =>
    obtain ⟨o, ho⟩ := hmore x.outcomes.length
    rw [Nat.succ_eq_add_one, ho, ← h.outcomes, sent_concat, h.outer]
    refine ⟨List.prefix_append _ _, (List.prefix_append_right_inj _).mpr ?_⟩
    unfold Full.current
    split
    · exact List.prefix_append [_] _
    · exact List.nil_prefix
  | succ k _ ih =>
    obtain ⟨o, ho⟩ := hmore k
    rw [ho, sent_concat]
    exact ⟨ih.1.trans (List.prefix_append _ _), ih.2.trans (List.prefix_append _ _)⟩

end Runs

/-! ### The protocol refines the campaign -/

section Refinement

variable (A : PurgeArith) (cfg : Config) (hcov : cfg.covType = .hybrid)
  (hdec : cfg.decodingOn = true) (policy : CpuPolicy)
  (hpolicy : policy.scalingMinFreq ≤ policy.scalingMaxFreq) (reads : InitReads)
  (hreads : reads.disabled = false →
    0 < reads.cpuinfoMinFreq ∧ reads.cpuinfoMinFreq ≤ reads.cpuinfoMaxFreq)
  (shots : Option (ℕ → Shot)) (pathCls pathKept edgeCls bitmap saved : CovMap n)
  (tcs : ℕ → Testcase n)

include hcov hdec hpolicy hreads in
/-- **One test case after the other.** In hybrid mode, from the first test case on and in
every interleaving of AFL++, the proxy and the forkserver, the test cases that are finished
are those `Session.testcase` makes of them one after the other, the words AFL++ was sent are
their pids and statuses, and between two test cases the proxy, the filter and the maps are
where the campaign has left them. -/
theorem full_sequential {x : Full n}
    (hx : (fullSystem A cfg (.launch cfg policy reads shots pathCls pathKept edgeCls bitmap saved)
      tcs).machine.Reachable x) :
    let start := Session.launch cfg policy reads shots pathCls pathKept edgeCls bitmap saved
    let campaign := campaignRun A cfg reads start tcs x.outcomes.length
    x.outcomes = campaign.2 ∧
      (x.sys.outer = sent tcs campaign.2 ++
        if x.sys.proxy.pc.reported then [(x.current tcs).pid] else []) ∧
      (x.sys.proxy.pc = .request → x.Follows campaign.1) := by
  intro start campaign
  have hsound : start.Sound := .launch hpolicy hreads shots pathCls pathKept edgeCls bitmap saved
  have h := Sequential.of_reachable hsound rfl hcov hdec reads hx
  refine ⟨h.outcomes, ?_, ?_⟩
  · rw [← h.outcomes]
    exact h.outer
  · intro hpc
    have hstage := h.stage
    rw [hpc] at hstage
    exact hstage

include hcov hdec hpolicy hreads in
/-- **Sampling does not show in the protocol.** Two runs of the protocol, one with every
`hybrid_sample`-th discard sampled and one without sampling, each with an interleaving of
its own: what AFL++ has seen of the one continues what it has seen of the other. -/
theorem full_sampling_unseen (hedge : reads.disabled = false → ∀ k, (tcs k).Unhurried)
    {x y : Full n}
    (hx : (fullSystem A cfg (.launch cfg policy reads shots pathCls pathKept edgeCls bitmap saved)
      tcs).machine.Reachable x)
    (hy : (fullSystem A { cfg with hybridSample := 0 }
      (.launch { cfg with hybridSample := 0 } policy reads shots pathCls pathKept edgeCls bitmap
        saved) tcs).machine.Reachable y) :
    (x.outcomes <+: y.outcomes ∨ y.outcomes <+: x.outcomes) ∧
      (x.sys.outer <+: y.sys.outer ∨ y.sys.outer <+: x.sys.outer) := by
  let start := Session.launch cfg policy reads shots pathCls pathKept edgeCls bitmap saved
  have hsound : start.Sound := .launch hpolicy hreads shots pathCls pathKept edgeCls bitmap saved
  have hoff : ({ cfg with hybridSample := 0 } : Config).covType = .hybrid := hcov
  have habreast : Abreast (!reads.disabled) start start :=
    ⟨hsound, hsound, ⟨rfl, rfl, rfl, rfl⟩, launchGov_enabled policy reads shots⟩
  -- a campaign that is longer than both
  let m := max x.outcomes.length y.outcomes.length + 1
  have hsteady : (!reads.disabled) = true → ∀ tc ∈ (List.range m).map tcs, tc.Unhurried := by
    intro hon tc htc
    obtain ⟨k, -, rfl⟩ := List.mem_map.mp htc
    exact hedge (by simpa using hon) k
  have hsame := habreast.campaign A hcov hdec reads hsteady
  obtain ⟨hxo, hxw⟩ := (Sequential.of_reachable hsound rfl hcov hdec reads hx).prefixes (m := m)
    (Nat.lt_succ_of_le (le_max_left _ _))
  obtain ⟨hyo, hyw⟩ := (Sequential.of_reachable hsound rfl hoff hdec reads hy).prefixes (m := m)
    (Nat.lt_succ_of_le (le_max_right _ _))
  unfold campaignRun at hxo hxw hyo hyw
  rw [hsame] at hxo hxw
  exact ⟨List.prefix_or_prefix_of_prefix hxo hyo, List.prefix_or_prefix_of_prefix hxw hyw⟩

end Refinement

/-! ### A run with a sample -/

/-- A path that is confirmed, and then met again. -/
def sameAgain (_ : ℕ) : Testcase 1 := hitting 1 fun _ => .counting 1 false

/-- The protocol at the start of its campaign. -/
def sameAgainStart : Full 1 where
  sys :=
    { Sys.initial sampleAll ⟨408000, 1200000, 0, "schedutil"⟩ with proxy := sampleAllStart.proxy }
  hybrid := sampleAllStart.hybrid
  traceBitmap := sampleAllStart.traceBitmap
  sampleSavedMap := sampleAllStart.sampleSavedMap
  overflowed := false
  policy := ⟨408000, 1200000, 0, "schedutil"⟩
  judged := none
  outcomes := []

/-- A child run. The child is stopped once more before it exits. -/
def childSteps (t : Task) (child : ℕ) (overflowed : Bool) : List Label :=
  [.relay 0x137f, .readStatus t ⟨0x137f, false, child⟩, .relay 0,
    .readStatus t ⟨0, false, child⟩, .finish t overflowed]

/-- The path pass of a test case. -/
def pathSteps (child : ℕ) : List Label :=
  [.readRequest 0, .forward, .fsFork 100, .fsWritePid, .handed unlistedReads ⟨100, true, child⟩,
      .start (.attempt true), .report, .cont (.attempt true)] ++
    childSteps (.attempt true) child false

/-- The edge pass after it, and the status. -/
def edgeSteps (t : Task) (child : ℕ) (overflowed : Bool) : List Label :=
  [.verdict (t == .confirm), .fork t, .fsFork 101, .fsWritePid, .forked t ⟨101, true, child⟩,
      .start t, .cont t] ++
    childSteps t child overflowed ++ [.endTestcase]

/-- The first test case. The request for the second is written ahead. -/
def confirmedSteps : List Label := [.ask 0, .ask 0] ++ pathSteps 1 ++ edgeSteps .confirm 2 false

/-- The second test case, which is sampled. -/
def sampledSteps : List Label := pathSteps 3 ++ edgeSteps .sample 4 true

/-- The protocol of the campaign, with every `N`-th discard sampled. -/
def sameAgainSystem (N : ℕ) : Guarded (Full 1) Label :=
  fullSystem .exact { sampleAll with hybridSample := N } sampleAllStart sameAgain

theorem sameAgain_reachable {N : ℕ} {ls : List Label}
    (h : (sameAgainSystem N).applicable sameAgainStart ls = true) :
    (sameAgainSystem N).machine.Reachable ((sameAgainSystem N).run sameAgainStart ls) :=
  Guarded.reachable_of_applicable
    (.of_init ⟨⟨408000, 1200000, 0, "schedutil"⟩, rfl, rfl, rfl⟩) h

/-- The run with both test cases is the campaign of the two. -/
theorem full_sequential_sampled :
    let x := (sameAgainSystem 1).run sameAgainStart (confirmedSteps ++ sampledSteps)
    x.outcomes = (campaignRun .exact sampleAll unlistedReads sampleAllStart sameAgain 2).2 ∧
      x.sys.outer = [100, 0, 100, 0] := by
  intro x
  have hx : (sameAgainSystem 1).machine.Reachable x := sameAgain_reachable (by decide +kernel)
  have hlen : x.outcomes.length = 2 := by decide +kernel
  obtain ⟨hout, -, -⟩ := full_sequential (n := 1) .exact sampleAll rfl rfl
    ⟨408000, 1200000, 0, "schedutil"⟩ (by decide) unlistedReads (fun _ => by decide) none
    (fun _ => 0) (fun _ => 0) (fun _ => 0) (fun _ => 0) (fun _ => 0) sameAgain hx
  rw [hlen] at hout
  exact ⟨hout, by decide +kernel⟩

/-- Without sampling, the run may be in the middle of the second test case. -/
theorem full_sampling_unseen_sampled :
    let x := (sameAgainSystem 1).run sameAgainStart (confirmedSteps ++ sampledSteps)
    let y := (sameAgainSystem 0).run sameAgainStart (confirmedSteps ++ pathSteps 3)
    (x.sys.outer <+: y.sys.outer ∨ y.sys.outer <+: x.sys.outer) ∧
      y.sys.outer = [100, 0, 100] := by
  intro x y
  have hx : (sameAgainSystem 1).machine.Reachable x := sameAgain_reachable (by decide +kernel)
  have hy : (sameAgainSystem 0).machine.Reachable y := sameAgain_reachable (by decide +kernel)
  obtain ⟨-, hwords⟩ := full_sampling_unseen (n := 1) .exact sampleAll rfl rfl
    ⟨408000, 1200000, 0, "schedutil"⟩ (by decide) unlistedReads (fun _ => by decide) none
    (fun _ => 0) (fun _ => 0) (fun _ => 0) (fun _ => 0) (fun _ => 0) sameAgain
    (fun _ _ _ _ => rfl) hx hy
  exact ⟨hwords, by decide +kernel⟩

end CsProxy
end CsTrace
