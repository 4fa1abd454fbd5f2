import CoresightTrace.Proxy.Measured
import CoresightTrace.Proxy.Protocol

/-!
# The protocol with the maps

`Proxy/Protocol.lean` has the three parties and their pipes, a step for each call, but no
maps; `Proxy/Measured.lean` has the maps and the filter, but takes a test case of hybrid mode
at once. Here the two are put together: `fullSystem` is the protocol with the filter and the
maps, in which the runs of the target answer as the test cases say. Its steps interleave as
those of the protocol do. AFL++ may write requests ahead, a child may be stopped and
continued any number of times, and the forkserver works behind the proxy.

The state in the middle of a test case is described by how far `Session.testcase` has come
(`Full.At`), and every step is shown to go on from there. The proxy agrees with the session
but for what was read last from a pipe (`Proxy.Agrees`).
-/

namespace CsTrace
namespace CsProxy

open Governor Hybrid

variable {n : ℕ}

/-! ### The protocol with the maps -/

/-- The three parties, with the filter, the maps and what `main()` keeps of the path pass. -/
structure Full (n : ℕ) where
  sys : Sys
  hybrid : State n
  traceBitmap : CovMap n
  sampleSavedMap : CovMap n
  /-- `overflowed` of `main()`. -/
  overflowed : Bool
  /-- History: the policy the last path pass ran under. -/
  policy : CpuPolicy
  /-- History: the verdict on the current test case, if there was one. -/
  judged : Option HybridVerdict
  /-- History: the test cases whose status was written. -/
  outcomes : List (Outcome n)

/-- The run of the target for each purpose. -/
def Testcase.runOf (tc : Testcase n) : Task → CpuPolicy → RunResult n
  | .confirm => tc.confirm
  | .sample => tc.sample
  | _ => tc.path

/-- The test case the proxy is at. -/
def Full.current (tcs : ℕ → Testcase n) (x : Full n) : Testcase n := tcs x.outcomes.length

/-- The run that the child is in. -/
def Full.runOf (tcs : ℕ → Testcase n) (x : Full n) (t : Task) : RunResult n :=
  (x.current tcs).runOf t x.sys.proxy.gov.policy

/-- `hybrid_after_path()`. -/
def Full.pathResult (A : PurgeArith) (tcs : ℕ → Testcase n) (x : Full n) : PathResult n :=
  hybridAfterPath (sourcePolicy A) x.traceBitmap x.overflowed (x.current tcs).inputKey x.hybrid

/-- The answers are those of the test case. -/
def Full.answers (A : PurgeArith) (tcs : ℕ → Testcase n) (x : Full n) : Label → Bool
  | .handed _ w => w.val == (x.current tcs).pid
  -- a child may be stopped and continued before it ends
  | .readStatus t w => sigstopped w.val || w.val == (x.runOf tcs t).status
  | .finish t o => o == (x.runOf tcs t).overflowed
  | .verdict confirm => confirm == decide ((x.pathResult A tcs).verdict = .confirm)
  | _ => true

/-- What the decode of a run is used for. -/
def Full.decoded (A : PurgeArith) (cfg : Config) (tcs : ℕ → Testcase n) (x : Full n) (t : Task)
    (o : Bool) : Full n :=
  let map := (x.runOf tcs t).decode x.traceBitmap
  match t with
  | .confirm =>
    { x with traceBitmap := map, hybrid := hybridAfterConfirm (sourcePolicy A) map o x.hybrid }
  | .sample =>
    { x with traceBitmap := x.sampleSavedMap, hybrid := hybridAfterSample map o x.hybrid }
  | _ => { x with traceBitmap := map, overflowed := cfg.decodingOn && o, judged := none }

/-- The state a step leads to. -/
def Full.effect (A : PurgeArith) (cfg : Config) (tcs : ℕ → Testcase n) (x : Full n) (l : Label) :
    Full n :=
  let sys := CsProxy.effect cfg x.sys l
  match l with
  | .readRequest _ => { x with sys, traceBitmap := (x.current tcs).prepare x.traceBitmap }
  | .start (.attempt true) => { x with sys, policy := sys.proxy.gov.policy }
  | .fork .sample => { x with sys, sampleSavedMap := x.traceBitmap }
  | .finish t o => { x.decoded A cfg tcs t o with sys }
  | .verdict _ =>
    let r := x.pathResult A tcs
    { x with sys, hybrid := r.st, traceBitmap := r.map, judged := some r.verdict }
  | .endTestcase =>
    { x with
      sys
      outcomes := x.outcomes ++ [⟨x.policy, x.judged, x.sys.proxy.status, x.traceBitmap⟩] }
  | _ => { x with sys }

/-- The session in a state. -/
def Full.session (x : Full n) : Session n :=
  ⟨x.sys.proxy, x.hybrid, x.traceBitmap, x.sampleSavedMap⟩

/-- The protocol of a campaign that starts with `s`, with nothing in the pipes. -/
def fullSystem (A : PurgeArith) (cfg : Config) (s : Session n) (tcs : ℕ → Testcase n) :
    Guarded (Full n) Label where
  init x := ∃ policy, x.sys = { Sys.initial cfg policy with proxy := s.proxy } ∧
    x.session = s ∧ x.outcomes = []
  enabled x l := enabled x.sys l && x.answers A tcs l
  effect x l := x.effect A cfg tcs l

/-! ### Agreement -/

/-- The proxies agree, but for where they are and for what was read last. -/
def Proxy.Agrees (p q : Proxy) : Prop :=
  p = { q with
    pc := p.pc
    childPid := p.childPid
    wasKilled := p.wasKilled
    waitStatus := p.waitStatus }

theorem Proxy.Agrees.refl (p : Proxy) : p.Agrees p := rfl

/-- A function that does not look at these keeps agreement. -/
theorem Proxy.Agrees.congr {p q : Proxy} (h : p.Agrees q) {f : Proxy → Proxy}
    (hf : ∀ pc pid w ws,
      (f { q with pc := pc, childPid := pid, wasKilled := w, waitStatus := ws }).Agrees (f q)) :
    (f p).Agrees (f q) := by
  unfold Agrees at h
  rw [h]
  exact hf _ _ _ _

theorem Proxy.Agrees.goto {p q : Proxy} (h : p.Agrees q) (pc : Pc) : (p.goto pc).Agrees q := by
  unfold Agrees at h
  rw [h]
  rfl

theorem Proxy.Agrees.gov {p q : Proxy} (h : p.Agrees q) : p.gov = q.gov := by
  unfold Agrees at h
  rw [h]

theorem Proxy.Agrees.status {p q : Proxy} (h : p.Agrees q) : p.status = q.status := by
  unfold Agrees at h
  rw [h]

theorem Proxy.Agrees.start {p q : Proxy} (h : p.Agrees q) (cfg : Config) (t : Task) :
    (p.start cfg t).Agrees (q.start cfg t) :=
  h.congr (f := fun p => p.start cfg t) fun _ _ _ _ => rfl

theorem Proxy.Agrees.endTestcase {p q : Proxy} (h : p.Agrees q) (cfg : Config) :
    (p.endTestcase cfg).Agrees (q.endTestcase cfg) :=
  h.congr (f := fun p => p.endTestcase cfg) fun _ _ _ _ => rfl

/-- The verdict is taken alike, and leads to the same place. -/
theorem Proxy.Agrees.verdict {p q : Proxy} (h : p.Agrees q) (cfg : Config) (confirm : Bool) :
    (p.verdict cfg confirm).Agrees (q.verdict cfg confirm) ∧
      (p.verdict cfg confirm).pc = (q.verdict cfg confirm).pc := by
  unfold Agrees at h
  rw [h]
  cases confirm with
  | true => exact ⟨rfl, rfl⟩
  | false =>
    rw [(verdict_cases cfg _).2, (verdict_cases cfg _).2]
    exact ⟨rfl, rfl⟩

/-- A run is finished alike. The status of a path pass is what was read. -/
theorem Proxy.Agrees.finish {p q : Proxy} (h : p.Agrees q) {w : Raw} (cfg : Config) {t : Task}
    (ht : t = .attempt true ∧ p.waitStatus = w ∨ t = .confirm ∨ t = .sample) (o : Bool) :
    (p.finish cfg t o).Agrees (({ q with waitStatus := w } : Proxy).finish cfg t o) ∧
      (p.finish cfg t o).pc = (({ q with waitStatus := w } : Proxy).finish cfg t o).pc := by
  unfold Agrees at h
  rcases ht with ⟨rfl, hw⟩ | rfl | rfl
  · rw [hw] at h
    rw [h]
    unfold Proxy.finish Proxy.count
    dsimp only
    generalize endAttempt q.gov cfg.currentFreqMode q.curRepetitionNum q.forcedMinDone
      (cfg.decodingOn && o) = after
    cases after.2 <;> exact ⟨rfl, rfl⟩
  · rw [h]
    exact ⟨rfl, rfl⟩
  · rw [h]
    exact ⟨rfl, rfl⟩

/-- A state agrees with a session. -/
structure Full.Follows (x : Full n) (s : Session n) : Prop where
  proxy : x.sys.proxy.Agrees s.proxy
  hybrid : x.hybrid = s.hybrid
  map : x.traceBitmap = s.traceBitmap
  saved : x.sampleSavedMap = s.sampleSavedMap

/-! ### How far a test case has come -/

section Stages

variable (A : PurgeArith) (cfg : Config) (reads : InitReads) (tc : Testcase n) (s : Session n)

/-- The policy of the path pass. -/
def Session.pathPolicy : CpuPolicy := (s.handed cfg reads tc).policyOf cfg (.attempt true)

/-- The session after the path pass. -/
def Session.afterPath : Session n :=
  (s.handed cfg reads tc).childRun cfg (.attempt true) (tc.path (s.pathPolicy cfg reads tc))

/-- What `hybrid_after_path()` says of it. -/
def Session.pathResult : PathResult n :=
  hybridAfterPath (sourcePolicy A) (s.afterPath cfg reads tc).traceBitmap
    (cfg.decodingOn && (tc.path (s.pathPolicy cfg reads tc)).overflowed) tc.inputKey
    (s.afterPath cfg reads tc).hybrid

/-- The session after the verdict. -/
def Session.afterVerdict : Session n :=
  (s.afterPath cfg reads tc).judged cfg (s.pathResult A cfg reads tc)

/-- The session when the status is reported, with the verdict if there was one. -/
def Session.beforeEnd : Session n × Option HybridVerdict :=
  if (s.afterPath cfg reads tc).proxy.pc = .verdict then
    let b := (s.afterPath cfg reads tc).hybridBranch A cfg tc
      (cfg.decodingOn && (tc.path (s.pathPolicy cfg reads tc)).overflowed)
    (b.1, some b.2)
  else (s.afterPath cfg reads tc, none)

theorem testcase_eq :
    s.testcase A cfg reads tc =
      ({ (s.beforeEnd A cfg reads tc).1 with
          proxy := (s.beforeEnd A cfg reads tc).1.proxy.endTestcase cfg },
        [⟨s.pathPolicy cfg reads tc, (s.beforeEnd A cfg reads tc).2,
          (s.beforeEnd A cfg reads tc).1.proxy.status,
          (s.beforeEnd A cfg reads tc).1.traceBitmap⟩]) := rfl

/-- After a verdict there is an edge pass, or none. -/
theorem beforeEnd_of_verdict (h : (s.afterPath cfg reads tc).proxy.pc = .verdict) :
    s.beforeEnd A cfg reads tc =
      (if (s.afterVerdict A cfg reads tc).proxy.pc = .fork .confirm then
          (s.afterVerdict A cfg reads tc).confirmWithBranchBroadcast A cfg tc.confirm
        else if (s.afterVerdict A cfg reads tc).proxy.pc = .fork .sample then
          (s.afterVerdict A cfg reads tc).sampleWithBranchBroadcast cfg tc.sample
        else s.afterVerdict A cfg reads tc,
        some (s.pathResult A cfg reads tc).verdict) := by
  unfold Session.beforeEnd
  rw [if_pos h]
  rfl

/-- Where a verdict leads. -/
theorem afterVerdict_pc :
    (s.afterVerdict A cfg reads tc).proxy.pc = .fork .confirm ∨
      (s.afterVerdict A cfg reads tc).proxy.pc = .fork .sample ∨
      (s.afterVerdict A cfg reads tc).proxy.pc = .endTestcase := by
  change (Proxy.verdict cfg _ _).pc = _ ∨ (Proxy.verdict cfg _ _).pc = _ ∨
    (Proxy.verdict cfg _ _).pc = _
  cases decide ((s.pathResult A cfg reads tc).verdict = .confirm) with
  | true => exact .inl rfl
  | false =>
    rw [(verdict_cases cfg _).2]
    dsimp only
    split
    · exact .inr (.inl rfl)
    · exact .inr (.inr rfl)

/-- The session in an edge pass: a child is asked for, and the map saved for a sample. -/
def Session.edgeReady (t : Task) : Session n :=
  if t = .sample then { s with sampleSavedMap := s.traceBitmap } else s

/-- The proxy has started a child. -/
def Session.started (t : Task) : Session n := { s with proxy := s.proxy.start cfg t }

end Stages

/-- What is kept of the path pass while the edge pass `t` is made. -/
structure Full.InEdge (A : PurgeArith) (cfg : Config) (reads : InitReads) (tc : Testcase n)
    (s : Session n) (x : Full n) (t : Task) : Prop where
  task : t = .confirm ∨ t = .sample
  verdict : (s.afterPath cfg reads tc).proxy.pc = .verdict
  forks : (s.afterVerdict A cfg reads tc).proxy.pc = .fork t
  policy : x.policy = s.pathPolicy cfg reads tc
  judged : x.judged = some (s.pathResult A cfg reads tc).verdict

/-- The state in the middle of the test case `tc`, begun with `s`. -/
def Full.At (A : PurgeArith) (cfg : Config) (reads : InitReads) (tc : Testcase n)
    (s : Session n) (x : Full n) : Pc → Prop
  | .request => x.Follows s
  | .forward | .handed => x.Follows { s with traceBitmap := tc.prepare s.traceBitmap }
  | .start (.attempt true) => x.Follows (s.handed cfg reads tc) ∧ x.sys.proxy.childPid = tc.pid
  | .report =>
    x.Follows ((s.handed cfg reads tc).started cfg (.attempt true)) ∧
      x.policy = s.pathPolicy cfg reads tc ∧ x.sys.proxy.childPid = tc.pid
  | .cont (.attempt true) | .wait (.attempt true) =>
    x.Follows ((s.handed cfg reads tc).started cfg (.attempt true)) ∧
      x.policy = s.pathPolicy cfg reads tc
  | .finish (.attempt true) =>
    x.Follows ((s.handed cfg reads tc).started cfg (.attempt true)) ∧
      x.policy = s.pathPolicy cfg reads tc ∧
      x.sys.proxy.waitStatus = (tc.path (s.pathPolicy cfg reads tc)).status
  | .verdict =>
    x.Follows (s.afterPath cfg reads tc) ∧ x.policy = s.pathPolicy cfg reads tc ∧
      (s.afterPath cfg reads tc).proxy.pc = .verdict ∧
      x.overflowed = (cfg.decodingOn && (tc.path (s.pathPolicy cfg reads tc)).overflowed)
  | .fork t => x.InEdge A cfg reads tc s t ∧ x.Follows (s.afterVerdict A cfg reads tc)
  | .forked t | .start t =>
    x.InEdge A cfg reads tc s t ∧ x.Follows ((s.afterVerdict A cfg reads tc).edgeReady t)
  | .cont t | .wait t | .finish t =>
    x.InEdge A cfg reads tc s t ∧
      x.Follows (((s.afterVerdict A cfg reads tc).edgeReady t).started cfg t)
  | .endTestcase =>
    x.Follows (s.beforeEnd A cfg reads tc).1 ∧ x.policy = s.pathPolicy cfg reads tc ∧
      x.judged = (s.beforeEnd A cfg reads tc).2

/-! ### Steps -/

section Steps

variable {A : PurgeArith} {cfg : Config} {reads : InitReads} {tcs : ℕ → Testcase n}
  {s : Session n} {x : Full n}

/-- A request is read, and handed on. -/
theorem Full.At.readRequest (h : x.At A cfg reads (x.current tcs) s .request) (w : Raw) :
    (x.effect A cfg tcs (.readRequest w)).At A cfg reads (x.current tcs) s .forward := by
  have hf : x.Follows s := h
  refine ⟨?_, hf.hybrid, congrArg _ hf.map, hf.saved⟩
  exact hf.proxy.congr (f := fun p => { p with pc := .forward, wasKilled := w })
    fun _ _ _ _ => rfl

theorem Full.At.forward (h : x.At A cfg reads (x.current tcs) s .forward) :
    (x.effect A cfg tcs .forward).At A cfg reads (x.current tcs) s .handed := by
  have hf : x.Follows { s with traceBitmap := (x.current tcs).prepare s.traceBitmap } := h
  exact ⟨hf.proxy.goto .handed, hf.hybrid, hf.map, hf.saved⟩

/-- The child is handed over, and launched: the ramps are over. -/
theorem Full.At.handed (hs : s.Sound) (hcov : cfg.covType = .hybrid)
    (h : x.At A cfg reads (x.current tcs) s .handed) (r : InitReads) (w : Word)
    (hw : w.val = (x.current tcs).pid) :
    (x.effect A cfg tcs (.handed r w)).sys.proxy.pc = .start (.attempt true) ∧
      (x.effect A cfg tcs (.handed r w)).At A cfg reads (x.current tcs) s
        (.start (.attempt true)) := by
  have hf : x.Follows { s with traceBitmap := (x.current tcs).prepare s.traceBitmap } := h
  have hp : x.sys.proxy = { s.proxy with
      pc := x.sys.proxy.pc
      childPid := x.sys.proxy.childPid
      wasKilled := x.sys.proxy.wasKilled
      waitStatus := x.sys.proxy.waitStatus } := hf.proxy
  have hfirst : x.sys.proxy.firstRun = false := by rw [hp]; exact hs.initialized
  have hcal : x.sys.proxy.needsCalibration = false := by rw [hp]; exact hs.calibrated
  have hlaunch := handed_launched hfirst hcal hcov r w.val
  have hlaunch' := handed_launched hs.initialized hs.calibrated hcov reads (x.current tcs).pid
  have hagrees : (x.sys.proxy.handed cfg r w.val).Agrees
      (s.proxy.handed cfg reads (x.current tcs).pid) := by
    rw [hlaunch, hlaunch', hp]
    rfl
  refine ⟨congrArg Proxy.pc hlaunch, ⟨hagrees, hf.hybrid, hf.map, hf.saved⟩, ?_⟩
  rw [← hw]
  exact congrArg Proxy.childPid hlaunch

/-- The path pass is started under its policy. -/
theorem Full.At.startPath (h : x.At A cfg reads (x.current tcs) s (.start (.attempt true))) :
    (x.effect A cfg tcs (.start (.attempt true))).At A cfg reads (x.current tcs) s .report := by
  obtain ⟨hf, hpid⟩ := h
  have hstart := hf.proxy.start cfg (.attempt true)
  exact ⟨⟨hstart, hf.hybrid, hf.map, hf.saved⟩, congrArg FreqGov.policy hstart.gov, hpid⟩

theorem Full.At.report (h : x.At A cfg reads (x.current tcs) s .report) :
    (x.effect A cfg tcs .report).At A cfg reads (x.current tcs) s (.cont (.attempt true)) := by
  obtain ⟨hf, hpolicy, -⟩ := h
  exact ⟨⟨hf.proxy.goto _, hf.hybrid, hf.map, hf.saved⟩, hpolicy⟩

theorem Full.At.contPath (h : x.At A cfg reads (x.current tcs) s (.cont (.attempt true))) :
    (x.effect A cfg tcs (.cont (.attempt true))).At A cfg reads (x.current tcs) s
      (.wait (.attempt true)) := by
  obtain ⟨hf, hpolicy⟩ := h
  exact ⟨⟨hf.proxy.goto _, hf.hybrid, hf.map, hf.saved⟩, hpolicy⟩

/-- The run of the path pass is that under its policy. -/
theorem runOf_path (hf : x.Follows ((s.handed cfg reads (x.current tcs)).started cfg
    (.attempt true))) :
    x.runOf tcs (.attempt true) = (x.current tcs).path (s.pathPolicy cfg reads (x.current tcs)) :=
  congrArg (fun g : FreqGov => (x.current tcs).path g.policy) hf.proxy.gov

/-- A status is read. It is the last one unless it is a stop. -/
theorem Full.At.readPath (h : x.At A cfg reads (x.current tcs) s (.wait (.attempt true)))
    (w : Word) (hw : (sigstopped w.val || w.val == (x.runOf tcs (.attempt true)).status) = true) :
    (x.effect A cfg tcs (.readStatus (.attempt true) w)).At A cfg reads (x.current tcs) s
      (x.effect A cfg tcs (.readStatus (.attempt true) w)).sys.proxy.pc := by
  obtain ⟨hf, hpolicy⟩ := h
  have hread (pc : Pc) : ({ x.sys.proxy with waitStatus := w.val, pc := pc } : Proxy).Agrees
      ((s.handed cfg reads (x.current tcs)).started cfg (.attempt true)).proxy :=
    hf.proxy.congr (f := fun p => { p with waitStatus := w.val, pc := pc }) fun _ _ _ _ => rfl
  change At _ _ _ _ _ _ (if sigstopped w.val then .wait (.attempt true)
    else .finish (.attempt true))
  cases hstop : sigstopped w.val with
  | true => exact ⟨⟨hread _, hf.hybrid, hf.map, hf.saved⟩, hpolicy⟩
  | false =>
    rw [hstop, Bool.false_or, beq_iff_eq, runOf_path hf] at hw
    exact ⟨⟨hread _, hf.hybrid, hf.map, hf.saved⟩, hpolicy, hw⟩

/-- The path pass is over: its map is judged, unless the child was killed. -/
theorem Full.At.finishPath (hs : s.Sound) (hcov : cfg.covType = .hybrid)
    (hdec : cfg.decodingOn = true)
    (h : x.At A cfg reads (x.current tcs) s (.finish (.attempt true))) {o : Bool}
    (ho : o = (x.runOf tcs (.attempt true)).overflowed) :
    (x.effect A cfg tcs (.finish (.attempt true) o)).At A cfg reads (x.current tcs) s
      (x.effect A cfg tcs (.finish (.attempt true) o)).sys.proxy.pc := by
  obtain ⟨hf, hpolicy, hwait⟩ := h
  have hrun := runOf_path hf
  rw [hrun] at ho
  obtain ⟨hagrees, hpc⟩ := hf.proxy.finish cfg (.inl ⟨rfl, hwait⟩) o
  rw [ho] at hagrees hpc ⊢
  have hmap : (x.runOf tcs (.attempt true)).decode x.traceBitmap =
      (s.afterPath cfg reads (x.current tcs)).traceBitmap := by
    rw [hrun, hf.map]
    rfl
  have hnext : (x.effect A cfg tcs (.finish (.attempt true)
      ((x.current tcs).path (s.pathPolicy cfg reads (x.current tcs))).overflowed)).Follows
      (s.afterPath cfg reads (x.current tcs)) := ⟨hagrees, hf.hybrid, hmap, hf.saved⟩
  obtain ⟨-, -, hpath⟩ := hs.path hcov hdec reads (x.current tcs)
    ((x.current tcs).path (s.pathPolicy cfg reads (x.current tcs)))
  have hplace := congrArg (fun t : Session n => t.proxy.pc) hpath
  change (s.afterPath cfg reads (x.current tcs)).proxy.pc = if _ then _ else _ at hplace
  change At _ _ _ _ _ _ (Proxy.finish _ _ _ _).pc
  rw [hpc]
  change At _ _ _ _ _ _ (s.afterPath cfg reads (x.current tcs)).proxy.pc
  split at hplace
  · -- a crash or a timeout keeps its path map
    rw [hplace]
    refine ⟨?_, hpolicy, ?_⟩
    · unfold Session.beforeEnd
      rw [hplace, if_neg (by rintro ⟨⟩)]
      exact hnext
    · unfold Session.beforeEnd
      rw [hplace, if_neg (by rintro ⟨⟩)]
      rfl
  · rw [hplace]
    exact ⟨hnext, hpolicy, hplace, rfl⟩

/-- The filter sees the map of the path pass, and its verdict is taken. -/
theorem Full.At.verdict (h : x.At A cfg reads (x.current tcs) s .verdict) {confirm : Bool}
    (hconfirm : confirm = decide ((x.pathResult A tcs).verdict = .confirm)) :
    (x.effect A cfg tcs (.verdict confirm)).At A cfg reads (x.current tcs) s
      (x.effect A cfg tcs (.verdict confirm)).sys.proxy.pc := by
  obtain ⟨hf, hpolicy, hplace, hover⟩ := h
  have hresult : x.pathResult A tcs = s.pathResult A cfg reads (x.current tcs) := by
    unfold Full.pathResult Session.pathResult
    rw [hf.map, hf.hybrid, hover]
  rw [hresult] at hconfirm
  obtain ⟨hagrees, hpc⟩ := hf.proxy.verdict cfg confirm
  have hnext : (x.effect A cfg tcs (.verdict confirm)).Follows
      (s.afterVerdict A cfg reads (x.current tcs)) := by
    rw [hconfirm] at hagrees ⊢
    exact ⟨hagrees, congrArg PathResult.st hresult, congrArg PathResult.map hresult, hf.saved⟩
  have hjudged : (x.effect A cfg tcs (.verdict confirm)).judged =
      some (s.pathResult A cfg reads (x.current tcs)).verdict :=
    congrArg (fun r : PathResult n => some r.verdict) hresult
  have hedge (t : Task) (ht : t = .confirm ∨ t = .sample)
      (hfork : (s.afterVerdict A cfg reads (x.current tcs)).proxy.pc = .fork t) :
      (x.effect A cfg tcs (.verdict confirm)).At A cfg reads (x.current tcs) s (.fork t) :=
    ⟨⟨ht, hplace, hfork, hpolicy, hjudged⟩, hnext⟩
  have hafter : (s.afterVerdict A cfg reads (x.current tcs)).proxy.pc =
      (x.effect A cfg tcs (.verdict confirm)).sys.proxy.pc := by
    rw [hconfirm] at hpc ⊢
    exact hpc.symm
  rw [← hafter]
  rcases afterVerdict_pc A cfg reads (x.current tcs) s with hfork | hfork | hend
  · rw [hfork]
    exact hedge .confirm (.inl rfl) hfork
  · rw [hfork]
    exact hedge .sample (.inr rfl) hfork
  · have hbefore : s.beforeEnd A cfg reads (x.current tcs) =
        (s.afterVerdict A cfg reads (x.current tcs),
          some (s.pathResult A cfg reads (x.current tcs)).verdict) := by
      rw [beforeEnd_of_verdict A cfg reads (x.current tcs) s hplace, hend]
      rfl
    rw [hend]
    refine ⟨?_, hpolicy, ?_⟩
    · rw [hbefore]
      exact hnext
    · rw [hbefore]
      exact hjudged

/-- What is kept of the path pass stays. -/
theorem Full.InEdge.keep {t : Task} {tc : Testcase n} {y : Full n}
    (h : x.InEdge A cfg reads tc s t) (hpolicy : y.policy = x.policy)
    (hjudged : y.judged = x.judged) : y.InEdge A cfg reads tc s t :=
  ⟨h.task, h.verdict, h.forks, hpolicy.trans h.policy, hjudged.trans h.judged⟩

/-- The places of an edge pass. -/
theorem Full.at_edge {t : Task} (ht : t = .confirm ∨ t = .sample) {tc : Testcase n} :
    (x.At A cfg reads tc s (.start t) ↔ x.InEdge A cfg reads tc s t ∧
        x.Follows ((s.afterVerdict A cfg reads tc).edgeReady t)) ∧
      ∀ pc, pc = .cont t ∨ pc = .wait t ∨ pc = .finish t →
        (x.At A cfg reads tc s pc ↔ x.InEdge A cfg reads tc s t ∧
          x.Follows (((s.afterVerdict A cfg reads tc).edgeReady t).started cfg t)) := by
  rcases ht with rfl | rfl
  · refine ⟨Iff.rfl, ?_⟩
    rintro _ (rfl | rfl | rfl) <;> rfl
  · refine ⟨Iff.rfl, ?_⟩
    rintro _ (rfl | rfl | rfl) <;> rfl

/-- A child is asked for. The map is saved in front of a sample. -/
theorem Full.At.fork {t : Task} (h : x.At A cfg reads (x.current tcs) s (.fork t)) :
    (x.effect A cfg tcs (.fork t)).At A cfg reads (x.current tcs) s (.forked t) := by
  obtain ⟨hedge, hf⟩ := h
  have hgoto := hf.proxy.goto (.forked t)
  rcases hedge.task with rfl | rfl
  · exact ⟨hedge.keep rfl rfl, hgoto, hf.hybrid, hf.map, hf.saved⟩
  · exact ⟨hedge.keep rfl rfl, hgoto, hf.hybrid, hf.map, hf.map⟩

theorem Full.At.forked {t : Task} (h : x.At A cfg reads (x.current tcs) s (.forked t))
    (w : Word) :
    (x.effect A cfg tcs (.forked t w)).At A cfg reads (x.current tcs) s (.start t) := by
  obtain ⟨hedge, hf⟩ := h
  have hread : ({ x.sys.proxy with pc := .start t, childPid := w.val } : Proxy).Agrees
      ((s.afterVerdict A cfg reads (x.current tcs)).edgeReady t).proxy :=
    hf.proxy.congr (f := fun p => { p with pc := .start t, childPid := w.val }) fun _ _ _ _ => rfl
  exact (at_edge hedge.task).1.mpr ⟨hedge.keep rfl rfl, hread, hf.hybrid, hf.map, hf.saved⟩

theorem Full.At.startEdge {t : Task} (ht : t = .confirm ∨ t = .sample)
    (h : x.At A cfg reads (x.current tcs) s (.start t)) :
    (x.effect A cfg tcs (.start t)).sys.proxy.pc = .cont t ∧
      (x.effect A cfg tcs (.start t)).At A cfg reads (x.current tcs) s (.cont t) := by
  obtain ⟨hedge, hf⟩ := (at_edge ht).1.mp h
  have heffect : x.effect A cfg tcs (.start t) =
      { x with sys := CsProxy.effect cfg x.sys (.start t) } := by
    rcases ht with rfl | rfl <;> rfl
  have hpc : (x.sys.proxy.start cfg t).pc = .cont t := by
    rcases ht with rfl | rfl <;> rfl
  rw [heffect]
  exact ⟨hpc, ((at_edge ht).2 _ (.inl rfl)).mpr
    ⟨hedge.keep rfl rfl, hf.proxy.start cfg t, hf.hybrid, hf.map, hf.saved⟩⟩

theorem Full.At.contEdge {t : Task} (ht : t = .confirm ∨ t = .sample)
    (h : x.At A cfg reads (x.current tcs) s (.cont t)) :
    (x.effect A cfg tcs (.cont t)).At A cfg reads (x.current tcs) s (.wait t) := by
  obtain ⟨hedge, hf⟩ := ((at_edge ht).2 _ (.inl rfl)).mp h
  exact ((at_edge ht).2 _ (.inr (.inl rfl))).mpr
    ⟨hedge.keep rfl rfl, hf.proxy.goto _, hf.hybrid, hf.map, hf.saved⟩

theorem Full.At.readEdge {t : Task} (ht : t = .confirm ∨ t = .sample)
    (h : x.At A cfg reads (x.current tcs) s (.wait t)) (w : Word) :
    (x.effect A cfg tcs (.readStatus t w)).At A cfg reads (x.current tcs) s
      (x.effect A cfg tcs (.readStatus t w)).sys.proxy.pc := by
  obtain ⟨hedge, hf⟩ := ((at_edge ht).2 _ (.inr (.inl rfl))).mp h
  have hplace : (x.effect A cfg tcs (.readStatus t w)).sys.proxy.pc = .wait t ∨
      (x.effect A cfg tcs (.readStatus t w)).sys.proxy.pc = .finish t := by
    change (if sigstopped w.val then Pc.wait t else .finish t) = _ ∨
      (if sigstopped w.val then Pc.wait t else .finish t) = _
    split
    · exact .inl rfl
    · exact .inr rfl
  refine ((at_edge ht).2 _ (.inr hplace)).mpr ⟨hedge.keep rfl rfl, ?_, hf.hybrid, hf.map, hf.saved⟩
  exact hf.proxy.congr (f := fun p => { p with
    waitStatus := w.val
    pc := if sigstopped w.val then .wait t else .finish t }) fun _ _ _ _ => rfl

/-- The edge pass is over, and the filter is told. -/
theorem Full.At.finishEdge {t : Task} (ht : t = .confirm ∨ t = .sample)
    (h : x.At A cfg reads (x.current tcs) s (.finish t)) {o : Bool}
    (ho : o = (x.runOf tcs t).overflowed) :
    (x.effect A cfg tcs (.finish t o)).sys.proxy.pc = .endTestcase ∧
      (x.effect A cfg tcs (.finish t o)).At A cfg reads (x.current tcs) s .endTestcase := by
  obtain ⟨hedge, hf⟩ := ((at_edge ht).2 _ (.inr (.inr rfl))).mp h
  have hbefore := beforeEnd_of_verdict A cfg reads (x.current tcs) s hedge.verdict
  rw [hedge.forks] at hbefore
  obtain ⟨hagrees, -⟩ := hf.proxy.finish (w := (x.runOf tcs t).status) cfg (.inr ht) o
  subst ho
  have hgov := hf.proxy.gov
  rcases ht with rfl | rfl
  · rw [if_pos rfl] at hbefore
    have hrun : x.runOf tcs .confirm = (x.current tcs).confirm
        ((s.afterVerdict A cfg reads (x.current tcs)).policyOf cfg .confirm) :=
      congrArg (fun g : FreqGov => (x.current tcs).confirm g.policy) hgov
    refine ⟨rfl, ?_, hedge.policy, ?_⟩
    · rw [hbefore]
      have hmap : (x.runOf tcs .confirm).decode x.traceBitmap =
          (x.runOf tcs .confirm).decode
            (s.afterVerdict A cfg reads (x.current tcs)).traceBitmap := congrArg _ hf.map
      unfold Session.confirmWithBranchBroadcast
      rw [← hrun]
      refine ⟨hagrees, ?_, hmap, hf.saved⟩
      exact congrArg₂ (fun map st => hybridAfterConfirm (sourcePolicy A) map
        (x.runOf tcs .confirm).overflowed st) hmap hf.hybrid
    · rw [hbefore]
      exact hedge.judged
  · rw [if_neg (by rintro ⟨⟩), if_pos rfl] at hbefore
    have hrun : x.runOf tcs .sample = (x.current tcs).sample
        ((s.afterVerdict A cfg reads (x.current tcs)).policyOf cfg .sample) :=
      congrArg (fun g : FreqGov => (x.current tcs).sample g.policy) hgov
    refine ⟨rfl, ?_, hedge.policy, ?_⟩
    · rw [hbefore]
      unfold Session.sampleWithBranchBroadcast
      dsimp only
      change x.runOf tcs .sample = (x.current tcs).sample
        (Session.policyOf cfg .sample { s.afterVerdict A cfg reads (x.current tcs) with
          sampleSavedMap := (s.afterVerdict A cfg reads (x.current tcs)).traceBitmap }) at hrun
      rw [← hrun]
      refine ⟨hagrees, ?_, hf.saved, hf.saved⟩
      exact congrArg₂ (fun map st => hybridAfterSample ((x.runOf tcs .sample).decode map)
        (x.runOf tcs .sample).overflowed st) hf.map hf.hybrid
    · rw [hbefore]
      exact hedge.judged

/-- The status is written: the test case is that of the session. -/
theorem Full.At.endTestcase (h : x.At A cfg reads (x.current tcs) s .endTestcase) :
    (x.effect A cfg tcs .endTestcase).Follows (s.testcase A cfg reads (x.current tcs)).1 ∧
      (x.effect A cfg tcs .endTestcase).outcomes =
        x.outcomes ++ (s.testcase A cfg reads (x.current tcs)).2 := by
  obtain ⟨hf, hpolicy, hjudged⟩ := h
  rw [testcase_eq]
  refine ⟨⟨hf.proxy.endTestcase cfg, hf.hybrid, hf.map, hf.saved⟩, ?_⟩
  change x.outcomes ++ [⟨x.policy, x.judged, x.sys.proxy.status, x.traceBitmap⟩] = _
  rw [hpolicy, hjudged, hf.proxy.status, hf.map]

/-- What the others do leaves the proxy where it is. -/
theorem Full.At.frame {tc : Testcase n} {pc : Pc} (h : x.At A cfg reads tc s pc) {sys : Sys}
    (hsys : sys.proxy = x.sys.proxy) : ({ x with sys } : Full n).At A cfg reads tc s pc := by
  have hfollows {s' : Session n} (hf : x.Follows s') : ({ x with sys } : Full n).Follows s' :=
    ⟨hsys ▸ hf.proxy, hf.hybrid, hf.map, hf.saved⟩
  have hedge {t : Task} {s' : Session n} (he : x.InEdge A cfg reads tc s t ∧ x.Follows s') :
      ({ x with sys } : Full n).InEdge A cfg reads tc s t ∧
        ({ x with sys } : Full n).Follows s' :=
    ⟨he.1.keep rfl rfl, hfollows he.2⟩
  have hpid : ({ x with sys } : Full n).sys.proxy.childPid = x.sys.proxy.childPid :=
    congrArg Proxy.childPid hsys
  have hwait : ({ x with sys } : Full n).sys.proxy.waitStatus = x.sys.proxy.waitStatus :=
    congrArg Proxy.waitStatus hsys
  cases pc with
  | request | forward | handed => exact hfollows h
  | report => exact ⟨hfollows h.1, h.2.1, hpid.trans h.2.2⟩
  | verdict => exact ⟨hfollows h.1, h.2⟩
  | endTestcase => exact ⟨hfollows h.1, h.2⟩
  | fork t | forked t => exact hedge h
  | start t =>
    rcases t with _ | (_ | _) | _ | _
    case attempt.true => exact ⟨hfollows h.1, hpid.trans h.2⟩
    all_goals exact hedge h
  | cont t =>
    rcases t with _ | (_ | _) | _ | _
    case attempt.true => exact ⟨hfollows h.1, h.2⟩
    all_goals exact hedge h
  | wait t =>
    rcases t with _ | (_ | _) | _ | _
    case attempt.true => exact ⟨hfollows h.1, h.2⟩
    all_goals exact hedge h
  | finish t =>
    rcases t with _ | (_ | _) | _ | _
    case attempt.true => exact ⟨hfollows h.1, h.2.1, hwait.trans h.2.2⟩
    all_goals exact hedge h

/-- The tasks of hybrid mode behind the ramps. -/
theorem Full.At.task {tc : Testcase n} {pc : Pc} (h : x.At A cfg reads tc s pc) {t : Task}
    (hpc : pc = .start t ∨ pc = .cont t ∨ pc = .wait t ∨ pc = .finish t) :
    t = .attempt true ∨ t = .confirm ∨ t = .sample := by
  by_cases ht : t = .attempt true
  · exact .inl ht
  · right
    have hedge : x.InEdge A cfg reads tc s t := by
      rcases t with _ | (_ | _) | _ | _
      case attempt.true => exact absurd rfl ht
      all_goals
        rcases hpc with rfl | rfl | rfl | rfl <;> exact h.1
    exact hedge.task

end Steps

end CsProxy
end CsTrace
