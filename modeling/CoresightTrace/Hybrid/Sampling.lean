import CoresightTrace.Framework.Interference
import CoresightTrace.Hybrid.Protocol

/-!
# Sampled discards

A discarded input may be run once more with branch broadcast on, to count what
the filter misses. `hybrid_after_sample()` shares the scratch map `edge_cls`,
`virgin_edge` and `last_filtered` with the calls that decide. It reads the last
two and writes the first, which every confirm writes before it reads it. So
what the path passes answer, and everything but the sample's own figures, is as
if no discard had been sampled (`sampling_invisible`).
-/

namespace CsTrace
namespace Hybrid

variable {n : ℕ}

/-- A call of one of the three entry points, with the source's purge decision. -/
inductive Operation (n : ℕ)
  | path (c : PathCall n)
  | confirm (edge : CovMap n) (overflowed : Bool)
  | sample (edge : CovMap n) (overflowed : Bool)

/-- The operation is a sample. -/
def Operation.isSample : Operation n → Bool
  | .sample _ _ => true
  | _ => false

/-- The state an operation leaves, and for a path pass its verdict and the map it
leaves in the shared buffer. -/
def operate (A : PurgeArith) (s : State n) : Operation n →
    State n × List (HybridVerdict × CovMap n)
  | .path c =>
    let r := hybridAfterPath (sourcePolicy A) c.map c.overflowed c.inputKey s
    (r.st, [(r.verdict, r.map)])
  | .confirm edge overflowed => (hybridAfterConfirm (sourcePolicy A) edge overflowed s, [])
  | .sample edge overflowed => (hybridAfterSample edge overflowed s, [])

/-- The state without `virgin_missed`, the scratch map `edge_cls` and the counters
of the samples. -/
def State.unsampled (s : State n) : State n :=
  { s with
    virginMissed := fun _ => 0
    edgeCls := fun _ => 0
    nSampled := 0
    nSampleOverflow := 0
    nSampleNew := 0
    nSampleNewTuples := 0
    nSampleNewFiltered := 0 }

/-! ### A sample -/

/-- A sample writes only what `unsampled` leaves out. -/
theorem hybridAfterSample_unsampled (edge : CovMap n) (overflowed : Bool) (s : State n) :
    (hybridAfterSample edge overflowed s).unsampled = s.unsampled := by
  unfold hybridAfterSample
  split
  · rfl
  · dsimp only
    split <;> rfl

/-! ### The other calls

Each of them does the same to the state without the sample's part. -/

/-- The source's purge decision reads nothing of the samples. -/
theorem sourcePolicy_unsampled (A : PurgeArith) (s : State n) :
    sourcePolicy A s.unsampled = sourcePolicy A s :=
  rfl

theorem purgeCheck_unsampled (A : PurgeArith) (s : State n) :
    purgeCheck (sourcePolicy A) s.unsampled = (purgeCheck (sourcePolicy A) s).unsampled := by
  have hpolicy : sourcePolicy A { s.unsampled with realExecs := s.unsampled.realExecs + 1 } =
      sourcePolicy A { s with realExecs := s.realExecs + 1 } :=
    sourcePolicy_unsampled A { s with realExecs := s.realExecs + 1 }
  unfold purgeCheck
  dsimp only
  rw [hpolicy]
  cases sourcePolicy A { s with realExecs := s.realExecs + 1 } <;> rfl

theorem rememberInput_unsampled (key : BitVec 64) (map : CovMap n) (s : State n) :
    rememberInput key map s.unsampled = (rememberInput key map s).unsampled := by
  unfold rememberInput
  change (if key = 0 ∨ (DirectMap.lookup inputSlot s.inputs key).isSome then _ else _) = _
  split <;> rfl

theorem discard_unsampled (cksum : BitVec 32) (key : BitVec 64) (s : State n) :
    discard cksum key s.unsampled =
      ((discard cksum key s).1, (discard cksum key s).2.unsampled) := by
  have hinputs : s.unsampled.inputs = s.inputs := rfl
  have hcache : s.unsampled.cache = s.cache := rfl
  unfold discard
  rw [hinputs, hcache]
  cases if key = 0 then none else DirectMap.lookup inputSlot s.inputs key with
  | some map => rfl
  | none =>
    cases DirectMap.lookup cacheSlot s.cache cksum with
    | none => rfl
    | some map =>
      dsimp only
      rw [rememberInput_unsampled]
      rfl

/-- A path pass goes by what `unsampled` keeps. -/
theorem hybridAfterPath_unsampled (A : PurgeArith) (map : CovMap n) (overflowed : Bool)
    (key : BitVec 64) (s : State n) :
    hybridAfterPath (sourcePolicy A) map overflowed key s.unsampled =
      let r := hybridAfterPath (sourcePolicy A) map overflowed key s
      ⟨r.verdict, r.map, r.st.unsampled⟩ := by
  have hcounted : ({ s.unsampled with pathExecs := s.unsampled.pathExecs + 1 } : State n) =
      State.unsampled { s with pathExecs := s.pathExecs + 1 } := rfl
  unfold hybridAfterPath
  rw [hcounted, purgeCheck_unsampled]
  generalize purgeCheck (sourcePolicy A) { s with pathExecs := s.pathExecs + 1 } = s
  dsimp only
  change (if filtered { s with pathCls := classify map, lastFiltered := false } (checksum map) then
    _ else _) = _
  split
  · -- the filter is not the samples'
    have hdiscard := discard_unsampled (checksum map) key
      { s with pathCls := classify map, lastFiltered := true, nFiltered := s.nFiltered + 1 }
    exact congrArg (fun r : CovMap n × State n => (⟨.discard, r.1, r.2⟩ : PathResult n)) hdiscard
  · change (if (hasNewBits s.virginAtom (classify map)).1 = 0 then _ else _) = _
    split
    · have hdiscard := discard_unsampled (checksum map) key
        { s with
          pathCls := classify map
          lastFiltered := false
          virginAtom := (hasNewBits s.virginAtom (classify map)).2
          nOldPath := s.nOldPath + 1 }
      exact congrArg (fun r : CovMap n × State n => (⟨.discard, r.1, r.2⟩ : PathResult n)) hdiscard
    · rfl

/-- The novelty of an edge map is that of the scratch map. -/
theorem noteEdges_unsampled (s : State n) (cls : CovMap n) :
    (noteEdges { s.unsampled with edgeCls := cls }).unsampled =
      (noteEdges { s with edgeCls := cls }).unsampled := by
  unfold noteEdges
  dsimp only
  change (if (hasNewBits s.virginEdge cls).1 ≠ 0 then _ else _ : State n).unsampled = _
  split <;> rfl

theorem keepEdges_unsampled (map : CovMap n) (overflowed : Bool) (s : State n) :
    keepEdges map overflowed s.unsampled = (keepEdges map overflowed s).unsampled := by
  unfold keepEdges
  change (if (!overflowed && !s.pathKeptOverflow) = true then _ else _) = _
  split
  · exact rememberInput_unsampled s.pathKeptInput map
      { s with cache := DirectMap.store cacheSlot s.cache s.pathKeptCksum map }
  · rfl

/-- A confirm writes the scratch map before it reads it. -/
theorem hybridAfterConfirm_unsampled (A : PurgeArith) (map : CovMap n) (overflowed : Bool)
    (s : State n) :
    (hybridAfterConfirm (sourcePolicy A) map overflowed s.unsampled).unsampled =
      (hybridAfterConfirm (sourcePolicy A) map overflowed s).unsampled := by
  unfold hybridAfterConfirm
  dsimp only
  rw [purgeCheck_unsampled]
  generalize purgeCheck (sourcePolicy A) s = s
  calc (keepEdges map overflowed (noteEdges { s.unsampled with edgeCls := classify map })).unsampled
    _ = keepEdges map overflowed
          (noteEdges { s.unsampled with edgeCls := classify map }).unsampled :=
        (keepEdges_unsampled map overflowed _).symm
    _ = keepEdges map overflowed (noteEdges { s with edgeCls := classify map }).unsampled := by
        rw [noteEdges_unsampled]
    _ = (keepEdges map overflowed (noteEdges { s with edgeCls := classify map })).unsampled :=
        keepEdges_unsampled map overflowed _

/-! ### Noninterference -/

theorem operate_noninterfering (A : PurgeArith) :
    Ops.Noninterfering (operate (n := n) A) State.unsampled Operation.isSample where
  silent := by
    intro s op hop
    cases op with
    | sample edge overflowed => exact ⟨hybridAfterSample_unsampled edge overflowed s, rfl⟩
    | path | confirm => cases hop
  blind := by
    intro s t op hop hview
    cases op with
    | sample => cases hop
    | path c =>
      -- both calls do what the call on the common part does
      have hs := hybridAfterPath_unsampled A c.map c.overflowed c.inputKey s
      have ht := hybridAfterPath_unsampled A c.map c.overflowed c.inputKey t
      rw [hview, ht] at hs
      simp only [PathResult.mk.injEq] at hs
      obtain ⟨hverdict, hmap, hst⟩ := hs
      exact ⟨hst.symm, by simp [operate, hverdict, hmap]⟩
    | confirm edge overflowed =>
      refine ⟨?_, rfl⟩
      have hs := hybridAfterConfirm_unsampled A edge overflowed s
      rw [hview, hybridAfterConfirm_unsampled] at hs
      exact hs.symm

/-- **Sampling influences no verdict.** Two runs of hybrid operations that agree
after their samples are deleted, wherever these stand, from states that agree up
to what samples write: the path passes return the same verdicts and leave the
same maps, and the states they end in agree on everything but `virgin_missed`,
the scratch map `edge_cls` and the sample counters. -/
theorem sampling_invisible (A : PurgeArith) {s t : State n} (hst : s.unsampled = t.unsampled)
    {ops ops' : List (Operation n)}
    (hops : (ops.filter fun op => !op.isSample) = ops'.filter fun op => !op.isSample) :
    (Ops.run (operate A) s ops).2 = (Ops.run (operate A) t ops').2 ∧
      (Ops.run (operate A) s ops).1.unsampled = (Ops.run (operate A) t ops').1.unsampled :=
  (operate_noninterfering A).ops_agree hst hops

/-- A confirm with a sample between it and its path pass, and without. -/
theorem sampling_invisible_confirm :
    let init : State 1 := hybridInit (fun _ => 0) (fun _ => 0) (fun _ => 0)
    let sampled : List (Operation 1) :=
      [.path ⟨fun _ => 1, false, 5⟩, .sample (fun _ => 3) false, .confirm (fun _ => 1) false,
        .path ⟨fun _ => 1, false, 5⟩]
    let plain : List (Operation 1) :=
      [.path ⟨fun _ => 1, false, 5⟩, .confirm (fun _ => 1) false, .path ⟨fun _ => 1, false, 5⟩]
    (sampled.filter fun op => !op.isSample) = (plain.filter fun op => !op.isSample) ∧
      (Ops.run (operate .exact) init sampled).2 = (Ops.run (operate .exact) init plain).2 ∧
      (Ops.run (operate .exact) init sampled).1.nSampled = 1 ∧
      (Ops.run (operate .exact) init plain).1.nSampled = 0 := by
  intro init sampled plain
  have hops : (sampled.filter fun op => !op.isSample) = plain.filter fun op => !op.isSample := by
    simp [sampled, plain, Operation.isSample]
  have hagree := @sampling_invisible 1 .exact init init rfl sampled plain hops
  refine ⟨hops, hagree.1, ?_, ?_⟩
  · decide +kernel
  · decide +kernel

end Hybrid
end CsTrace
