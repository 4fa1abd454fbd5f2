import CoresightTrace.Hybrid.Protocol
import CoresightTrace.Hybrid.Statistics
import Mathlib.Data.Set.Card

/-!
# The books of the filter

`hybrid_write_stats()` prints seventeen figures. Each is bumped on its own, in one
branch of one of the three entry points, but they are not independent: every path pass
is filtered, old or confirmed, every discard is answered from the input table, from the
cache or with an empty map, and every figure about new edges counts some of the confirms
or of the samples. `Balanced` says so of a state, with the confirm that may be owed, and
every call the protocol allows keeps it (`balanced_of_reachable`).

The counts of new edges and tuples are bounded by the map: a confirm that is counted
clears a bit of `virgin_edge` that no confirm had cleared, and one that is counted as a
tuple takes a byte away from `0xff`. A missed tuple is a byte that is still there.
-/

open BitCover

namespace CsTrace
namespace Hybrid

variable {n : ℕ}

/-! ### The figures -/

/-- What `hybrid_write_stats()` prints. -/
structure HybridStats where
  pathExecs : ℕ
  filtered : ℕ
  oldPath : ℕ
  confirmed : ℕ
  newEdges : ℕ
  newTuples : ℕ
  inputHits : ℕ
  cacheHits : ℕ
  empty : ℕ
  purgeReal : ℕ
  purgeAttempt : ℕ
  sampleExecs : ℕ
  sampleOverflow : ℕ
  sampleNewEdges : ℕ
  sampleNewTuples : ℕ
  sampleNewFiltered : ℕ
  sampleMissedTuples : ℕ
deriving DecidableEq, Repr

/-- The figures of a state. -/
def State.stats (s : State n) : HybridStats where
  pathExecs := s.pathExecs
  filtered := s.nFiltered
  oldPath := s.nOldPath
  confirmed := s.nConfirmed
  newEdges := s.nNewEdges
  newTuples := s.nNewTuples
  inputHits := s.nInputHits
  cacheHits := s.nCacheHits
  empty := s.nEmpty
  purgeReal := s.purgeReal
  purgeAttempt := s.purgeAttempt
  sampleExecs := s.nSampled
  sampleOverflow := s.nSampleOverflow
  sampleNewEdges := s.nSampleNew
  sampleNewTuples := s.nSampleNewTuples
  sampleNewFiltered := s.nSampleNewFiltered
  sampleMissedTuples := countMissedTuples s

/-- The figures balance, for a map of `n` bytes. -/
structure HybridStats.Balanced (r : HybridStats) (n : ℕ) : Prop where
  /-- Every path pass is filtered, old or confirmed. -/
  passes : r.pathExecs = r.filtered + r.oldPath + r.confirmed
  /-- Every discard is shown a map. -/
  shown : r.filtered + r.oldPath = r.inputHits + r.cacheHits + r.empty
  edges : r.newEdges ≤ r.confirmed
  tuples : r.newTuples ≤ r.newEdges
  purges : r.purgeReal ≤ r.purgeAttempt
  /-- A map has eight bits for each byte. -/
  bits : r.newEdges ≤ n * 8
  bytes : r.newTuples + r.sampleMissedTuples ≤ n
  sampleEdges : r.sampleNewEdges ≤ r.sampleExecs
  sampleTuples : r.sampleNewTuples ≤ r.sampleNewEdges
  sampleFiltered : r.sampleNewFiltered ≤ r.sampleNewEdges
  /-- Without a sample no tuple can have been missed. -/
  unsampled : r.sampleExecs = 0 → r.sampleMissedTuples = 0

/-! ### The books of a state -/

/-- The indices whose byte has left `0xff`. -/
def taken (virgin : CovMap n) : Set (Fin n) := {i | virgin i ≠ 0xff#8}

/-- The books balance, with `owed` confirms still to be made and `pending` discards to be
shown a map. -/
structure Balanced (owed pending : ℕ) (s : State n) : Prop where
  passes : s.pathExecs = s.nFiltered + s.nOldPath + s.nConfirmed
  shown : s.nFiltered + s.nOldPath = s.nInputHits + s.nCacheHits + s.nEmpty + pending
  edges : s.nNewEdges + owed ≤ s.nConfirmed
  tuples : s.nNewTuples ≤ s.nNewEdges
  purges : s.purgeReal ≤ s.purgeAttempt
  bits : s.nNewEdges ≤ (bits s.virginEdge)ᶜ.ncard
  bytes : s.nNewTuples ≤ (taken s.virginEdge).ncard
  sampleEdges : s.nSampleNew ≤ s.nSampled
  sampleTuples : s.nSampleNewTuples ≤ s.nSampleNew
  sampleFiltered : s.nSampleNewFiltered ≤ s.nSampleNew
  unsampled : s.nSampled = 0 → s.virginMissed = fun _ => 0xff#8

/-- **A balanced state prints balanced figures.** -/
theorem Balanced.stats {owed : ℕ} {s : State n} (h : Balanced owed 0 s) : s.stats.Balanced n where
  passes := h.passes
  shown := h.shown
  edges := le_trans (Nat.le_add_right _ owed) h.edges
  tuples := h.tuples
  purges := h.purges
  bits := by
    calc s.nNewEdges
      _ ≤ (BitCover.bits s.virginEdge)ᶜ.ncard := h.bits
      _ ≤ (Set.univ : Set (Bit n)).ncard := Set.ncard_le_ncard (Set.subset_univ _)
      _ = n * 8 := by simp [Set.ncard_univ, Nat.card_eq_fintype_card]
  bytes := by
    -- a byte that is missed has not been taken
    have hmissed : countMissedTuples s ≤ (taken s.virginEdge)ᶜ.ncard := by
      rw [countMissedTuples_eq]
      refine Set.ncard_le_ncard ?_
      intro i hi
      simpa [taken] using hi.2
    calc s.nNewTuples + countMissedTuples s
      _ ≤ (taken s.virginEdge).ncard + (taken s.virginEdge)ᶜ.ncard :=
          Nat.add_le_add h.bytes hmissed
      _ = n := by rw [Set.ncard_add_ncard_compl]; simp
  sampleEdges := h.sampleEdges
  sampleTuples := h.sampleTuples
  sampleFiltered := h.sampleFiltered
  unsampled := by
    intro hnone
    change countMissedTuples s = 0
    rw [countMissedTuples_eq, h.unsampled hnone]
    simp

/-! ### What the calls write -/

/-- `purge_check()` writes `virgin_atom` and its own variables only. -/
theorem purgeCheck_eq (π : PurgePolicy n) (s : State n) :
    purgeCheck π s = { s with
      virginAtom := (purgeCheck π s).virginAtom
      realExecs := (purgeCheck π s).realExecs
      preRealExecs := (purgeCheck π s).preRealExecs
      preVirginBits := (purgeCheck π s).preVirginBits
      purgeInterval := (purgeCheck π s).purgeInterval
      purgeAttempt := (purgeCheck π s).purgeAttempt
      purgeReal := (purgeCheck π s).purgeReal } := by
  unfold purgeCheck endPurgeAttempt
  dsimp only
  split <;> rfl

/-- Every purge is an attempt. -/
theorem purgeCheck_purges (π : PurgePolicy n) {s : State n} (h : s.purgeReal ≤ s.purgeAttempt) :
    (purgeCheck π s).purgeReal ≤ (purgeCheck π s).purgeAttempt := by
  unfold purgeCheck endPurgeAttempt
  dsimp only
  split
  · exact h
  · exact Nat.le_succ_of_le h
  · exact Nat.succ_le_succ h

/-- A discard is counted once. -/
theorem discard_counted (cksum : BitVec 32) (key : BitVec 64) (s : State n) :
    (discard cksum key s).2.nInputHits + (discard cksum key s).2.nCacheHits +
        (discard cksum key s).2.nEmpty =
      s.nInputHits + s.nCacheHits + s.nEmpty + 1 := by
  unfold discard
  split
  · dsimp only
    omega
  · split
    · dsimp only
      rw [rememberInput_eq]
      dsimp only
      omega
    · rfl

/-- A map that is new to `virgin` takes bits from it, and bytes at level 2. -/
theorem hasNewBits_takes (virgin cls : CovMap n) :
    ((hasNewBits virgin cls).1 ≠ 0 →
        (bits virgin)ᶜ.ncard < (bits (hasNewBits virgin cls).2)ᶜ.ncard) ∧
      ((hasNewBits virgin cls).1 = 2 →
        (taken virgin).ncard < (taken (hasNewBits virgin cls).2).ncard) ∧
      (bits virgin)ᶜ.ncard ≤ (bits (hasNewBits virgin cls).2)ᶜ.ncard ∧
      (taken virgin).ncard ≤ (taken (hasNewBits virgin cls).2).ncard := by
  have hbits : (bits virgin)ᶜ ⊆ (bits (hasNewBits virgin cls).2)ᶜ := by
    rw [bits_hasNewBits]
    exact Set.compl_subset_compl.mpr Set.sdiff_subset
  have htaken : taken virgin ⊆ taken (hasNewBits virgin cls).2 := by
    intro i hi hff
    rw [hasNewBits_virgin] at hff
    exact hi ((andNot_eq_ff_iff _ _).mp hff).1
  refine ⟨?_, ?_, Set.ncard_le_ncard hbits, Set.ncard_le_ncard htaken⟩
  · intro hnew
    rw [hasNewBits_ret, ne_eq, newBitsLevel_eq_zero_iff, Set.not_disjoint_iff] at hnew
    obtain ⟨b, hcls, hvirgin⟩ := hnew
    refine Set.ncard_lt_ncard ⟨hbits, fun hback => ?_⟩
    -- the bit they share is cleared now, and was not
    refine hback (a := b) ?_ hvirgin
    rw [bits_hasNewBits]
    exact fun hb => hb.2 hcls
  · intro hnew
    rw [hasNewBits_ret, (newBitsLevel_iff virgin cls).1] at hnew
    obtain ⟨i, hcls, hvirgin⟩ := hnew
    refine Set.ncard_lt_ncard ⟨htaken, fun hback => ?_⟩
    refine hback (a := i) ?_ hvirgin
    intro hff
    rw [hasNewBits_virgin] at hff
    exact hcls ((andNot_eq_ff_iff _ _).mp hff).2

/-! ### What the calls keep -/

section Steps

variable {owed : ℕ} {s : State n}

/-- The books do not look at what `purge_check()` writes. -/
theorem Balanced.purgeCheck (h : Balanced owed 0 s) (π : PurgePolicy n) :
    Balanced owed 0 (Hybrid.purgeCheck π s) := by
  have hpurges := purgeCheck_purges π h.purges
  rw [purgeCheck_eq]
  exact ⟨h.passes, h.shown, h.edges, h.tuples, hpurges, h.bits, h.bytes, h.sampleEdges,
    h.sampleTuples, h.sampleFiltered, h.unsampled⟩

/-- A discard is shown its map. -/
theorem Balanced.discard (h : Balanced owed 1 s) (cksum : BitVec 32) (key : BitVec 64) :
    Balanced owed 0 (Hybrid.discard cksum key s).2 := by
  have hshown := h.shown
  have hcounted := discard_counted cksum key s
  rw [discard_eq] at hcounted ⊢
  refine ⟨h.passes, ?_, h.edges, h.tuples, h.purges, h.bits, h.bytes, h.sampleEdges,
    h.sampleTuples, h.sampleFiltered, h.unsampled⟩
  dsimp only at hcounted ⊢
  omega

/-- **A path pass keeps the books**, and owes a confirm if that is its verdict. -/
theorem Balanced.afterPath (h : Balanced 0 0 s) (π : PurgePolicy n) (map : CovMap n)
    (overflowed : Bool) (key : BitVec 64) :
    Balanced (if (hybridAfterPath π map overflowed key s).verdict = .confirm then 1 else 0) 0
      (hybridAfterPath π map overflowed key s).st := by
  have hpurges := purgeCheck_purges (s := { s with pathExecs := s.pathExecs + 1 }) π h.purges
  have hpasses := h.passes
  have hshown := h.shown
  have hedges := h.edges
  unfold hybridAfterPath
  rw [purgeCheck_eq]
  dsimp only
  split
  · apply Balanced.discard
    refine ⟨?_, ?_, hedges, h.tuples, hpurges, h.bits, h.bytes, h.sampleEdges, h.sampleTuples,
      h.sampleFiltered, h.unsampled⟩
    · dsimp only
      omega
    · dsimp only
      omega
  · split
    · apply Balanced.discard
      refine ⟨?_, ?_, hedges, h.tuples, hpurges, h.bits, h.bytes, h.sampleEdges, h.sampleTuples,
        h.sampleFiltered, h.unsampled⟩
      · dsimp only
        omega
      · dsimp only
        omega
    · refine ⟨?_, h.shown, ?_, h.tuples, hpurges, h.bits, h.bytes, h.sampleEdges, h.sampleTuples,
        h.sampleFiltered, h.unsampled⟩
      · dsimp only
        omega
      · simp only [if_true]
        omega

/-- **A confirm keeps the books.** -/
theorem Balanced.afterConfirm (h : Balanced 1 0 s) (π : PurgePolicy n) (map : CovMap n)
    (overflowed : Bool) : Balanced 0 0 (hybridAfterConfirm π map overflowed s) := by
  have hnoted : Balanced 0 0
      (noteEdges { Hybrid.purgeCheck π s with edgeCls := classify map }) := by
    have hc := h.purgeCheck π
    generalize Hybrid.purgeCheck π s = t at hc
    obtain ⟨hbit, hbyte, hbits, hbytes⟩ := hasNewBits_takes t.virginEdge (classify map)
    have hedges := hc.edges
    have htuples := hc.tuples
    have hbitsLe := hc.bits
    have hbytesLe := hc.bytes
    unfold noteEdges
    dsimp only
    split
    · next hnew =>
      refine ⟨hc.passes, hc.shown, hedges, ?_, hc.purges, ?_, ?_, hc.sampleEdges, hc.sampleTuples,
        hc.sampleFiltered, hc.unsampled⟩
      · dsimp only
        split
        · exact Nat.succ_le_succ htuples
        · exact Nat.le_succ_of_le htuples
      · exact lt_of_le_of_lt hbitsLe (hbit hnew)
      · dsimp only
        split
        · next htwo => exact lt_of_le_of_lt hbytesLe (hbyte htwo)
        · exact hbytesLe.trans hbytes
    · refine ⟨hc.passes, hc.shown, Nat.le_of_succ_le hedges, htuples, hc.purges,
        hbitsLe.trans hbits, hbytesLe.trans hbytes, hc.sampleEdges, hc.sampleTuples,
        hc.sampleFiltered, hc.unsampled⟩
  unfold hybridAfterConfirm
  dsimp only
  generalize noteEdges { Hybrid.purgeCheck π s with edgeCls := classify map } = t at hnoted ⊢
  unfold keepEdges
  split
  · rw [rememberInput_eq]
    exact ⟨hnoted.passes, hnoted.shown, hnoted.edges, hnoted.tuples, hnoted.purges, hnoted.bits,
      hnoted.bytes, hnoted.sampleEdges, hnoted.sampleTuples, hnoted.sampleFiltered,
      hnoted.unsampled⟩
  · exact hnoted

/-- **A sample keeps the books**, whatever is owed. -/
theorem Balanced.afterSample (h : Balanced owed 0 s) (map : CovMap n) (overflowed : Bool) :
    Balanced owed 0 (hybridAfterSample map overflowed s) := by
  have hedges := h.sampleEdges
  have htuples := h.sampleTuples
  have hfiltered := h.sampleFiltered
  unfold hybridAfterSample
  split
  · exact ⟨h.passes, h.shown, h.edges, h.tuples, h.purges, h.bits, h.bytes, hedges, htuples,
      hfiltered, h.unsampled⟩
  · dsimp only
    split
    · refine ⟨h.passes, h.shown, h.edges, h.tuples, h.purges, h.bits, h.bytes, ?_, ?_, ?_, ?_⟩
      · exact Nat.succ_le_succ hedges
      · dsimp only
        split
        · exact Nat.succ_le_succ htuples
        · exact Nat.le_succ_of_le htuples
      · dsimp only
        split
        · exact Nat.succ_le_succ hfiltered
        · exact Nat.le_succ_of_le hfiltered
      · exact fun hnone => absurd hnone (Nat.succ_ne_zero _)
    · exact ⟨h.passes, h.shown, h.edges, h.tuples, h.purges, h.bits, h.bytes,
        Nat.le_succ_of_le hedges, htuples, hfiltered,
        fun hnone => absurd hnone (Nat.succ_ne_zero _)⟩

end Steps

/-! ### The runs of the target -/

section Runs

variable (π : PurgePolicy n) (map : CovMap n) (overflowed : Bool) (s : State n)

/-- The runs of the target that the figures speak of: the path passes, the confirms they
asked for, and the samples. -/
def State.runs (s : State n) : ℕ := s.pathExecs + s.nConfirmed + s.nSampled + s.nSampleOverflow

theorem hybridAfterPath_runs (key : BitVec 64) :
    (hybridAfterPath π map overflowed key s).st.runs =
      s.runs + 1 +
        if (hybridAfterPath π map overflowed key s).verdict = .confirm then 1 else 0 := by
  unfold hybridAfterPath State.runs
  rw [purgeCheck_eq]
  dsimp only
  split
  · rw [discard_eq]
    simp only [reduceCtorEq, if_false]
    omega
  · split
    · rw [discard_eq]
      simp only [reduceCtorEq, if_false]
      omega
    · simp only [if_true]
      omega

theorem hybridAfterConfirm_runs : (hybridAfterConfirm π map overflowed s).runs = s.runs := by
  have hkeep (t : State n) : (keepEdges map overflowed t).runs = t.runs := by
    unfold keepEdges
    split
    · rw [rememberInput_eq]
      rfl
    · rfl
  have hnote (t : State n) : (noteEdges t).runs = t.runs := by
    unfold noteEdges
    dsimp only
    split <;> rfl
  unfold hybridAfterConfirm
  dsimp only
  rw [hkeep, hnote, purgeCheck_eq]
  rfl

theorem hybridAfterSample_runs : (hybridAfterSample map overflowed s).runs = s.runs + 1 := by
  unfold hybridAfterSample State.runs
  split
  · rfl
  · dsimp only
    split
    · dsimp only
      omega
    · dsimp only
      omega

end Runs

/-! ### Runs of the protocol -/

/-- The confirm that is owed, as a count. -/
def Front.owed (f : Front n) : ℕ := if f.awaiting.isSome then 1 else 0

/-- **The books balance.** In every state the protocol can reach, whatever the maps, the
keys and the purge decisions. -/
theorem balanced_of_reachable {f : Front n} (h : (hybridMachine n).Reachable f) :
    Balanced f.owed 0 f.st := by
  refine h.invariant (I := fun f => Balanced f.owed 0 f.st) ?_ ?_
  · rintro _ ⟨pathCls, pathKept, edgeCls, rfl⟩
    exact ⟨rfl, rfl, le_rfl, le_rfl, le_rfl, Nat.zero_le _, Nat.zero_le _, le_rfl, le_rfl, le_rfl,
      fun _ => rfl⟩
  · intro f l f' hf hstep
    cases hstep with
    | path π c hnone =>
      have hpath : Balanced 0 0 f.st := by simpa [Front.owed, hnone] using hf
      have hnext := hpath.afterPath π c.map c.overflowed c.inputKey
      have howed : (f.afterPath π c).owed =
          if (f.pathResult π c).verdict = .confirm then 1 else 0 := by
        cases hv : (f.pathResult π c).verdict with
        | confirm => simp [Front.owed, Front.awaiting_of_confirm hv]
        | discard => simp [Front.owed, Front.awaiting_of_discard hv]
      rw [howed]
      exact hnext
    | confirm π c edge overflowed hsome =>
      have howed : Balanced 1 0 f.st := by simpa [Front.owed, hsome] using hf
      exact howed.afterConfirm π edge overflowed
    | sample edge overflowed => exact hf.afterSample edge overflowed

/-- **The figures balance**, whenever they are printed. -/
theorem books_balance {f : Front n} (h : (hybridMachine n).Reachable f) :
    f.st.stats.Balanced n :=
  (balanced_of_reachable h).stats

/-- A path that is confirmed, made again and sampled. -/
def sampledFront : Front 1 :=
  let π := sourcePolicy .exact
  let c : PathCall 1 := ⟨fun _ => 1, false, 0⟩
  ((((Front.initial (fun _ => 0) (fun _ => 0) (fun _ => 0)).afterPath π c).afterConfirm π c
    (fun _ => 1) false).afterPath π c).afterSample (fun _ => 2) false

theorem books_balance_sampled :
    sampledFront.st.stats =
        { pathExecs := 2, filtered := 0, oldPath := 1, confirmed := 1, newEdges := 1
          newTuples := 1, inputHits := 0, cacheHits := 1, empty := 0, purgeReal := 0
          purgeAttempt := 0, sampleExecs := 1, sampleOverflow := 0, sampleNewEdges := 1
          sampleNewTuples := 0, sampleNewFiltered := 0, sampleMissedTuples := 0 } ∧
      sampledFront.st.stats.Balanced 1 := by
  have hinit : (hybridMachine 1).Reachable
      (Front.initial (fun _ => 0) (fun _ => 0) (fun _ => 0)) := .of_init ⟨_, _, _, rfl⟩
  have hpath := hinit.step (.path _ (sourcePolicy .exact) ⟨fun _ => 1, false, 0⟩ rfl)
  have hconfirm := hpath.step (.confirm _ (sourcePolicy .exact) ⟨fun _ => 1, false, 0⟩
    (fun _ => 1) false (Front.awaiting_of_confirm (by decide +kernel)))
  have hagain := hconfirm.step (.path _ (sourcePolicy .exact) ⟨fun _ => 1, false, 0⟩ rfl)
  have hsample := hagain.step (.sample _ (fun _ => 2) false)
  exact ⟨by decide +kernel, books_balance hsample⟩

end Hybrid
end CsTrace
