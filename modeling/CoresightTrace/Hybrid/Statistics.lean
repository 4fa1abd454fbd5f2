import CoresightTrace.Framework.Tally
import CoresightTrace.Hybrid.Novelty
import CoresightTrace.Hybrid.Sampling

/-!
# What the coverage statistics count

`hybrid_new_edges`, `hybrid_new_tuples`, `sample_new_tuples` and
`sample_missed_tuples` are read off two virgin maps that the operations clear in
place. `Figures` is the part of the state they come from, and an operation moves
it by what it reads there alone (`operate_figures`).

Both maps start at `0xff` everywhere, so each is what `has_new_bits()` leaves
after the maps it was shown: the confirmed ones in `virgin_edge`, the sampled
ones that did not overflow in `virgin_missed`. A byte is still `0xff` exactly
when none of those maps hit its index (`virginAfter_eq_ff_iff`), which turns the
novelty level into a statement about the history (`statistics_mean`).
-/

open BitCover

namespace CsTrace
namespace Hybrid

variable {n : ℕ}

/-- `count_missed_tuples()`. -/
def countMissedTuples (s : State n) : ℕ :=
  (List.finRange n).foldl
    (fun c i => c + if s.virginMissed i ≠ 0xff#8 ∧ s.virginEdge i = 0xff#8 then 1 else 0) 0

/-- The edge maps of the confirms, in order. -/
def confirmedMaps (ops : List (Operation n)) : List (CovMap n) :=
  ops.filterMap fun
    | .confirm edge _ => some edge
    | _ => none

/-- The edge maps of the samples that did not overflow, in order. -/
def sampledMaps (ops : List (Operation n)) : List (CovMap n) :=
  ops.filterMap fun
    | .sample edge false => some edge
    | _ => none

/-- The classified map has a bit that no earlier one has. -/
def HasNewBit (earlier : List (CovMap n)) (edge : CovMap n) : Prop :=
  ∃ b ∈ bits (classify edge), ∀ m ∈ earlier, b ∉ bits (classify m)

/-- The map is non-zero at an index where every earlier one is zero. -/
def HasNewTuple (earlier : List (CovMap n)) (edge : CovMap n) : Prop :=
  ∃ i, edge i ≠ 0#8 ∧ ∀ m ∈ earlier, m i = 0#8

/-! ### Virgin maps and what they were shown -/

/-- The virgin map after `has_new_bits()` has been shown the maps. -/
def shownMaps (maps : List (CovMap n)) : CovMap n :=
  virginAfter (fun _ => 0xff#8) (maps.map fun m => .hasNewBits (classify m))

theorem shownMaps_concat (maps : List (CovMap n)) (m : CovMap n) :
    shownMaps (maps ++ [m]) = (hasNewBits (shownMaps maps) (classify m)).2 := by
  unfold shownMaps virginAfter
  rw [List.map_append, List.foldl_append]
  rfl

/-- A hit count of zero, and no other, classifies to zero. -/
theorem countClass_eq_zero_iff (b : Byte) : countClass b = 0#8 ↔ b = 0#8 := by
  revert b
  decide

/-- Masking leaves all ones exactly when there was nothing to clear. -/
theorem andNot_eq_ff_iff (v c : Byte) : v &&& ~~~ c = 0xff#8 ↔ v = 0xff#8 ∧ c = 0#8 := by
  have hmask : ∀ c : Byte, 0xff#8 &&& ~~~ c = 0xff#8 ↔ c = 0#8 := by decide
  constructor
  · intro h
    -- a bit missing from `v` is missing from the masked byte
    have hv : v = 0xff#8 := by
      calc v
        _ = v ||| (v &&& ~~~ c) := by
            ext k hk
            simp only [BitVec.getElem_or, BitVec.getElem_and]
            cases v[k] <;> simp
        _ = 0xff#8 := by rw [h]; exact BitVec.or_allOnes
    rw [hv] at h
    exact ⟨hv, (hmask c).mp h⟩
  · rintro ⟨rfl, rfl⟩
    rfl

/-- **A byte still at `0xff`** is one that no map shown has hit. -/
theorem shownMaps_eq_ff_iff (maps : List (CovMap n)) (i : Fin n) :
    shownMaps maps i = 0xff#8 ↔ ∀ m ∈ maps, m i = 0#8 := by
  induction maps using List.reverseRecOn with
  | nil => simp [shownMaps, virginAfter]
  | append_singleton maps m ih =>
    rw [shownMaps_concat, hasNewBits_virgin, andNot_eq_ff_iff, ih]
    simp only [classify, countClass_eq_zero_iff, List.mem_append, List.mem_singleton]
    constructor
    · rintro ⟨hold, hnew⟩ m' (hm' | rfl)
      · exact hold m' hm'
      · exact hnew
    · intro h
      exact ⟨fun m' hm' => h m' (Or.inl hm'), h m (Or.inr rfl)⟩

/-- The bits left are those of no map shown. -/
theorem mem_bits_shownMaps (maps : List (CovMap n)) (b : Bit n) :
    b ∈ bits (shownMaps maps) ↔ ∀ m ∈ maps, b ∉ bits (classify m) := by
  have hall : bits (fun _ : Fin n => (0xff#8 : Byte)) = Set.univ := bits_allOnes
  unfold shownMaps
  rw [bits_virginAfter, hall]
  simp [NoveltyCall.clears]

/-- The novelty level is not 0 exactly when the map has a new bit. -/
theorem newBitsLevel_ne_zero_iff (maps : List (CovMap n)) (edge : CovMap n) :
    newBitsLevel (shownMaps maps) (classify edge) ≠ 0 ↔ HasNewBit maps edge := by
  rw [Ne, newBitsLevel_eq_zero_iff, Set.not_disjoint_iff]
  unfold HasNewBit
  simp only [mem_bits_shownMaps]

/-- It is 2 exactly when the map has a new tuple. -/
theorem newBitsLevel_eq_two_iff (maps : List (CovMap n)) (edge : CovMap n) :
    newBitsLevel (shownMaps maps) (classify edge) = 2 ↔ HasNewTuple maps edge := by
  rw [(newBitsLevel_iff _ _).1]
  unfold HasNewTuple
  simp only [classify, ne_eq, countClass_eq_zero_iff, shownMaps_eq_ff_iff]

/-! ### The figures along a run -/

/-- The state the four statistics come from. -/
structure Figures (n : ℕ) where
  virginEdge : CovMap n
  virginMissed : CovMap n
  nNewEdges : ℕ
  nNewTuples : ℕ
  nSampleNewTuples : ℕ

/-- The figures of a state of the filter. -/
def State.figures (s : State n) : Figures n :=
  ⟨s.virginEdge, s.virginMissed, s.nNewEdges, s.nNewTuples, s.nSampleNewTuples⟩

/-- What a confirm does to the figures. -/
def Figures.confirm (v : Figures n) (cls : CovMap n) : Figures n :=
  { v with
    virginEdge := (hasNewBits v.virginEdge cls).2
    nNewEdges := v.nNewEdges + if newBitsLevel v.virginEdge cls ≠ 0 then 1 else 0
    nNewTuples := v.nNewTuples + if newBitsLevel v.virginEdge cls = 2 then 1 else 0 }

/-- What a sample that did not overflow does to the figures. -/
def Figures.sample (v : Figures n) (cls : CovMap n) : Figures n :=
  { v with
    virginMissed := (hasNewBits v.virginMissed cls).2
    nSampleNewTuples :=
      v.nSampleNewTuples + if newBitsLevel v.virginEdge cls = 2 then 1 else 0 }

/-- What an operation does to the figures. -/
def Figures.step (v : Figures n) : Operation n → Figures n
  | .path _ => v
  | .confirm edge _ => v.confirm (classify edge)
  | .sample edge overflowed => if overflowed then v else v.sample (classify edge)

theorem purgeCheck_figures (π : PurgePolicy n) (s : State n) :
    (purgeCheck π s).figures = s.figures := by
  unfold purgeCheck endPurgeAttempt
  dsimp only
  split <;> rfl

theorem hybridAfterPath_figures (π : PurgePolicy n) (map : CovMap n) (overflowed : Bool)
    (key : BitVec 64) (s : State n) :
    (hybridAfterPath π map overflowed key s).st.figures = s.figures := by
  have hdiscard : ∀ (cksum : BitVec 32) (t : State n),
      (discard cksum key t).2.figures = t.figures := by
    intro cksum t
    rw [discard_eq]
    rfl
  have hcheck := purgeCheck_figures π { s with pathExecs := s.pathExecs + 1 }
  unfold hybridAfterPath
  dsimp only
  split_ifs
  · rw [hdiscard]
    exact hcheck
  · rw [hdiscard]
    exact hcheck
  · exact hcheck

/-- The novelty bookkeeping of a confirm, with both of its conditionals as
increments. -/
theorem noteEdges_figures (s : State n) : (noteEdges s).figures = s.figures.confirm s.edgeCls := by
  unfold noteEdges
  dsimp only
  rw [hasNewBits_ret]
  by_cases hlevel : newBitsLevel s.virginEdge s.edgeCls ≠ 0
  · by_cases htwo : newBitsLevel s.virginEdge s.edgeCls = 2
    · simp [State.figures, Figures.confirm, htwo]
    · simp [State.figures, Figures.confirm, hlevel, htwo]
  · have hzero := not_not.mp hlevel
    simp [State.figures, Figures.confirm, hzero]

theorem hybridAfterConfirm_figures (π : PurgePolicy n) (map : CovMap n) (overflowed : Bool)
    (s : State n) :
    (hybridAfterConfirm π map overflowed s).figures = s.figures.confirm (classify map) := by
  have hkeep : ∀ t : State n, (keepEdges map overflowed t).figures = t.figures := by
    intro t
    unfold keepEdges
    split
    · rw [rememberInput_eq]
      rfl
    · rfl
  calc (hybridAfterConfirm π map overflowed s).figures
    _ = (noteEdges { purgeCheck π s with edgeCls := classify map }).figures := hkeep _
    _ = (purgeCheck π s).figures.confirm (classify map) := noteEdges_figures _
    _ = s.figures.confirm (classify map) := by rw [purgeCheck_figures]

theorem hybridAfterSample_figures (map : CovMap n) (overflowed : Bool) (s : State n) :
    (hybridAfterSample map overflowed s).figures =
      if overflowed then s.figures else s.figures.sample (classify map) := by
  unfold hybridAfterSample
  by_cases ho : overflowed = true
  · rw [if_pos ho, if_pos ho]
    rfl
  · rw [if_neg ho, if_neg ho]
    dsimp only
    rw [peekNewBits_eq]
    by_cases hlevel : newBitsLevel s.virginEdge (classify map) ≠ 0
    · by_cases htwo : newBitsLevel s.virginEdge (classify map) = 2
      · simp [State.figures, Figures.sample, htwo]
      · simp [State.figures, Figures.sample, hlevel, htwo]
    · have hzero := not_not.mp hlevel
      simp [State.figures, Figures.sample, hzero]

/-- **One operation** moves the figures by what it reads of them. -/
theorem operate_figures (A : PurgeArith) (s : State n) (op : Operation n) :
    (operate A s op).1.figures = s.figures.step op := by
  cases op with
  | path c => exact hybridAfterPath_figures _ _ _ _ s
  | confirm edge overflowed => exact hybridAfterConfirm_figures _ _ _ s
  | sample edge overflowed => exact hybridAfterSample_figures _ _ s

/-! ### The figures after a run -/

section Run

variable (A : PurgeArith) (pathCls pathKept edgeCls : CovMap n)

/-- The state a sequence of operations leads to from the initial one. -/
def stateAfter (ops : List (Operation n)) : State n :=
  (Ops.run (operate A) (hybridInit pathCls pathKept edgeCls) ops).1

theorem stateAfter_concat (ops : List (Operation n)) (op : Operation n) :
    (stateAfter A pathCls pathKept edgeCls (ops ++ [op])).figures =
      (stateAfter A pathCls pathKept edgeCls ops).figures.step op := by
  unfold stateAfter
  rw [Ops.run_concat, operate_figures]

theorem stateAfter_figures (ops : List (Operation n)) :
    (stateAfter A pathCls pathKept edgeCls ops).figures =
      ops.foldl Figures.step (hybridInit pathCls pathKept edgeCls).figures := by
  induction ops using List.reverseRecOn with
  | nil => rfl
  | append_singleton ops op ih =>
    rw [stateAfter_concat, ih, List.foldl_append]
    rfl

/-- `virgin_edge` has been shown the confirmed maps, and `virgin_missed` the
sampled ones. -/
theorem virgin_stateAfter (ops : List (Operation n)) :
    (stateAfter A pathCls pathKept edgeCls ops).figures.virginEdge = shownMaps (confirmedMaps ops) ∧
      (stateAfter A pathCls pathKept edgeCls ops).figures.virginMissed =
        shownMaps (sampledMaps ops) := by
  induction ops using List.reverseRecOn with
  | nil => exact ⟨rfl, rfl⟩
  | append_singleton ops op ih =>
    obtain ⟨hedge, hmissed⟩ := ih
    have hconf : confirmedMaps (ops ++ [op]) = confirmedMaps ops ++ confirmedMaps [op] :=
      List.filterMap_append
    have hsamp : sampledMaps (ops ++ [op]) = sampledMaps ops ++ sampledMaps [op] :=
      List.filterMap_append
    rw [stateAfter_concat, hconf, hsamp]
    cases op with
    | path c => simpa [confirmedMaps, sampledMaps, Figures.step] using ⟨hedge, hmissed⟩
    | confirm edge overflowed =>
      have hnew : confirmedMaps [Operation.confirm edge overflowed] = [edge] := rfl
      have hnone : sampledMaps [Operation.confirm edge overflowed] = [] := rfl
      rw [hnew, hnone, shownMaps_concat, List.append_nil, ← hedge]
      exact ⟨rfl, hmissed⟩
    | sample edge overflowed =>
      -- an overflowed sample shows nothing
      have hnone : confirmedMaps [Operation.sample edge overflowed] = [] := rfl
      rw [hnone, List.append_nil]
      cases overflowed with
      | true => simpa [sampledMaps, Figures.step] using ⟨hedge, hmissed⟩
      | false =>
        have hnew : sampledMaps [Operation.sample edge false] = [edge] := rfl
        rw [hnew, shownMaps_concat, ← hmissed]
        exact ⟨hedge, rfl⟩

/-- The operation is a confirm whose map is new to the maps confirmed before it,
in the sense of `New`. -/
def ConfirmsNew (New : List (CovMap n) → CovMap n → Prop) (before : List (Operation n))
    (op : Operation n) : Prop :=
  ∃ edge overflowed, op = .confirm edge overflowed ∧ New (confirmedMaps before) edge

/-- The operation is a sample that did not overflow and whose map has a tuple new
to the maps confirmed before it. -/
def SamplesNew (before : List (Operation n)) (op : Operation n) : Prop :=
  ∃ edge, op = .sample edge false ∧ HasNewTuple (confirmedMaps before) edge

open Classical in
/-- The increments of the three counters at one operation, by the history. -/
theorem counters_concat (ops : List (Operation n)) (op : Operation n) :
    let v := (stateAfter A pathCls pathKept edgeCls ops).figures
    (v.step op).nNewEdges = v.nNewEdges + (if ConfirmsNew HasNewBit ops op then 1 else 0) ∧
      (v.step op).nNewTuples = v.nNewTuples + (if ConfirmsNew HasNewTuple ops op then 1 else 0) ∧
      (v.step op).nSampleNewTuples =
        v.nSampleNewTuples + (if SamplesNew ops op then 1 else 0) := by
  intro v
  have hedge : v.virginEdge = shownMaps (confirmedMaps ops) :=
    (virgin_stateAfter A pathCls pathKept edgeCls ops).1
  -- the virgin map says what is new, and the history what it was shown
  cases op with
  | path c => simp [ConfirmsNew, SamplesNew, Figures.step]
  | confirm edge overflowed =>
    simp [ConfirmsNew, SamplesNew, Figures.step, Figures.confirm, hedge,
      newBitsLevel_eq_two_iff, ← newBitsLevel_ne_zero_iff]
  | sample edge overflowed =>
    cases overflowed with
    | true => simp [ConfirmsNew, SamplesNew, Figures.step]
    | false =>
      simp [ConfirmsNew, SamplesNew, Figures.step, Figures.sample, hedge, newBitsLevel_eq_two_iff]

/-- A figure that grows by one exactly at the operations that meet `P` is the
tally of `P`. -/
theorem figure_eq_tally (figure : Figures n → ℕ) (P : List (Operation n) → Operation n → Prop)
    (hinit : figure (hybridInit pathCls pathKept edgeCls).figures = 0)
    (hstep : open Classical in ∀ ops op,
      figure ((stateAfter A pathCls pathKept edgeCls ops).figures.step op) =
        figure (stateAfter A pathCls pathKept edgeCls ops).figures + if P ops op then 1 else 0)
    (ops : List (Operation n)) :
    figure (stateAfter A pathCls pathKept edgeCls ops).figures = Ops.tally P ops := by
  refine Ops.counter_eq_tally (fun s : State n => figure s.figures) hinit (fun ops op => ?_) ops
  rw [operate_figures]
  exact hstep ops op

/-! ### The order of the samples -/

/-- Samples, and path passes, may change places. -/
theorem Figures.step_comm {op op' : Operation n}
    (hop : ∀ edge overflowed, op ≠ .confirm edge overflowed)
    (hop' : ∀ edge overflowed, op' ≠ .confirm edge overflowed) (v : Figures n) :
    (v.step op).step op' = (v.step op').step op := by
  -- clearing the bits of two maps is the same in either order
  have hsample : ∀ cls cls' : CovMap n,
      (v.sample cls).sample cls' = (v.sample cls').sample cls := by
    intro cls cls'
    have hmissed : (hasNewBits (hasNewBits v.virginMissed cls).2 cls').2 =
        (hasNewBits (hasNewBits v.virginMissed cls').2 cls).2 := by
      apply bits_injective
      simp only [bits_hasNewBits]
      exact sdiff_right_comm _ _ _
    unfold Figures.sample
    dsimp only
    rw [hmissed, Nat.add_right_comm]
  cases op with
  | confirm edge overflowed => exact absurd rfl (hop edge overflowed)
  | path c => rfl
  | sample edge overflowed =>
    cases op' with
    | confirm edge' overflowed' => exact absurd rfl (hop' edge' overflowed')
    | path c => rfl
    | sample edge' overflowed' =>
      unfold Figures.step
      dsimp only
      split_ifs
      · rfl
      · rfl
      · rfl
      · exact hsample _ _

/-- Permuting a stretch of a run without confirms changes none of the figures. -/
theorem figures_perm {before block block' after : List (Operation n)}
    (hblock : ∀ op ∈ block, ∀ edge overflowed, op ≠ .confirm edge overflowed)
    (hperm : block.Perm block') :
    (stateAfter A pathCls pathKept edgeCls (before ++ block ++ after)).figures =
      (stateAfter A pathCls pathKept edgeCls (before ++ block' ++ after)).figures := by
  simp only [stateAfter_figures, List.foldl_append]
  have hcomm : ∀ op ∈ block, ∀ op' ∈ block, ∀ v : Figures n,
      (v.step op).step op' = (v.step op').step op :=
    fun op hop op' hop' v => Figures.step_comm (hblock op hop) (hblock op' hop') v
  rw [hperm.foldl_eq' hcomm]

/-! ### The statistics -/

/-- The number of indices that the loop counts. -/
theorem foldl_count_eq_ncard (p : Fin n → Prop) [DecidablePred p] :
    (List.finRange n).foldl (fun c i => c + if p i then 1 else 0) 0 = {i | p i}.ncard := by
  have hfold : ∀ (is : List (Fin n)) (c : ℕ),
      is.foldl (fun c i => c + if p i then 1 else 0) c = c + is.countP p := by
    intro is
    induction is with
    | nil => intro c; rfl
    | cons i is ih =>
      intro c
      rw [List.foldl_cons, ih, List.countP_cons]
      simp only [decide_eq_true_eq]
      omega
  rw [hfold, Nat.zero_add, List.countP_eq_length_filter]
  have hset : {i | p i} = (((List.finRange n).filter p).toFinset : Set (Fin n)) := by
    ext i
    simp
  rw [hset, Set.ncard_coe_finset, List.toFinset_card_of_nodup ((List.nodup_finRange n).filter _)]

theorem countMissedTuples_eq (s : State n) :
    countMissedTuples s = {i | s.virginMissed i ≠ 0xff#8 ∧ s.virginEdge i = 0xff#8}.ncard :=
  foldl_count_eq_ncard _

/-- **The coverage statistics mean what the header says.** After any sequence of
hybrid operations, `n_new_edges` is the number of confirms whose classified edge
map has a bit that no earlier confirmed map has, `n_new_tuples` the number of
confirms with a non-zero byte where every earlier confirmed map is zero, and
`n_sample_new_tuples` the same number of samples that did not overflow;
`count_missed_tuples()` is the number of indices where some such sample is
non-zero and every confirmed map is zero. None of them changes when the
operations between two confirms are permuted. -/
theorem statistics_mean (ops : List (Operation n)) :
    let s := stateAfter A pathCls pathKept edgeCls ops
    s.nNewEdges = Ops.tally (ConfirmsNew HasNewBit) ops ∧
      s.nNewTuples = Ops.tally (ConfirmsNew HasNewTuple) ops ∧
      s.nSampleNewTuples = Ops.tally SamplesNew ops ∧
      countMissedTuples s =
        {i | (∃ m ∈ sampledMaps ops, m i ≠ 0#8) ∧ ∀ m ∈ confirmedMaps ops, m i = 0#8}.ncard ∧
      ∀ before block block' after, ops = before ++ block ++ after → block.Perm block' →
        (∀ op ∈ block, ∀ edge overflowed, op ≠ .confirm edge overflowed) →
        let s' := stateAfter A pathCls pathKept edgeCls (before ++ block' ++ after)
        s'.nNewEdges = s.nNewEdges ∧ s'.nNewTuples = s.nNewTuples ∧
          s'.nSampleNewTuples = s.nSampleNewTuples ∧
          countMissedTuples s' = countMissedTuples s := by
  intro s
  refine ⟨?_, ?_, ?_, ?_, ?_⟩
  · exact figure_eq_tally A pathCls pathKept edgeCls Figures.nNewEdges _ rfl
      (fun ops op => (counters_concat A pathCls pathKept edgeCls ops op).1) ops
  · exact figure_eq_tally A pathCls pathKept edgeCls Figures.nNewTuples _ rfl
      (fun ops op => (counters_concat A pathCls pathKept edgeCls ops op).2.1) ops
  · exact figure_eq_tally A pathCls pathKept edgeCls Figures.nSampleNewTuples _ rfl
      (fun ops op => (counters_concat A pathCls pathKept edgeCls ops op).2.2) ops
  · -- a byte of a virgin map is untouched exactly if no map shown had it
    obtain ⟨hedge, hmissed⟩ := virgin_stateAfter A pathCls pathKept edgeCls ops
    rw [countMissedTuples_eq]
    congr 1
    ext i
    have hm : s.virginMissed i = shownMaps (sampledMaps ops) i := congrFun hmissed i
    have he : s.virginEdge i = shownMaps (confirmedMaps ops) i := congrFun hedge i
    simp [hm, he, shownMaps_eq_ff_iff]
  · -- all figures but the last are read off the state directly
    rintro before block block' after rfl hperm hblock s'
    have hfig : s'.figures = s.figures :=
      (figures_perm A pathCls pathKept edgeCls hblock hperm).symm
    have hedge : s'.virginEdge = s.virginEdge := congrArg Figures.virginEdge hfig
    have hmissed : s'.virginMissed = s.virginMissed := congrArg Figures.virginMissed hfig
    refine ⟨congrArg Figures.nNewEdges hfig, congrArg Figures.nNewTuples hfig,
      congrArg Figures.nSampleNewTuples hfig, ?_⟩
    rw [countMissedTuples_eq, countMissedTuples_eq, hedge, hmissed]

end Run

end Hybrid
end CsTrace
