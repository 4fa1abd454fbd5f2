import CoresightTrace.Hybrid.History

/-!
# The filter simulates its history

`Sim f` says that every table of the filter is what the history of the run
makes it: the virgin maps are complements of unions of classified maps, the
Bloom tables hold the checksum halves that led nowhere, and the two caches hold
the last clean confirm and the last takeover of each slot. Each call preserves
it (`Sim.afterPath`, `Sim.afterConfirm`, `Sim.afterSample`), so it holds of
every reachable front (`Sim.of_reachable`).
-/

open BitCover

namespace CsTrace
namespace Hybrid

variable {n : ℕ}

/-- The filter's tables are what the history says. -/
structure Sim (f : Front n) : Prop where
  kept : f.Kept
  edge : bits f.st.virginEdge = (confirmedBits f.hist)ᶜ
  real : bits f.st.virginAtomReal = (foundPaths f.hist)ᶜ
  atom : bits f.st.virginAtom = (recorded f.hist ∪ tested f.hist)ᶜ
  up : ∀ u, f.st.atomCheckUp u = true ↔ Fruitless f.hist fun k => upperHalf k = u
  down : ∀ u, f.st.atomCheckDown u = true ↔ Fruitless f.hist fun k => lowerHalf k = u
  cache : f.st.cache = lastClean f.hist
  inputs : f.st.inputs = holder f.hist

theorem Sim.initial (pathCls pathKept edgeCls : CovMap n) :
    Sim (Front.initial pathCls pathKept edgeCls) where
  kept := fun c hc => absurd hc (by simp [Front.initial])
  edge := by
    rw [show (Front.initial pathCls pathKept edgeCls).hist = [] from rfl, confirmedBits_nil,
      Set.compl_empty]
    exact bits_allOnes
  real := by
    rw [show (Front.initial pathCls pathKept edgeCls).hist = [] from rfl, foundPaths_nil,
      Set.compl_empty]
    exact bits_allOnes
  atom := by
    rw [show (Front.initial pathCls pathKept edgeCls).hist = [] from rfl]
    simp only [recorded, beforePurge, foundPaths_nil, tested_nil, Set.union_empty, Set.compl_empty]
    exact bits_allOnes
  up := fun u => by simp [Front.initial, hybridInit]
  down := fun u => by simp [Front.initial, hybridInit]
  cache := rfl
  inputs := rfl

/-! ### What the tests read -/

/-- The checksum filter is the filter on the history. -/
theorem Sim.filtered_iff {f : Front n} (hS : Sim f) (map : CovMap n) :
    filtered f.st (checksum map) = true ↔ Filtered f.hist map := by
  unfold filtered Filtered
  rw [Bool.and_eq_true, hS.up, hS.down]

/-- `virgin_atom` at the novelty test of a path pass holds what is neither
recorded nor tested in the history the pass is decided in. -/
theorem Sim.atomAtTest {f : Front n} (hS : Sim f) (π : PurgePolicy n) :
    bits (atomAtTest π f.st) = (recorded (f.histAtTest π) ∪ tested (f.histAtTest π))ᶜ := by
  unfold Front.histAtTest Hybrid.atomAtTest
  -- a purge puts `virgin_atom_real` in the place of `virgin_atom`
  rw [recorded_union_tested_notePurge]
  split
  · exact hS.real
  · exact hS.atom

/-- An edge map has new bits exactly when it has a bit of no map confirmed
before. -/
theorem Sim.newEdges_iff {f : Front n} (hS : Sim f) (edge : CovMap n) :
    newBitsLevel f.st.virginEdge (classify edge) ≠ 0 ↔ FoundNew f.hist edge := by
  -- the bits still virgin are the complement of those confirmed
  rw [Ne, newBitsLevel_eq_zero_iff, hS.edge, Set.disjoint_compl_right_iff_subset, Set.subset_def]
  unfold FoundNew
  push Not
  rfl

/-! ### The path pass -/

section AfterPath

variable {f : Front n} (π : PurgePolicy n) (c : PathCall n)

theorem filtered_histAtTest (map : CovMap n) :
    Filtered (f.histAtTest π) map ↔ Filtered f.hist map := by
  simp [Filtered, Front.histAtTest]

theorem Sim.atom_afterPath (hS : Sim f) :
    bits (f.afterPath π c).st.virginAtom =
      (recorded (f.afterPath π c).hist ∪ tested (f.afterPath π c).hist)ᶜ := by
  unfold Front.afterPath Front.pathResult
  dsimp only
  rw [hybridAfterPath_virginAtom, tested_path, filtered_histAtTest, ← hS.filtered_iff]
  change _ = (recorded (f.histAtTest π) ∪ _)ᶜ
  split
  · next hf =>
    -- the filter stops the path before the test, which then adds nothing
    rw [hS.atomAtTest π]
    simp [hf]
  · next hf =>
    -- the test takes the path's bits out of `virgin_atom`
    rw [bits_hasNewBits, hS.atomAtTest π]
    ext b
    simp only [hf, Set.mem_sdiff, Set.mem_compl_iff, Set.mem_union, Set.mem_ofPred_eq]
    tauto

theorem Sim.inputs_afterPath (hS : Sim f) :
    (f.afterPath π c).st.inputs = holder (f.afterPath π c).hist := by
  unfold Front.afterPath
  dsimp only
  cases hv : (f.pathResult π c).verdict with
  | confirm =>
    -- a path to confirm offers nothing yet
    rw [holder_cons_none rfl]
    obtain ⟨-, hi, -⟩ := hybridAfterPath_of_confirm π c.map c.overflowed c.inputKey f.st hv
    exact hi.trans (hS.inputs.trans (holder_notePurge _ _).symm)
  | discard =>
    obtain ⟨-, hi⟩ := hybridAfterPath_of_discard π c.map c.overflowed c.inputKey f.st hv
    refine hi.trans ?_
    -- a discarded path offers what the cache holds for it
    have hoff : offer (f.histAtTest π) (.path c .discard (f.pathResult π c).map) =
        (DirectMap.lookup cacheSlot f.st.cache (checksum c.map)).map fun m => (c.inputKey, m) := by
      rw [hS.cache]
      simp [offer, cachedFor, Front.histAtTest]
    have hh : holder (f.histAtTest π) = f.st.inputs := by
      rw [hS.inputs]
      exact holder_notePurge _ _
    -- and `discard()` takes the offer up as the replay does
    rw [discard_inputs]
    cases hc : DirectMap.lookup cacheSlot f.st.cache (checksum c.map) with
    | none =>
      rw [hc] at hoff
      rw [holder_cons_none hoff, hh]
    | some m =>
      rw [hc] at hoff
      rw [holder_cons_some hoff, hh]

theorem Sim.afterPath (hS : Sim f) : Sim (f.afterPath π c) where
  kept := f.kept_afterPath π c
  edge := by simp [Front.afterPath, Front.pathResult, Front.histAtTest, hS.edge]
  real := by
    simp [Front.afterPath, Front.pathResult, Front.histAtTest, foundPaths_cons, hS.real]
  atom := hS.atom_afterPath π c
  up := fun u => by
    simp [Front.afterPath, Front.pathResult, Front.histAtTest, fruitless_cons, hS.up]
  down := fun u => by
    simp [Front.afterPath, Front.pathResult, Front.histAtTest, fruitless_cons, hS.down]
  cache := by
    unfold Front.afterPath Front.pathResult Front.histAtTest
    dsimp only
    rw [lastClean_cons (fun _ => rfl), lastClean_notePurge, hybridAfterPath_cache, hS.cache]
  inputs := hS.inputs_afterPath π c

end AfterPath

/-! ### The edge pass -/

section AfterConfirm

variable {f : Front n} (π : PurgePolicy n) {c : PathCall n} (edge : CovMap n) (ov : Bool)

theorem Sim.real_afterConfirm (hS : Sim f) (hc : f.awaiting = some c) :
    bits (f.afterConfirm π c edge ov).st.virginAtomReal =
      (foundPaths (f.afterConfirm π c edge ov).hist)ᶜ := by
  obtain ⟨hkept, -⟩ := hS.kept c hc
  unfold Front.afterConfirm
  dsimp only
  rw [hybridAfterConfirm_virginAtomReal, foundPaths_confirm, foundPaths_notePurge,
    foundNew_notePurge, ← hS.newEdges_iff]
  split
  · next hnew =>
    -- new edges: the kept path joins the found ones
    rw [bits_hasNewBits, hS.real, hkept]
    ext b
    simp only [ne_eq] at hnew
    simp only [hnew, Set.mem_sdiff, Set.mem_compl_iff, Set.mem_union, Set.mem_ofPred_eq, ne_eq,
      not_false_eq_true, true_and]
    tauto
  · next hold =>
    rw [hS.real]
    -- no new edges: neither side changes
    simp only [ne_eq, not_not] at hold
    simp [hold]

theorem Sim.atom_afterConfirm (hS : Sim f) :
    bits (f.afterConfirm π c edge ov).st.virginAtom =
      (recorded (f.afterConfirm π c edge ov).hist ∪
        tested (f.afterConfirm π c edge ov).hist)ᶜ := by
  unfold Front.afterConfirm
  dsimp only
  rw [hybridAfterConfirm_virginAtom, tested_cons (by simp) (by simp)]
  -- a confirm is no test, so only the purge check of the edge pass counts
  change _ = (recorded (notePurge (purges π f.st) f.hist) ∪ _)ᶜ
  rw [recorded_union_tested_notePurge]
  split
  · exact hS.real
  · exact hS.atom

/-- One table of the checksum filter, on the half of the checksum it is indexed
by: a confirm without new edges marks the half of the kept path. -/
theorem Sim.mark_afterConfirm (hS : Sim f) (half : BitVec 32 → BitVec 16)
    {table : BitVec 16 → Bool}
    (htable : ∀ u, table u = true ↔ Fruitless f.hist fun k => half k = u) (u : BitVec 16) :
    (if newBitsLevel f.st.virginEdge (classify edge) ≠ 0 then table
        else Function.update table (half (checksum c.map)) true) u = true ↔
      Fruitless (f.afterConfirm π c edge ov).hist fun k => half k = u := by
  unfold Front.afterConfirm
  dsimp only
  rw [fruitless_confirm, foundNew_notePurge, fruitless_notePurge, ← hS.newEdges_iff, ← htable]
  split
  · next hnew => simp [hnew]
  · next hold =>
    rw [Function.update_apply]
    by_cases hu : u = half (checksum c.map)
    · simp [hu, hold]
    · simp [hu, Ne.symm hu]

theorem Sim.up_afterConfirm (hS : Sim f) (hc : f.awaiting = some c) (u : BitVec 16) :
    (f.afterConfirm π c edge ov).st.atomCheckUp u = true ↔
      Fruitless (f.afterConfirm π c edge ov).hist fun k => upperHalf k = u := by
  obtain ⟨-, hck, -⟩ := hS.kept c hc
  rw [← hS.mark_afterConfirm π edge ov upperHalf hS.up, ← hck,
    ← hybridAfterConfirm_atomCheckUp π edge ov]
  rfl

theorem Sim.down_afterConfirm (hS : Sim f) (hc : f.awaiting = some c) (u : BitVec 16) :
    (f.afterConfirm π c edge ov).st.atomCheckDown u = true ↔
      Fruitless (f.afterConfirm π c edge ov).hist fun k => lowerHalf k = u := by
  obtain ⟨-, hck, -⟩ := hS.kept c hc
  rw [← hS.mark_afterConfirm π edge ov lowerHalf hS.down, ← hck,
    ← hybridAfterConfirm_atomCheckDown π edge ov]
  rfl

theorem Sim.cache_afterConfirm (hS : Sim f) (hc : f.awaiting = some c) :
    (f.afterConfirm π c edge ov).st.cache = lastClean (f.afterConfirm π c edge ov).hist := by
  obtain ⟨-, hck, hov, -⟩ := hS.kept c hc
  unfold Front.afterConfirm
  dsimp only
  -- the kept checksum and overflow flag are those of the awaited path pass
  rw [hybridAfterConfirm_cache, lastClean_confirm, lastClean_notePurge, ← hS.cache, hck, hov]

theorem Sim.inputs_afterConfirm (hS : Sim f) (hc : f.awaiting = some c) :
    (f.afterConfirm π c edge ov).st.inputs = holder (f.afterConfirm π c edge ov).hist := by
  obtain ⟨-, -, hov, hin⟩ := hS.kept c hc
  unfold Front.afterConfirm
  dsimp only
  rw [hybridAfterConfirm_inputs, hov, hin]
  split
  · next hclean =>
    -- both passes were clean: the input is offered the edge map
    rw [holder_cons_some (k := c.inputKey) (m := edge) (by simp [offer, hclean]),
      holder_notePurge, ← hS.inputs]
  · next hdirty =>
    rw [holder_cons_none (by simp [offer, hdirty]), holder_notePurge, hS.inputs]

theorem Sim.afterConfirm (hS : Sim f) (hc : f.awaiting = some c) :
    Sim (f.afterConfirm π c edge ov) where
  kept := fun c' hc' => absurd hc' (by simp [Front.afterConfirm])
  edge := by
    unfold Front.afterConfirm
    dsimp only
    -- `virgin_edge` loses the confirmed bits, new or not
    rw [hybridAfterConfirm_virginEdge, bits_hasNewBits, hS.edge, confirmedBits_confirm,
      confirmedBits_notePurge, Set.compl_union, Set.sdiff_eq, Set.inter_comm]
  real := hS.real_afterConfirm π edge ov hc
  atom := hS.atom_afterConfirm π edge ov
  up := hS.up_afterConfirm π edge ov hc
  down := hS.down_afterConfirm π edge ov hc
  cache := hS.cache_afterConfirm π edge ov hc
  inputs := hS.inputs_afterConfirm π edge ov hc

end AfterConfirm

/-! ### The sampled discard, and the run -/

theorem Sim.afterSample {f : Front n} (hS : Sim f) (edge : CovMap n) (ov : Bool) :
    Sim (f.afterSample edge ov) where
  kept := fun c hc => by simpa [Front.afterSample] using hS.kept c hc
  edge := by simp [Front.afterSample, hS.edge]
  real := by simp [Front.afterSample, foundPaths_cons, hS.real]
  atom := by
    unfold Front.afterSample
    dsimp only
    rw [tested_cons (by simp) (by simp), hybridAfterSample_virginAtom]
    exact hS.atom
  up := fun u => by simp [Front.afterSample, fruitless_cons, hS.up]
  down := fun u => by simp [Front.afterSample, fruitless_cons, hS.down]
  cache := by
    unfold Front.afterSample
    dsimp only
    rw [lastClean_cons (fun _ => rfl), hybridAfterSample_cache, hS.cache]
  inputs := by
    unfold Front.afterSample
    dsimp only
    rw [holder_cons_none rfl, hybridAfterSample_inputs, hS.inputs]

/-- Each call keeps the simulation. -/
theorem Sim.step {f f' : Front n} {l : Call n} (hS : Sim f) (hstep : HybridStep f l f') :
    Sim f' := by
  cases hstep with
  | path π c _ => exact hS.afterPath π c
  | confirm π c edge ov hc => exact hS.afterConfirm π edge ov hc
  | sample edge ov => exact hS.afterSample edge ov

/-- **The simulation.** Every reachable front is what its history makes it. -/
theorem Sim.of_reachable {f : Front n} (hf : (hybridMachine n).Reachable f) : Sim f := by
  refine hf.invariant ?_ fun f l f' hS hstep => hS.step hstep
  rintro _ ⟨pathCls, pathKept, edgeCls, rfl⟩
  exact Sim.initial pathCls pathKept edgeCls

end Hybrid
end CsTrace
