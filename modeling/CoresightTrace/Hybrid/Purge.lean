import CoresightTrace.Hybrid.Protocol

/-!
# What a purge forgets

A purge resets `virgin_atom` to `virgin_atom_real`, so it forgets the paths that
led nowhere and no others as long as every path recorded in the latter is also
recorded in the former (`RealSeen`). The path pass clears `virgin_atom` and the
edge pass `virgin_atom_real`, so a path is in the first before it can be in the
second, unless a purge comes between the two.

`purge_check()` runs at the start of both passes, and at the start of the edge
pass it does come between: the path just tested is forgotten, and then recorded
as having led to new edges. `realSeen_iff_no_purging_discovery` shows that this
is the only way the inclusion fails, and that it fails every time:
`ForgetsDiscovery` is the condition on the confirm. `purge_at_confirm_forgets`
is a run of the filter that meets it, with the source's own purge decisions.
-/

open BitCover

namespace CsTrace
namespace Hybrid

variable {n : ℕ}

/-- Every bit cleared in `virgin_atom_real` is cleared in `virgin_atom`. -/
def RealSeen (s : State n) : Prop :=
  ∀ i, s.virginAtom i &&& ~~~ s.virginAtomReal i = 0#8

theorem realSeen_iff (s : State n) : RealSeen s ↔ bits s.virginAtom ⊆ bits s.virginAtomReal :=
  andNot_eq_zero_iff_subset _ _

/-- The call is an edge pass whose purge check resets `virgin_atom` and whose
edge map has new bits. -/
def ForgetsDiscovery (f : Front n) : Call n → Prop
  | .confirm π edge _ =>
    purges π f.st = true ∧ newBitsLevel f.st.virginEdge (classify edge) ≠ 0
  | _ => False

/-- What carries the inclusion through a run. Between a `CONFIRM` verdict and
its edge pass the kept path is cleared in `virgin_atom` and has a bit that is
not recorded as having led to new edges. -/
structure PurgeInv (f : Front n) : Prop where
  seen : RealSeen f.st
  tested : f.awaiting ≠ none → Disjoint (bits f.st.pathKept) (bits f.st.virginAtom)
  unrecorded : f.awaiting ≠ none → ¬ Disjoint (bits f.st.pathKept) (bits f.st.virginAtomReal)

/-! ### The path pass -/

theorem RealSeen.atomAtTest {s : State n} (h : RealSeen s) (π : PurgePolicy n) :
    bits (Hybrid.atomAtTest π s) ⊆ bits s.virginAtomReal := by
  unfold Hybrid.atomAtTest
  split
  · -- a purge makes the two maps equal
    exact Set.Subset.rfl
  · exact (realSeen_iff s).mp h

theorem RealSeen.afterPath {f : Front n} (h : RealSeen f.st) (π : PurgePolicy n)
    (c : PathCall n) : RealSeen (f.afterPath π c).st := by
  rw [realSeen_iff]
  unfold Front.afterPath Front.pathResult
  dsimp only
  -- the path pass only clears bits of `virgin_atom`
  rw [hybridAfterPath_virginAtom, hybridAfterPath_virginAtomReal]
  split
  · exact h.atomAtTest π
  · rw [bits_hasNewBits]
    exact Set.sdiff_subset.trans (h.atomAtTest π)

/-- A path to confirm got past the filter and has a bit of `virgin_atom`. -/
theorem new_of_confirm {f : Front n} {π : PurgePolicy n} {c : PathCall n}
    (hv : (f.pathResult π c).verdict = .confirm) :
    filtered f.st (checksum c.map) = false ∧
      ¬ Disjoint (bits (classify c.map)) (bits (atomAtTest π f.st)) := by
  -- a filtered or old path would have been discarded
  have hv' := (hybridAfterPath_verdict π c.map c.overflowed c.inputKey f.st).symm.trans hv
  have hcond : ¬ (filtered f.st (checksum c.map) = true ∨
      newBitsLevel (atomAtTest π f.st) (classify c.map) = 0) := by
    intro hor
    rw [if_pos hor] at hv'
    exact absurd hv' (by simp)
  rw [not_or, newBitsLevel_eq_zero_iff] at hcond
  exact ⟨by simpa using hcond.1, hcond.2⟩

theorem PurgeInv.afterPath {f : Front n} (h : RealSeen f.st) (π : PurgePolicy n)
    (c : PathCall n) : PurgeInv (f.afterPath π c) := by
  have hreal : (f.afterPath π c).st.virginAtomReal = f.st.virginAtomReal :=
    hybridAfterPath_virginAtomReal _ _ _ _ _
  cases hv : (f.pathResult π c).verdict with
  | discard =>
    -- nothing is kept, so only the inclusion is to show
    have haw := Front.awaiting_of_discard hv
    exact ⟨h.afterPath π c, fun hne => absurd haw hne, fun hne => absurd haw hne⟩
  | confirm =>
    obtain ⟨hkept, -⟩ := f.kept_afterPath π c c (Front.awaiting_of_confirm hv)
    obtain ⟨hpass, hnew⟩ := new_of_confirm hv
    refine ⟨h.afterPath π c, fun _ => ?_, fun _ hd => ?_⟩
    · -- the novelty test has just cleared the path
      have hatom : (f.afterPath π c).st.virginAtom =
          (hasNewBits (atomAtTest π f.st) (classify c.map)).2 := by
        refine (hybridAfterPath_virginAtom π c.map c.overflowed c.inputKey f.st).trans ?_
        rw [if_neg (by simp [hpass])]
      rw [hkept, hatom, bits_hasNewBits]
      exact Set.disjoint_sdiff_right
    · -- the bit that was new to `virgin_atom` is one `virgin_atom_real` still has
      rw [hkept, hreal] at hd
      exact hnew (hd.mono_right (h.atomAtTest π))

/-! ### The edge pass -/

/-- **One edge pass.** It keeps the inclusion exactly when it does not forget a
discovery. -/
theorem PurgeInv.afterConfirm_iff {f : Front n} {c : PathCall n} (h : PurgeInv f)
    (hc : f.awaiting = some c) (π : PurgePolicy n) (edge : CovMap n) (ov : Bool) :
    RealSeen (f.afterConfirm π c edge ov).st ↔ ¬ ForgetsDiscovery f (.confirm π edge ov) := by
  have hseen := (realSeen_iff _).mp h.seen
  have haw : f.awaiting ≠ none := by simp [hc]
  rw [realSeen_iff]
  unfold Front.afterConfirm ForgetsDiscovery
  dsimp only
  rw [hybridAfterConfirm_virginAtom, hybridAfterConfirm_virginAtomReal]
  by_cases hnew : newBitsLevel f.st.virginEdge (classify edge) ≠ 0
  · rw [if_pos hnew, bits_hasNewBits]
    by_cases hp : purges π f.st = true
    · -- `virgin_atom` is reset before the kept path is recorded
      rw [if_pos hp]
      refine iff_of_false (fun hsub => ?_) (by simp [hp, hnew])
      refine h.unrecorded haw (Set.disjoint_left.mpr fun b hb hr => ?_)
      exact (hsub hr).2 hb
    · -- `virgin_atom` still has the kept path cleared
      rw [if_neg hp]
      refine iff_of_true (fun b hb => ⟨hseen hb, fun hkept => ?_⟩) (by simp [hp])
      exact Set.disjoint_left.mp (h.tested haw) hkept hb
  · rw [if_neg hnew]
    -- nothing is recorded, and a purge makes the two maps equal
    refine iff_of_true ?_ (by simp [hnew])
    split
    · exact Set.Subset.rfl
    · exact hseen

/-- **One call.** A call made while the inclusion holds keeps it exactly when it
does not forget a discovery. -/
theorem PurgeInv.step_iff {f f' : Front n} {l : Call n} (h : PurgeInv f)
    (hstep : HybridStep f l f') : RealSeen f'.st ↔ ¬ ForgetsDiscovery f l := by
  cases hstep with
  | path π c _ => exact iff_of_true (h.seen.afterPath π c) (by simp [ForgetsDiscovery])
  | confirm π c edge ov hc => exact h.afterConfirm_iff hc π edge ov
  | sample edge ov =>
    refine iff_of_true ?_ (by simp [ForgetsDiscovery])
    -- a sample writes neither map
    simpa [RealSeen, Front.afterSample] using h.seen

theorem PurgeInv.step {f f' : Front n} {l : Call n} (h : PurgeInv f) (hstep : HybridStep f l f')
    (hl : ¬ ForgetsDiscovery f l) : PurgeInv f' := by
  have hseen := (h.step_iff hstep).mpr hl
  cases hstep with
  | path π c _ => exact PurgeInv.afterPath h.seen π c
  | confirm π c edge ov hc =>
    -- after the edge pass nothing is awaited
    exact ⟨hseen, fun hne => absurd rfl hne, fun hne => absurd rfl hne⟩
  | sample edge ov =>
    refine ⟨hseen, fun hne => ?_, fun hne => ?_⟩
    · simpa [Front.afterSample] using h.tested hne
    · simpa [Front.afterSample] using h.unrecorded hne

/-! ### Runs -/

/-- The filter's runs in which no confirm forgets a discovery. -/
def carefulMachine (n : ℕ) : Machine (Front n) (Call n) :=
  (hybridMachine n).restrict fun f l => ¬ ForgetsDiscovery f l

theorem PurgeInv.of_reachable {f : Front n} (hf : (carefulMachine n).Reachable f) :
    PurgeInv f := by
  refine hf.invariant ?_ fun f l f' h hstep => h.step hstep.1 hstep.2
  rintro _ ⟨pathCls, pathKept, edgeCls, rfl⟩
  refine ⟨fun i => ?_, fun hne => absurd rfl hne, fun hne => absurd rfl hne⟩
  -- both maps start with every bit set
  change (0xff#8 : Byte) &&& ~~~ 0xff#8 = 0#8
  decide

/-- **A purge forgets only paths that led nowhere, exactly while no confirm
forgets a discovery.** In every run none of whose confirms both purges and finds
new edge bits, every bit cleared in `virgin_atom_real` is cleared in
`virgin_atom` in every state reached. The next call keeps this exactly when it
is no such confirm, so the first such confirm breaks it. -/
theorem realSeen_iff_no_purging_discovery {f : Front n} (hf : (carefulMachine n).Reachable f) :
    (∀ i, f.st.virginAtom i &&& ~~~ f.st.virginAtomReal i = 0#8) ∧
      ∀ l f', (hybridMachine n).step f l f' →
        ((∀ i, f'.st.virginAtom i &&& ~~~ f'.st.virginAtomReal i = 0#8) ↔
          ¬ ForgetsDiscovery f l) := by
  have h := PurgeInv.of_reachable hf
  exact ⟨h.seen, fun l f' hstep => h.step_iff hstep⟩

/-- A path pass with one hit. -/
def hitCall : PathCall 1 := ⟨fun _ => 1, false, 0⟩

/-- The filter after the first input's path pass. -/
def firstPass : Front 1 :=
  (Front.initial (fun _ => 0) (fun _ => 0) (fun _ => 0)).afterPath (sourcePolicy .exact) hitCall

theorem firstPass_confirms : firstPass.awaiting = some hitCall :=
  Front.awaiting_of_confirm (by decide +kernel)

/-- The first input's edge pass purges nothing and keeps the inclusion. -/
theorem realSeen_iff_no_purging_discovery_first :
    firstPass.awaiting = some hitCall ∧
      RealSeen (firstPass.afterConfirm (sourcePolicy .exact) hitCall (fun _ => 1) false).st := by
  have hinit : (carefulMachine 1).Reachable
      (Front.initial (fun _ => 0) (fun _ => 0) (fun _ => 0)) := .of_init ⟨_, _, _, rfl⟩
  have hf : (carefulMachine 1).Reachable firstPass :=
    hinit.step ⟨.path _ (sourcePolicy .exact) hitCall rfl, fun h => h⟩
  have hstep := HybridStep.confirm firstPass (sourcePolicy .exact) hitCall (fun _ => 1) false
    firstPass_confirms
  refine ⟨firstPass_confirms,
    ((realSeen_iff_no_purging_discovery hf).2 _ _ hstep).mpr fun hforget => ?_⟩
  have hp : purges (sourcePolicy .exact) firstPass.st = false := by decide +kernel
  exact absurd hforget.1 (by rw [hp]; decide)

/-! ### A confirm that forgets a discovery

2998 empty path passes, a path pass with a new path and its confirm: the confirm
is the 3000th counted exec, at which the source purges. -/

/-- A path pass over an empty map. -/
def emptyCall : PathCall 1 := ⟨fun _ => 0, false, 0⟩

/-- The filter after `k` empty path passes. -/
def emptyPasses : ℕ → Front 1
  | 0 => Front.initial (fun _ => 0) (fun _ => 0) (fun _ => 0)
  | k + 1 => (emptyPasses k).afterPath (sourcePolicy .exact) emptyCall

/-- The filter after the new path's confirm. -/
def forgettingFront : Front 1 :=
  ((emptyPasses 2998).afterPath (sourcePolicy .exact) hitCall).afterConfirm
    (sourcePolicy .exact) hitCall (fun _ => 1) false

/-- The filter before its first purge and before any path, `k` execs in. -/
structure Quiet (k : ℕ) (f : Front 1) : Prop where
  awaiting : f.awaiting = none
  execs : f.st.realExecs = k
  preExecs : f.st.preRealExecs = 0
  preBits : f.st.preVirginBits = 0
  interval : f.st.purgeInterval = purgeIntervalLevel1
  atom : f.st.virginAtom = fun _ => 0xff#8
  real : f.st.virginAtomReal = fun _ => 0xff#8
  edge : f.st.virginEdge = fun _ => 0xff#8
  up : f.st.atomCheckUp = fun _ => false

/-- Before the interval has elapsed `purge_check()` only counts. -/
theorem purgeCheck_wait (A : PurgeArith) (s : State n)
    (h : s.realExecs + 1 - s.preRealExecs < s.purgeInterval) :
    purgeCheck (sourcePolicy A) s = { s with realExecs := s.realExecs + 1 } := by
  have hw : sourcePolicy A { s with realExecs := s.realExecs + 1 } = .wait := if_pos h
  unfold purgeCheck
  simp only [hw]

theorem purges_wait (A : PurgeArith) (s : State n)
    (h : s.realExecs + 1 - s.preRealExecs < s.purgeInterval) :
    purges (sourcePolicy A) s = false := by
  have hw : sourcePolicy A { s with realExecs := s.realExecs + 1 } = .wait := if_pos h
  unfold purges
  simp only [hw, PurgeDecision.purges]

/-- Once the interval has elapsed with no edge growth, `purge_check()` purges. -/
theorem purges_stalled (A : PurgeArith) (s : State n)
    (h : s.purgeInterval ≤ s.realExecs + 1 - s.preRealExecs)
    (hst : A.stalled (countNon255Bytes s.virginEdge) s.preVirginBits = true) :
    purges (sourcePolicy A) s = true := by
  have hw : ∃ i, sourcePolicy A { s with realExecs := s.realExecs + 1 } = .purge i :=
    ⟨_, (if_neg (Nat.not_lt.mpr h)).trans (if_pos (Or.inl hst))⟩
  obtain ⟨i, hw⟩ := hw
  unfold purges
  simp only [hw, PurgeDecision.purges]

theorem Quiet.due {k : ℕ} {f : Front 1} (h : Quiet k f) (hk : k < 2999) :
    f.st.realExecs + 1 - f.st.preRealExecs < f.st.purgeInterval := by
  rw [h.execs, h.preExecs, h.interval]
  unfold purgeIntervalLevel1
  omega

theorem Quiet.atomAtTest {k : ℕ} {f : Front 1} (h : Quiet k f) (hk : k < 2999) :
    Hybrid.atomAtTest (sourcePolicy .exact) f.st = fun _ => 0xff#8 := by
  have hp : pathPurges (sourcePolicy .exact) f.st = false := purges_wait _ _ (h.due hk)
  unfold Hybrid.atomAtTest
  rw [hp]
  exact h.atom

theorem Quiet.not_filtered {k : ℕ} {f : Front 1} (h : Quiet k f) (cksum : BitVec 32) :
    filtered f.st cksum = false := by
  simp [filtered, h.up]

/-- A path pass before the interval has elapsed adds one to the exec counter. -/
theorem Quiet.counters {k : ℕ} {f : Front 1} (h : Quiet k f) (hk : k < 2999) (c : PathCall 1) :
    (f.afterPath (sourcePolicy .exact) c).st.realExecs = k + 1 ∧
      (f.afterPath (sourcePolicy .exact) c).st.preRealExecs = 0 ∧
      (f.afterPath (sourcePolicy .exact) c).st.preVirginBits = 0 ∧
      (f.afterPath (sourcePolicy .exact) c).st.purgeInterval = purgeIntervalLevel1 := by
  have hwait := purgeCheck_wait .exact { f.st with pathExecs := f.st.pathExecs + 1 } (h.due hk)
  unfold Front.afterPath Front.pathResult
  dsimp only
  rw [hybridAfterPath_realExecs, hybridAfterPath_preRealExecs, hybridAfterPath_preVirginBits,
    hybridAfterPath_purgeInterval, hwait]
  exact ⟨congrArg (· + 1) h.execs, h.preExecs, h.preBits, h.interval⟩

/-- An empty path pass is discarded and leaves the filter quiet. -/
theorem Quiet.emptyPass {k : ℕ} {f : Front 1} (h : Quiet k f) (hk : k < 2999) :
    Quiet (k + 1) (f.afterPath (sourcePolicy .exact) emptyCall) := by
  have hat := h.atomAtTest hk
  have hfl := h.not_filtered (checksum emptyCall.map)
  have hv : (f.pathResult (sourcePolicy .exact) emptyCall).verdict = .discard := by
    unfold Front.pathResult
    -- an empty map shares no bit with any virgin map
    rw [hybridAfterPath_verdict, hat]
    exact if_pos (Or.inr (by decide))
  obtain ⟨hexecs, hpre, hpreBits, hint⟩ := h.counters hk emptyCall
  refine ⟨Front.awaiting_of_discard hv, hexecs, hpre, hpreBits, hint, ?_, ?_, ?_, ?_⟩
  · refine (hybridAfterPath_virginAtom _ _ _ _ _).trans ?_
    rw [hfl, hat, hasNewBits_virgin]
    funext i
    change (0xff#8 : Byte) &&& ~~~ classify emptyCall.map i = 0xff#8
    revert i
    decide
  · exact (hybridAfterPath_virginAtomReal _ _ _ _ _).trans h.real
  · exact (hybridAfterPath_virginEdge _ _ _ _ _).trans h.edge
  · exact (hybridAfterPath_atomCheckUp _ _ _ _ _).trans h.up

theorem quiet_emptyPasses (k : ℕ) (hk : k < 3000) :
    (sourceMachine .exact 1).Reachable (emptyPasses k) ∧ Quiet k (emptyPasses k) := by
  induction k with
  | zero => exact ⟨.of_init ⟨_, _, _, rfl⟩, ⟨rfl, rfl, rfl, rfl, rfl, rfl, rfl, rfl, rfl⟩⟩
  | succ k ih =>
    -- induction on the number of empty passes: each leaves a quiet filter, one exec later
    obtain ⟨hr, hq⟩ := ih (by omega)
    exact ⟨hr.step ⟨.path _ (sourcePolicy .exact) emptyCall hq.awaiting, rfl⟩,
      hq.emptyPass (by omega)⟩

/-- A quiet filter one exec short of the interval confirms a hit, and the
confirm purges while the hit's edges are new. -/
theorem Quiet.forgets {f : Front 1} (h : Quiet 2998 f) :
    (f.afterPath (sourcePolicy .exact) hitCall).awaiting = some hitCall ∧
      ForgetsDiscovery (f.afterPath (sourcePolicy .exact) hitCall)
        (.confirm (sourcePolicy .exact) (fun _ => 1) false) := by
  have hv : (f.pathResult (sourcePolicy .exact) hitCall).verdict = .confirm := by
    unfold Front.pathResult
    -- with `virgin_atom` untouched every hit is a new path
    rw [hybridAfterPath_verdict, h.atomAtTest (by omega), h.not_filtered]
    exact if_neg (by decide)
  have hedge : (f.afterPath (sourcePolicy .exact) hitCall).st.virginEdge = fun _ => 0xff#8 :=
    (hybridAfterPath_virginEdge _ _ _ _ _).trans h.edge
  obtain ⟨hexecs, hpre, hpreBits, hint⟩ := h.counters (by omega) hitCall
  refine ⟨Front.awaiting_of_confirm hv, ?_, ?_⟩
  · -- the confirm is the 3000th counted exec, and edge coverage has not grown
    refine purges_stalled _ _ ?_ ?_
    · rw [hexecs, hpre, hint]
    · rw [hedge, hpreBits]
      decide
  · rw [hedge]
    decide

/-- **A purge at a confirm forgets the path just confirmed.** With the source's
own purge decisions, the run of 2998 empty inputs and one new path leaves that
path set in `virgin_atom` and cleared in `virgin_atom_real`. -/
theorem purge_at_confirm_forgets :
    (sourceMachine .exact 1).Reachable forgettingFront ∧
      ¬ ∀ i, forgettingFront.st.virginAtom i &&& ~~~ forgettingFront.st.virginAtomReal i = 0#8 := by
  obtain ⟨hr, hq⟩ := quiet_emptyPasses 2998 (by omega)
  unfold forgettingFront
  generalize emptyPasses 2998 = f at hr hq
  obtain ⟨haw, hforget⟩ := hq.forgets
  have hr' := hr.step ⟨.path _ (sourcePolicy .exact) hitCall hq.awaiting, rfl⟩
  refine ⟨hr'.step ⟨.confirm _ (sourcePolicy .exact) hitCall (fun _ => 1) false haw, rfl⟩, ?_⟩
  have hseen : RealSeen f.st := by
    intro i
    rw [hq.atom, hq.real]
    change (0xff#8 : Byte) &&& ~~~ 0xff#8 = 0#8
    decide
  -- the one confirm of the run meets the condition, so it breaks the inclusion
  have hinv := PurgeInv.afterPath hseen (sourcePolicy .exact) hitCall
  exact fun h => (hinv.afterConfirm_iff haw (sourcePolicy .exact) (fun _ => 1) false).mp h hforget

end Hybrid
end CsTrace
