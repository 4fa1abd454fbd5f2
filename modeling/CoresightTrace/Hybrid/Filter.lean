import CoresightTrace.Hybrid.Simulation

/-!
# What the checksum filter rests on

A confirm that finds no new edges marks both halves of its path's checksum, and
nothing ever clears a mark, not even a purge: from then on the checksum filter
discards every path whose halves are both marked.

`hybrid_after_confirm()` keeps a truncated trace out of the two caches, since it
"would pin the wrong edges to this path". The marks are set whether or not a pass
overflowed. `SetCleanly` says that the confirm that set a mark had complete traces on
both passes. A confirm keeps this of all marks exactly if it finds new edges, or
neither pass overflowed, or both its marks are set already (`filter_complete_iff`).
-/

namespace CsTrace
namespace Hybrid

variable {n : ℕ}

/-! ### Marks -/

/-- The confirm in `h` that marked `u`, in the table indexed by `half`, found no new
edges and neither of its passes overflowed. -/
def SetCleanly (half : BitVec 32 → BitVec 16) (h : List (Event n)) (u : BitVec 16) : Prop :=
  ∃ c edge h', (Event.confirm c edge false :: h') <:+ h ∧ c.overflowed = false ∧
    ¬ FoundNew h' edge ∧ half (checksum c.map) = u ∧
    -- before it the mark was not set
    ¬ Fruitless h' fun k => half k = u

/-- Every mark of the table was set cleanly. -/
def TableComplete (half : BitVec 32 → BitVec 16) (table : BitVec 16 → Bool)
    (h : List (Event n)) : Prop :=
  ∀ u, table u = true → SetCleanly half h u

/-- Every mark of both tables was set cleanly. -/
def FilterComplete (f : Front n) : Prop :=
  TableComplete upperHalf f.st.atomCheckUp f.hist ∧
    TableComplete lowerHalf f.st.atomCheckDown f.hist

/-- The call sets no mark on a truncated trace: a confirm with new edges, or with
complete traces on both passes, or whose marks are set already. -/
def MarksCleanly (f : Front n) : Call n → Prop
  | .confirm _ edge ov =>
    newBitsLevel f.st.virginEdge (classify edge) ≠ 0 ∨
      (ov = false ∧ f.st.pathKeptOverflow = false) ∨
      (f.st.atomCheckUp (upperHalf f.st.pathKeptCksum) = true ∧
        f.st.atomCheckDown (lowerHalf f.st.pathKeptCksum) = true)
  | _ => True

theorem SetCleanly.mono {half : BitVec 32 → BitVec 16} {h h₂ : List (Event n)} {u : BitVec 16}
    (hset : SetCleanly half h u) (hle : h <:+ h₂) : SetCleanly half h₂ u := by
  obtain ⟨c, edge, h', hsuffix, hrest⟩ := hset
  exact ⟨c, edge, h', hsuffix.trans hle, hrest⟩

theorem TableComplete.mono {half : BitVec 32 → BitVec 16} {table : BitVec 16 → Bool}
    {h h₂ : List (Event n)} (hc : TableComplete half table h) (hle : h <:+ h₂) :
    TableComplete half table h₂ :=
  fun u hu => (hc u hu).mono hle

theorem suffix_notePurge (p : Bool) (h : List (Event n)) : h <:+ notePurge p h := by
  cases p with
  | false => exact List.suffix_rfl
  | true => exact List.suffix_cons _ _

/-! ### One call -/

section Confirm

variable {f : Front n} {c : PathCall n} (π : PurgePolicy n) (edge : CovMap n) (ov : Bool)

/-- One table after a confirm. -/
theorem Sim.tableComplete_iff (hS : Sim f) (half : BitVec 32 → BitVec 16)
    {table : BitVec 16 → Bool}
    (htable : ∀ u, table u = true ↔ Fruitless f.hist fun k => half k = u)
    (hcomplete : TableComplete half table f.hist) :
    TableComplete half
        (if newBitsLevel f.st.virginEdge (classify edge) ≠ 0 then table
          else Function.update table (half (checksum c.map)) true)
        (f.afterConfirm π c edge ov).hist ↔
      newBitsLevel f.st.virginEdge (classify edge) ≠ 0 ∨
        (ov = false ∧ c.overflowed = false) ∨ table (half (checksum c.map)) = true := by
  have holder : f.hist <:+ (f.afterConfirm π c edge ov).hist :=
    (suffix_notePurge _ _).trans (List.suffix_cons _ _)
  have hkept := hcomplete.mono holder
  by_cases hnew : newBitsLevel f.st.virginEdge (classify edge) ≠ 0
  · rw [if_pos hnew]
    exact iff_of_true hkept (.inl hnew)
  · rw [if_neg hnew, or_iff_right hnew]
    have hbarren : ¬ FoundNew f.hist edge := fun h => hnew (hS.newEdges_iff edge |>.mpr h)
    constructor
    · -- the mark it sets is new, and so is the confirm that set it
      intro hall
      by_contra hcond
      obtain ⟨hdirty, hunset⟩ := not_or.mp hcond
      obtain ⟨c', edge', h', hsuffix, hclean, hfound, hhalf, -⟩ :=
        hall (half (checksum c.map)) (Function.update_self _ _ _)
      rcases List.suffix_cons_iff.mp hsuffix with heq | hearlier
      · simp only [List.cons.injEq, Event.confirm.injEq] at heq
        obtain ⟨⟨rfl, -, rfl⟩, -⟩ := heq
        exact hdirty ⟨rfl, hclean⟩
      · refine hunset ((htable _).mpr ?_)
        rw [← fruitless_notePurge (purges π f.st)]
        exact ⟨c', edge', false, h', hearlier, hfound, hhalf⟩
    · intro hcond u hu
      by_cases hset : table u = true
      · exact hkept u hset
      · -- only the mark of the kept path is new
        have huk : u = half (checksum c.map) := by
          by_contra hne
          rw [Function.update_of_ne hne] at hu
          exact hset hu
        subst huk
        obtain ⟨rfl, hclean⟩ := hcond.resolve_right hset
        refine ⟨c, edge, notePurge (purges π f.st) f.hist, List.suffix_rfl, hclean, ?_, rfl, ?_⟩
        · rw [foundNew_notePurge]
          exact hbarren
        · rw [fruitless_notePurge, ← htable]
          exact hset

/-- Both tables after a confirm. -/
theorem Sim.filterComplete_afterConfirm_iff (hS : Sim f) (hc : f.awaiting = some c)
    (hcomplete : FilterComplete f) :
    FilterComplete (f.afterConfirm π c edge ov) ↔ MarksCleanly f (.confirm π edge ov) := by
  obtain ⟨-, hck, hov, -⟩ := hS.kept c hc
  have hup := hS.tableComplete_iff (c := c) π edge ov upperHalf hS.up hcomplete.1
  have hdown := hS.tableComplete_iff (c := c) π edge ov lowerHalf hS.down hcomplete.2
  have hst : (f.afterConfirm π c edge ov).st = hybridAfterConfirm π edge ov f.st := rfl
  unfold FilterComplete MarksCleanly
  rw [hst, hybridAfterConfirm_atomCheckUp, hybridAfterConfirm_atomCheckDown, hck, hov, hup, hdown]
  rw [← or_and_left, ← or_and_left]

end Confirm

/-- A call that writes neither table. -/
theorem FilterComplete.keep {f f' : Front n} (h : FilterComplete f)
    (hup : f'.st.atomCheckUp = f.st.atomCheckUp) (hdown : f'.st.atomCheckDown = f.st.atomCheckDown)
    (hle : f.hist <:+ f'.hist) : FilterComplete f' := by
  unfold FilterComplete
  rw [hup, hdown]
  exact ⟨h.1.mono hle, h.2.mono hle⟩

/-- **One call.** A call made while every mark is clean keeps it so exactly when it
sets no mark on a truncated trace. -/
theorem Sim.filterComplete_step_iff {f f' : Front n} {l : Call n} (hS : Sim f)
    (hcomplete : FilterComplete f) (hstep : HybridStep f l f') :
    FilterComplete f' ↔ MarksCleanly f l := by
  cases hstep with
  | path π c _ =>
    refine iff_of_true (hcomplete.keep ?_ ?_ ?_) trivial
    · exact hybridAfterPath_atomCheckUp π c.map c.overflowed c.inputKey f.st
    · exact hybridAfterPath_atomCheckDown π c.map c.overflowed c.inputKey f.st
    · exact (suffix_notePurge _ _).trans (List.suffix_cons _ _)
  | confirm π c edge ov hc => exact hS.filterComplete_afterConfirm_iff π edge ov hc hcomplete
  | sample edge ov =>
    refine iff_of_true (hcomplete.keep ?_ ?_ (List.suffix_cons _ _)) trivial
    · exact hybridAfterSample_atomCheckUp edge ov f.st
    · exact hybridAfterSample_atomCheckDown edge ov f.st

/-! ### Runs -/

theorem FilterComplete.initial (pathCls pathKept edgeCls : CovMap n) :
    FilterComplete (Front.initial pathCls pathKept edgeCls) :=
  ⟨by rintro u ⟨⟩, by rintro u ⟨⟩⟩

/-- **Paths are suppressed on complete evidence, exactly while no confirm marks a
truncated trace.** In every run whose calls set no mark on a truncated trace, every
mark was set by a confirm without new edges neither of whose passes overflowed, and
so both halves of a checksum that the filter holds were. The next call keeps this
exactly when it sets no such mark. -/
theorem filter_complete_iff {f : Front n}
    (hf : ((hybridMachine n).restrict MarksCleanly).Reachable f) :
    FilterComplete f ∧
      (∀ map : CovMap n, filtered f.st (checksum map) = true →
        SetCleanly upperHalf f.hist (upperHalf (checksum map)) ∧
          SetCleanly lowerHalf f.hist (lowerHalf (checksum map))) ∧
      ∀ l f', (hybridMachine n).step f l f' → (FilterComplete f' ↔ MarksCleanly f l) := by
  have hinv : Sim f ∧ FilterComplete f := by
    refine hf.invariant (I := fun f => Sim f ∧ FilterComplete f) ?_ ?_
    · rintro _ ⟨pathCls, pathKept, edgeCls, rfl⟩
      exact ⟨.initial pathCls pathKept edgeCls, .initial pathCls pathKept edgeCls⟩
    · rintro f l f' ⟨hS, hcomplete⟩ ⟨hstep, hmarks⟩
      exact ⟨hS.step hstep, (hS.filterComplete_step_iff hcomplete hstep).mpr hmarks⟩
  obtain ⟨hS, hcomplete⟩ := hinv
  refine ⟨hcomplete, fun map hfiltered => ?_, fun l f' hstep =>
    hS.filterComplete_step_iff hcomplete hstep⟩
  obtain ⟨hup, hdown⟩ := Bool.and_eq_true_iff.mp hfiltered
  exact ⟨hcomplete.1 _ hup, hcomplete.2 _ hdown⟩

/-- The filter after a first path pass with one hit, whose trace is complete or
truncated. -/
def onePass (overflowed : Bool) : Front 1 :=
  (Front.initial (fun _ => 0) (fun _ => 0) (fun _ => 0)).afterPath (sourcePolicy .exact)
    ⟨fun _ => 1, overflowed, 0⟩

theorem onePass_confirms (overflowed : Bool) :
    (onePass overflowed).awaiting = some ⟨fun _ => 1, overflowed, 0⟩ := by
  refine Front.awaiting_of_confirm ?_
  cases overflowed <;> decide +kernel

/-- The marks of the first path are clean when neither pass overflowed. -/
theorem filter_complete_iff_clean :
    FilterComplete ((onePass false).afterConfirm (sourcePolicy .exact) ⟨fun _ => 1, false, 0⟩
      (fun _ => 0) false) := by
  have hinit : ((hybridMachine 1).restrict MarksCleanly).Reachable
      (Front.initial (fun _ => 0) (fun _ => 0) (fun _ => 0)) := .of_init ⟨_, _, _, rfl⟩
  have hf : ((hybridMachine 1).restrict MarksCleanly).Reachable (onePass false) :=
    hinit.step ⟨.path _ (sourcePolicy .exact) ⟨fun _ => 1, false, 0⟩ rfl, trivial⟩
  exact ((filter_complete_iff hf).2.2 _ _ (.confirm _ (sourcePolicy .exact) _ (fun _ => 0) false
    (onePass_confirms false))).mpr (.inr (.inl ⟨rfl, by decide +kernel⟩))

/-- **A truncated path is marked.** The first path pass overflows, and its edge pass,
complete, has no new edges: both halves of the checksum of the truncated path are
marked. -/
theorem truncated_path_marked :
    let f := (onePass true).afterConfirm (sourcePolicy .exact) ⟨fun _ => 1, true, 0⟩
      (fun _ => 0) false
    (hybridMachine 1).Reachable f ∧ filtered f.st (checksum fun _ : Fin 1 => 1#8) = true ∧
      ¬ FilterComplete f := by
  have hinit : (hybridMachine 1).Reachable
      (Front.initial (fun _ => 0) (fun _ => 0) (fun _ => 0)) := .of_init ⟨_, _, _, rfl⟩
  have hpath : (hybridMachine 1).Reachable (onePass true) :=
    hinit.step (.path _ (sourcePolicy .exact) ⟨fun _ => 1, true, 0⟩ rfl)
  have hstep := HybridStep.confirm (onePass true) (sourcePolicy .exact) _ (fun _ => 0) false
    (onePass_confirms true)
  refine ⟨hpath.step hstep, by decide +kernel, fun hcomplete => ?_⟩
  have hS := Sim.of_reachable hpath
  have hbefore : FilterComplete (onePass true) :=
    (FilterComplete.initial _ _ _).keep rfl rfl
      ((suffix_notePurge _ _).trans (List.suffix_cons _ _))
  rcases (hS.filterComplete_step_iff hbefore hstep).mp hcomplete with h | h | h
  · exact h (by decide +kernel)
  · exact absurd h.2 (by decide +kernel)
  · exact absurd h.1 (by decide +kernel)

end Hybrid
end CsTrace
