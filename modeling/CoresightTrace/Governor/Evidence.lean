import CoresightTrace.Framework.Interference
import CoresightTrace.Governor.Calls

/-!
# Evidence for a position

`freq_gov_on_result()` keeps one search for each mode (`ModeSearch`) and a window
that the two searches share. A result moves the search of its own mode by
`ModeSearch.step`, leaves the other alone (`freqGovOnResult_search`), and then
recomputes the window from the totals of the atom pass.

The window is compared before it is recomputed. Since every result ends with the
recomputation and nothing else writes the totals, the window always is the one of
the totals (`Adapted`), and recomputing it after a result of the addr pass gives
what it was. This is why the atom search does not see the addr pass
(`atom_search_independent`).

Over a history of results, newest first, a search is read off the results
themselves: the clean results counted are those of the mode since it last
overflowed or completed a window (`recent`), and the window is a function of the
number of atom results and of overflows among them (`windowOf`). A completed window
is one that `stable_nums` records.
-/

namespace CsTrace
namespace Governor

/-! ### The search of one mode -/

/-- The variables of one mode's search. -/
@[ext] structure ModeSearch where
  curIdx : ℕ
  optIdxSum : BitVec 32
  stableNums : ℕ
  nonOverflowNums : ℕ
  totalExecs : ℕ
  totalOverflowExecs : ℕ
deriving DecidableEq

/-- The search of `mode`. -/
@[simps] def FreqGov.search (g : FreqGov) (mode : FreqMode) : ModeSearch where
  curIdx := g.curIdx mode
  optIdxSum := g.optIdxSum mode
  stableNums := g.stableNums mode
  nonOverflowNums := g.nonOverflowNums mode
  totalExecs := g.totalExecs mode
  totalOverflowExecs := g.totalOverflowExecs mode

/-- What a result does to the search of its mode, under a window and a table of
`rungs` frequencies. -/
def ModeSearch.step (window rungs : ℕ) (s : ModeSearch) (overflowed : Bool) : ModeSearch :=
  if overflowed then
    { s with
      totalExecs := s.totalExecs + 1
      totalOverflowExecs := s.totalOverflowExecs + 1
      curIdx := s.curIdx - 1
      nonOverflowNums := 0 }
  else if window ≤ s.nonOverflowNums + 1 then
    { s with
      totalExecs := s.totalExecs + 1
      stableNums := s.stableNums + 1
      optIdxSum := s.optIdxSum + BitVec.ofNat 32 s.curIdx
      curIdx := if s.curIdx + 1 < rungs then s.curIdx + 1 else s.curIdx
      nonOverflowNums := 0 }
  else
    { s with
      totalExecs := s.totalExecs + 1
      nonOverflowNums := s.nonOverflowNums + 1 }

section Step

variable (window rungs : ℕ) (s : ModeSearch) (overflowed : Bool)

theorem ModeSearch.step_curIdx :
    (s.step window rungs overflowed).curIdx =
      if overflowed then s.curIdx - 1
      else if window ≤ s.nonOverflowNums + 1 ∧ s.curIdx + 1 < rungs then s.curIdx + 1
      else s.curIdx := by
  unfold step
  cases overflowed with
  | true => rfl
  | false =>
    by_cases hfull : window ≤ s.nonOverflowNums + 1
    · simp [hfull]
    · simp [hfull]

theorem ModeSearch.step_nonOverflowNums :
    (s.step window rungs overflowed).nonOverflowNums =
      if overflowed = true ∨ window ≤ s.nonOverflowNums + 1 then 0
      else s.nonOverflowNums + 1 := by
  unfold step
  cases overflowed with
  | true => rfl
  | false =>
    by_cases hfull : window ≤ s.nonOverflowNums + 1
    · simp [hfull]
    · simp [hfull]

theorem ModeSearch.step_stableNums :
    (s.step window rungs overflowed).stableNums =
      if overflowed = false ∧ window ≤ s.nonOverflowNums + 1 then s.stableNums + 1
      else s.stableNums := by
  unfold step
  cases overflowed with
  | true => rfl
  | false =>
    by_cases hfull : window ≤ s.nonOverflowNums + 1
    · simp [hfull]
    · simp [hfull]

theorem ModeSearch.step_totals :
    (s.step window rungs overflowed).totalExecs = s.totalExecs + 1 ∧
      (s.step window rungs overflowed).totalOverflowExecs =
        s.totalOverflowExecs + if overflowed then 1 else 0 := by
  unfold step
  cases overflowed with
  | true => exact ⟨rfl, rfl⟩
  | false =>
    simp only [Bool.false_eq_true, if_false]
    split <;> exact ⟨rfl, rfl⟩

end Step

/-- The window for `execs` atom results of which `overflows` overflowed, `fallback`
being the one in force. -/
def windowOf (addrOnly : Bool) (fallback execs overflows : ℕ) : ℕ :=
  if addrOnly = true ∨ overflows = 0 then fallback
  else max minFreqInterval (min maxFreqInterval (execs / overflows / 5))

/-- The initial value of `freq_interval`. -/
def initialWindow (addrOnly : Bool) : ℕ :=
  if addrOnly then minFreqInterval else freqIntervalInit

theorem initialWindow_bounds (addrOnly : Bool) :
    minFreqInterval ≤ initialWindow addrOnly ∧ initialWindow addrOnly ≤ maxFreqInterval := by
  cases addrOnly <;> decide

/-- The window stays within its bounds. -/
theorem windowOf_bounds (addrOnly : Bool) {fallback : ℕ} (execs overflows : ℕ)
    (h : minFreqInterval ≤ fallback ∧ fallback ≤ maxFreqInterval) :
    minFreqInterval ≤ windowOf addrOnly fallback execs overflows ∧
      windowOf addrOnly fallback execs overflows ≤ maxFreqInterval := by
  unfold windowOf
  split
  · exact h
  · exact ⟨le_max_left _ _, max_le (by decide) (min_le_left _ _)⟩

theorem setMode_of_ne {α : Type*} (f : FreqMode → α) {mode m : FreqMode} (v : α) (h : m ≠ mode) :
    setMode f mode v m = f m :=
  if_neg h

theorem adaptInterval_search (g : FreqGov) (m : FreqMode) :
    (adaptInterval g).search m = g.search m := by
  unfold adaptInterval
  split <;> rfl

/-- The recomputed window. -/
theorem adaptInterval_freqInterval (g : FreqGov) :
    (adaptInterval g).freqInterval =
      windowOf g.addrOnlyMode g.freqInterval (g.totalExecs .atom) (g.totalOverflowExecs .atom) := by
  unfold adaptInterval windowOf
  by_cases hkeep : g.addrOnlyMode = true ∨ g.totalOverflowExecs .atom = 0
  · rw [if_pos hkeep, if_neg]
    rintro ⟨haddr, hpos⟩
    exact hkeep.elim haddr hpos.ne'
  · rw [if_neg hkeep, if_pos ⟨fun h => hkeep (.inl h), Nat.pos_of_ne_zero fun h => hkeep (.inr h)⟩]
    -- the bounds are ordered, so clamping from either side first is the same
    dsimp only
    unfold minFreqInterval maxFreqInterval
    split
    · omega
    · split <;> omega

/-- A result leaves the search of the other mode alone. -/
theorem freqGovOnResult_search_of_ne (g : FreqGov) {mode m : FreqMode} (overflowed : Bool)
    (hm : m ≠ mode) : (freqGovOnResult g mode overflowed).search m = g.search m := by
  unfold freqGovOnResult
  split
  · rfl
  · rw [adaptInterval_search]
    cases overflowed with
    | true =>
      simp only [if_true, onOverflow, FreqGov.search, setMode_of_ne _ _ hm]
      congr 1
      split
      · exact setMode_of_ne _ _ hm
      · rfl
    | false =>
      simp only [Bool.false_eq_true, if_false, onClean, FreqGov.search]
      split
      · dsimp only
        split <;> simp only [setMode_of_ne _ _ hm]
      · simp only [setMode_of_ne _ _ hm]

/-- **A result moves the search of its own mode.** -/
theorem freqGovOnResult_search {g : FreqGov} (he : g.enabled = true) (mode : FreqMode)
    (overflowed : Bool) :
    (freqGovOnResult g mode overflowed).search mode =
      (g.search mode).step g.freqInterval g.freqTable.length overflowed := by
  unfold freqGovOnResult
  rw [if_neg (by simp [he]), adaptInterval_search]
  cases overflowed with
  | true =>
    simp only [if_true, onOverflow, FreqGov.search, ModeSearch.step, setMode_self]
    congr 1
    -- at the floor the position stays, and so does truncated subtraction
    split
    · exact setMode_self _ _ _
    · omega
  | false =>
    simp only [Bool.false_eq_true, if_false, onClean, ModeSearch.step]
    change FreqGov.search (if g.freqInterval ≤ g.nonOverflowNums mode + 1 then _ else _) mode =
      if g.freqInterval ≤ g.nonOverflowNums mode + 1 then _ else _
    by_cases hfull : g.freqInterval ≤ g.nonOverflowNums mode + 1
    · rw [if_pos hfull, if_pos hfull]
      simp only [FreqGov.search, setMode_self]
      congr 1
      by_cases hup : g.curIdx mode + 1 < g.freqTable.length
      · rw [if_pos hup, setMode_self]
        exact (if_pos hup).symm
      · rw [if_neg hup]
        exact (if_neg hup).symm
    · rw [if_neg hfull, if_neg hfull]
      simp only [FreqGov.search, setMode_self]

/-- A disabled governor takes no result. -/
theorem freqGovOnResult_disabled {g : FreqGov} (he : g.enabled = false) (mode : FreqMode)
    (overflowed : Bool) : freqGovOnResult g mode overflowed = g := by
  unfold freqGovOnResult
  rw [if_pos (by simp [he])]

theorem freqGovOnResult_addrOnlyMode (g : FreqGov) (mode : FreqMode) (overflowed : Bool) :
    (freqGovOnResult g mode overflowed).addrOnlyMode = g.addrOnlyMode := by
  rw [freqGovOnResult_searched g mode overflowed]

/-- The window a result leaves is recomputed from the totals it leaves. -/
theorem freqGovOnResult_freqInterval {g : FreqGov} (he : g.enabled = true) (mode : FreqMode)
    (overflowed : Bool) :
    (freqGovOnResult g mode overflowed).freqInterval =
      windowOf g.addrOnlyMode g.freqInterval
        ((freqGovOnResult g mode overflowed).search .atom).totalExecs
        ((freqGovOnResult g mode overflowed).search .atom).totalOverflowExecs := by
  unfold freqGovOnResult
  rw [if_neg (by simp [he]), adaptInterval_freqInterval, adaptInterval_search]
  cases overflowed with
  | true => rfl
  | false =>
    simp only [Bool.false_eq_true, if_false, onClean]
    split <;> rfl

/-! ### The window belongs to the totals -/

/-- The window is the one of the totals. -/
def Adapted (g : FreqGov) : Prop :=
  g.enabled = true →
    g.freqInterval =
      windowOf g.addrOnlyMode g.freqInterval (g.totalExecs .atom) (g.totalOverflowExecs .atom)

/-- Recomputing the window a second time changes nothing. -/
theorem windowOf_windowOf (addrOnly : Bool) (fallback execs overflows : ℕ) :
    windowOf addrOnly (windowOf addrOnly fallback execs overflows) execs overflows =
      windowOf addrOnly fallback execs overflows := by
  unfold windowOf
  by_cases hkeep : addrOnly = true ∨ overflows = 0
  · rw [if_pos hkeep, if_pos hkeep]
  · rw [if_neg hkeep, if_neg hkeep]

theorem Adapted.onResult {g : FreqGov} (h : Adapted g) (mode : FreqMode) (overflowed : Bool) :
    Adapted (freqGovOnResult g mode overflowed) := by
  cases he : g.enabled with
  | false =>
    rw [freqGovOnResult_disabled he]
    exact h
  | true =>
    intro _
    rw [freqGovOnResult_addrOnlyMode, freqGovOnResult_freqInterval he]
    exact (windowOf_windowOf _ _ _ _).symm

/-- The totals and the window, which only a result writes. -/
structure Tallied (g g' : FreqGov) : Prop where
  execs : g'.totalExecs = g.totalExecs
  overflows : g'.totalOverflowExecs = g.totalOverflowExecs
  window : g'.freqInterval = g.freqInterval
  addrOnly : g'.addrOnlyMode = g.addrOnlyMode

theorem Tallied.refl (g : FreqGov) : Tallied g g :=
  ⟨rfl, rfl, rfl, rfl⟩

theorem Tallied.trans {g g' g'' : FreqGov} (h : Tallied g g') (h' : Tallied g' g'') :
    Tallied g g'' :=
  ⟨h'.execs.trans h.execs, h'.overflows.trans h.overflows, h'.window.trans h.window,
    h'.addrOnly.trans h.addrOnly⟩

theorem setFreq_tallied (g : FreqGov) (target : ℕ) : Tallied g (setFreq g target) := by
  unfold setFreq
  split
  · exact .refl g
  · exact ⟨rfl, rfl, rfl, rfl⟩

theorem freqGovRestoreMax_tallied (g : FreqGov) : Tallied g (freqGovRestoreMax g) := by
  unfold freqGovRestoreMax
  split
  · exact .refl g
  · exact setFreq_tallied g _

theorem runOneShot_tallied (g : FreqGov) (shot : Shot) : Tallied g (runOneShot g shot).1 := by
  cases shot with
  | failed => exact .refl g
  | ran overflowed => exact freqGovRestoreMax_tallied g

theorem setIdx_tallied (g : FreqGov) (mode : FreqMode) (i : ℕ) : Tallied g (g.setIdx mode i) :=
  ⟨rfl, rfl, rfl, rfl⟩

theorem rampLoop_tallied (mode : FreqMode) (shots : ℕ → Shot) (rest : List ℕ) (i : ℕ)
    (g : FreqGov) : Tallied g (rampLoop mode shots rest i g).1 := by
  induction rest generalizing i g with
  | nil => exact .refl g
  | cons f rest ih =>
    have hshot := (setFreq_tallied g f).trans (runOneShot_tallied (setFreq g f) (shots i))
    unfold rampLoop
    dsimp only
    split
    · exact hshot
    · exact (hshot.trans (setIdx_tallied _ mode i)).trans (ih _ _)

/-- A call is a result, or leaves the totals and the window alone. -/
theorem Call.tallied (g : FreqGov) (c : Call) :
    (∃ mode overflowed, c = .onResult mode overflowed) ∨ Tallied g (c.run g) := by
  cases c with
  | onResult mode overflowed => exact .inl ⟨mode, overflowed, rfl⟩
  | calibrate mode shots =>
    refine .inr ?_
    change Tallied g (freqGovCalibrate g mode shots).1
    unfold freqGovCalibrate
    split
    · exact .refl g
    · exact (setIdx_tallied g mode 0).trans (rampLoop_tallied _ _ _ _ _)
  | apply mode =>
    refine .inr ?_
    change Tallied g (freqGovApply g mode)
    unfold freqGovApply
    split
    · exact .refl g
    · split
      · have hspent : Tallied g { g with forceMinPending := false } := ⟨rfl, rfl, rfl, rfl⟩
        exact hspent.trans (setFreq_tallied _ _)
      · exact setFreq_tallied g _
  | restoreMax => exact .inr (freqGovRestoreMax_tallied g)
  | forceMin | copyStart => exact .inr ⟨rfl, rfl, rfl, rfl⟩

/-- **The window stays the one of the totals.** -/
theorem Adapted.run {g : FreqGov} (h : Adapted g) (c : Call) : Adapted (c.run g) := by
  rcases Call.tallied g c with ⟨mode, overflowed, rfl⟩ | htally
  · exact h.onResult mode overflowed
  · intro he
    rw [htally.window, htally.addrOnly, htally.execs, htally.overflows]
    exact h ((Call.fixed g c).enabled.symm.trans he)

theorem Adapted.init (g : FreqGov) (r : InitReads) (addrOnly : Bool) :
    Adapted (freqGovInit g r addrOnly) := by
  unfold freqGovInit
  dsimp only
  split
  · exact fun he => absurd he (by simp)
  · -- there are no overflows yet
    exact fun _ => (if_pos (.inr rfl)).symm

/-- What a call preserves, a sequence of calls preserves. -/
theorem calls_invariant {I : FreqGov → Prop} (hcall : ∀ g c, I g → I (Call.run g c))
    {g : FreqGov} (h : I g) (calls : List Call) : I (calls.foldl Call.run g) := by
  induction calls generalizing g with
  | nil => exact h
  | cons c calls ih => exact ih (hcall g c h)

/-! ### The atom search does not see the addr pass -/

/-- A call of `freq_gov_on_result()`. -/
structure Result where
  mode : FreqMode
  overflowed : Bool
deriving DecidableEq, Repr

/-- The governor takes a result. A result of the atom pass answers with the
`freq_interval` it is compared with. -/
def takeResult (g : FreqGov) (r : Result) : FreqGov × List ℕ :=
  (freqGovOnResult g r.mode r.overflowed, if r.mode = .atom then [g.freqInterval] else [])

/-- A governor whose window is the one of its totals. -/
def AdaptedGov := { g : FreqGov // Adapted g }

/-- `takeResult` keeps the window in order. -/
def AdaptedGov.takeResult (g : AdaptedGov) (r : Result) : AdaptedGov × List ℕ :=
  (⟨(Governor.takeResult g.1 r).1, g.2.onResult r.mode r.overflowed⟩,
    (Governor.takeResult g.1 r).2)

/-- What decides a result of the atom pass. -/
def AdaptedGov.atomView (g : AdaptedGov) : ModeSearch × ℕ × List ℕ × Bool × Bool :=
  (g.1.search .atom, g.1.freqInterval, g.1.freqTable, g.1.addrOnlyMode, g.1.enabled)

/-- A result of the addr pass recomputes the window from totals it has not changed. -/
theorem Adapted.freqInterval_onResult_addr {g : FreqGov} (h : Adapted g) (overflowed : Bool) :
    (freqGovOnResult g .addr overflowed).freqInterval = g.freqInterval := by
  cases he : g.enabled with
  | false => rw [freqGovOnResult_disabled he]
  | true =>
    rw [freqGovOnResult_freqInterval he,
      freqGovOnResult_search_of_ne g overflowed (show FreqMode.atom ≠ .addr by decide)]
    exact (h he).symm

/-- The results of the addr pass are hidden from the atom search. -/
theorem takeResult_noninterfering :
    Ops.Noninterfering AdaptedGov.takeResult AdaptedGov.atomView
      (fun r => decide (r.mode ≠ .atom)) where
  silent := by
    rintro g ⟨mode, overflowed⟩ hhidden
    cases mode with
    | atom => exact absurd hhidden (by simp)
    | addr =>
      have hfixed := freqGovOnResult_fixed g.1 .addr overflowed
      refine ⟨?_, rfl⟩
      unfold AdaptedGov.atomView AdaptedGov.takeResult takeResult
      dsimp only
      rw [freqGovOnResult_search_of_ne g.1 overflowed (show FreqMode.atom ≠ .addr by decide),
        g.2.freqInterval_onResult_addr, hfixed.table, freqGovOnResult_addrOnlyMode, hfixed.enabled]
  blind := by
    rintro g g' ⟨mode, overflowed⟩ hvisible hview
    cases mode with
    | addr => exact absurd hvisible (by simp)
    | atom =>
      unfold AdaptedGov.atomView at hview
      simp only [Prod.mk.injEq] at hview
      obtain ⟨hsearch, hwindow, htable, haddr, henabled⟩ := hview
      have hfixed := freqGovOnResult_fixed g.1 .atom overflowed
      have hfixed' := freqGovOnResult_fixed g'.1 .atom overflowed
      -- the search and the window it leaves are functions of the view
      have hnext : (freqGovOnResult g.1 .atom overflowed).search .atom =
            (freqGovOnResult g'.1 .atom overflowed).search .atom ∧
          (freqGovOnResult g.1 .atom overflowed).freqInterval =
            (freqGovOnResult g'.1 .atom overflowed).freqInterval := by
        cases he : g.1.enabled with
        | false =>
          rw [freqGovOnResult_disabled he, freqGovOnResult_disabled (henabled.symm.trans he)]
          exact ⟨hsearch, hwindow⟩
        | true =>
          have he' := henabled.symm.trans he
          have hstep : (freqGovOnResult g.1 .atom overflowed).search .atom =
              (freqGovOnResult g'.1 .atom overflowed).search .atom := by
            rw [freqGovOnResult_search he, freqGovOnResult_search he', hsearch, hwindow, htable]
          refine ⟨hstep, ?_⟩
          rw [freqGovOnResult_freqInterval he, freqGovOnResult_freqInterval he', hstep, hwindow,
            haddr]
      unfold AdaptedGov.atomView AdaptedGov.takeResult takeResult
      dsimp only
      rw [hnext.1, hnext.2, hfixed.table, hfixed'.table, htable, freqGovOnResult_addrOnlyMode,
        freqGovOnResult_addrOnlyMode, haddr, hfixed.enabled, hfixed'.enabled, henabled, hwindow]
      exact ⟨rfl, rfl⟩

/-- **The atom search is independent of the addr pass.** From any governor reached
after `freq_gov_init()`, two sequences of results with the same results of the atom
pass leave the same atom search, and each of these results is compared with the same
window in both. No result of the atom pass moves the position of the addr pass. -/
theorem atom_search_independent (g₀ : FreqGov) (reads : InitReads) (calls : List Call)
    (rs rs' : List Result)
    (hatom : rs.filter (fun r => decide (r.mode = .atom)) =
      rs'.filter fun r => decide (r.mode = .atom)) :
    let g := calls.foldl Call.run (freqGovInit g₀ reads false)
    (Ops.run takeResult g rs).1.search .atom = (Ops.run takeResult g rs').1.search .atom ∧
      (Ops.run takeResult g rs).2 = (Ops.run takeResult g rs').2 ∧
      ∀ g' overflowed, (freqGovOnResult g' .atom overflowed).curIdx .addr = g'.curIdx .addr := by
  intro g
  have hadapted : Adapted g := calls_invariant (fun _ c h => h.run c) (.init g₀ reads false) calls
  have hrun (rs : List Result) : Ops.run takeResult g rs =
      ((Ops.run AdaptedGov.takeResult ⟨g, hadapted⟩ rs).1.1,
        (Ops.run AdaptedGov.takeResult ⟨g, hadapted⟩ rs).2) :=
    Ops.run_map (Subtype.val : AdaptedGov → FreqGov) (fun _ _ => rfl) ⟨g, hadapted⟩ rs
  have hops : (rs.filter fun r => !decide (r.mode ≠ .atom)) =
      rs'.filter fun r => !decide (r.mode ≠ .atom) := by simpa using hatom
  obtain ⟨hwindows, hview⟩ := takeResult_noninterfering.ops_agree
    (rfl : AdaptedGov.atomView ⟨g, hadapted⟩ = _) hops
  rw [hrun rs, hrun rs']
  refine ⟨congrArg Prod.fst hview, hwindows, fun g' overflowed => ?_⟩
  have hother :=
    freqGovOnResult_search_of_ne g' overflowed (show FreqMode.addr ≠ .atom by decide)
  exact congrArg ModeSearch.curIdx hother

/-- What a board that lists no frequencies answers to `freq_gov_init()`. -/
def unlistedReads : InitReads where
  disabled := false
  cpuinfoMaxFreq := 1200000
  cpuinfoMinFreq := 408000
  scalingAvailableFrequencies := []
  scalingGovernor := "schedutil"
  scalingMinFreq := 408000
  scalingMaxFreq := 1200000
  scalingSetspeed := 0

/-- That board's governor, freshly initialized. -/
def unlisted : FreqGov :=
  freqGovInit (.static ⟨408000, 1200000, 0, "schedutil"⟩) unlistedReads false

/-- An overflow of the addr pass between an overflow and a clean result of the atom
pass is not seen by the latter. -/
theorem atom_search_independent_overflow :
    (Ops.run takeResult unlisted [⟨.atom, true⟩, ⟨.addr, true⟩, ⟨.atom, false⟩]).1.search .atom =
        (Ops.run takeResult unlisted [⟨.atom, true⟩, ⟨.atom, false⟩]).1.search .atom ∧
      (Ops.run takeResult unlisted [⟨.atom, true⟩, ⟨.addr, true⟩, ⟨.atom, false⟩]).2 =
        (Ops.run takeResult unlisted [⟨.atom, true⟩, ⟨.atom, false⟩]).2 := by
  have h := atom_search_independent (.static ⟨408000, 1200000, 0, "schedutil"⟩) unlistedReads []
    [⟨.atom, true⟩, ⟨.addr, true⟩, ⟨.atom, false⟩] [⟨.atom, true⟩, ⟨.atom, false⟩] (by decide)
  exact ⟨h.1, h.2.1⟩

end Governor
end CsTrace
