import CoresightTrace.Governor.State

/-!
# The overflow retry loop

A test case of the proxy is one attempt or several. An attempt in `addr` mode
that overflowed is repeated one rung lower, at most `maxRepetitionNum` times,
and once the repetitions are spent a last attempt is forced to the floor. Only
then is the overflow reported as it is.

The forced attempt is skipped when the mode is already at the floor, since it
would "re-run at the frequency just used". The query is made after the
outcome has moved the position, so the frequency just used is one rung above.
From the fourth rung the two differ (`EndsAboveFloor`): the repetitions run at
the rungs 4, 3, 2 and 1, the position then reads 0, and the loop gives up
without having tried the floor. `gives_up_at_floor_iff` shows that this is the
only way in which it does, and `gives_up_above_floor` is such a test case.
-/

namespace CsTrace
namespace Governor

/-- What the proxy does after an attempt. -/
inductive Next where
  | retry
  | forceMin
  | done
deriving DecidableEq, Repr

/-- The end of an attempt in `main()`: the governor's queries and its update, in
the order of the source, and the decision. -/
def endAttempt (g : FreqGov) (mode : FreqMode) (curRepetitionNum : ℕ) (forcedMinDone : Bool)
    (overflowed : Bool) : FreqGov × Next :=
  let g := freqGovRestoreMax g
  -- asked before the position moves
  let shouldRetry := freqGovShouldRetry g mode overflowed curRepetitionNum
  let g := freqGovOnResult g mode overflowed
  if shouldRetry then (g, .retry)
  -- `freq_gov_at_floor()` is asked after it has moved
  else if overflowed = true ∧ mode = .addr ∧ forcedMinDone = false ∧
      freqGovAtFloor g mode = false ∧ maxRepetitionNum ≤ curRepetitionNum then
    (freqGovForceMin g, .forceMin)
  else (g, .done)

/-- An attempt: the frequency the governor had pinned when the child was
resumed, and the outcome. -/
structure Attempt where
  freq : ℕ
  overflowed : Bool
deriving DecidableEq, Repr

/-- The loop of `main()` over one test case, entered with the first child
resumed. The outcome of the `k`-th attempt is `outcomes k`. Each repetition is
resumed by `retry_child()`, which applies the governor's frequency first. -/
def retryLoop (mode : FreqMode) (outcomes : ℕ → Bool) :
    ℕ → FreqGov → ℕ → Bool → ℕ → Option (List Attempt × FreqGov)
  | 0, _, _, _, _ => none
  | fuel + 1, g, rep, forced, k =>
    -- the frequency pinned while the child runs, before it is restored
    let attempt : Attempt := ⟨g.lastSetFreq, outcomes k⟩
    let after := endAttempt g mode rep forced (outcomes k)
    match after.2 with
    | .done => some ([attempt], after.1)
    | .retry =>
      (retryLoop mode outcomes fuel (freqGovApply after.1 mode) (rep + 1) forced (k + 1)).map
        fun r => (attempt :: r.1, r.2)
    | .forceMin =>
      (retryLoop mode outcomes fuel (freqGovApply after.1 mode) rep true (k + 1)).map
        fun r => (attempt :: r.1, r.2)

/-- A test case: the governor's frequency is applied and the loop entered. -/
def testcase (mode : FreqMode) (outcomes : ℕ → Bool) (fuel : ℕ) (g : FreqGov) :
    Option (List Attempt × FreqGov) :=
  retryLoop mode outcomes fuel (freqGovApply g mode) 0 false 0

/-! ### One attempt in `addr` mode -/

/-- The loop's view of the governor in `addr` mode: the table, the position and
the pinned frequency, with no forced run pending. -/
structure AddrAt (g : FreqGov) (table : List ℕ) (idx freq : ℕ) : Prop where
  enabled : g.enabled = true
  table : g.freqTable = table
  idx : g.curIdx .addr = idx
  freq : g.lastSetFreq = freq
  noForce : g.forceMinPending = false

/-- An overflow steps the position down. -/
theorem freqGovOnResult_overflow {g : FreqGov} (he : g.enabled = true) :
    (freqGovOnResult g .addr true).curIdx .addr = g.curIdx .addr - 1 := by
  unfold freqGovOnResult onOverflow
  simp only [he, not_true_eq_false, if_false, if_true, adaptInterval_curIdx]
  split
  · exact setMode_self _ _ _
  · omega

/-- The search writes neither the table nor what decides about the next run. -/
theorem freqGovOnResult_frame (g : FreqGov) (mode : FreqMode) (o : Bool) :
    (freqGovOnResult g mode o).enabled = g.enabled ∧
      (freqGovOnResult g mode o).freqTable = g.freqTable ∧
      (freqGovOnResult g mode o).forceMinPending = g.forceMinPending := by
  unfold freqGovOnResult onOverflow onClean
  split
  · exact ⟨rfl, rfl, rfl⟩
  · rw [adaptInterval_enabled, adaptInterval_freqTable, adaptInterval_forceMinPending]
    split
    · exact ⟨rfl, rfl, rfl⟩
    · -- a clean exec moves the position only once an interval is full
      dsimp only
      split <;> exact ⟨rfl, rfl, rfl⟩

theorem freqGovRestoreMax_eq {g : FreqGov} (he : g.enabled = true) :
    freqGovRestoreMax g = setFreq g g.systemMaxCpufreq := by
  unfold freqGovRestoreMax
  rw [if_neg (by simp [he])]

/-- A run's frequency: the floor when it is forced, else the position's. -/
theorem addrAt_apply {g : FreqGov} (he : g.enabled = true) :
    AddrAt (freqGovApply g .addr) g.freqTable (g.curIdx .addr)
      (g.freqTable.getD (if g.forceMinPending then 0 else g.curIdx .addr) 0) := by
  unfold freqGovApply FreqGov.freqAt
  rw [if_neg (by simp [he])]
  split
  · -- the pending forced run is spent on this one
    next hf => refine ⟨?_, ?_, ?_, ?_, ?_⟩ <;> simp [he]
  · next hf => refine ⟨?_, ?_, ?_, ?_, ?_⟩ <;> simp [he, hf]

/-- A clean attempt ends the test case. -/
theorem endAttempt_clean (g : FreqGov) (mode : FreqMode) (rep : ℕ) (forced : Bool) :
    (endAttempt g mode rep forced false).2 = .done := by
  simp [endAttempt, freqGovShouldRetry]

section Attempt

variable {g : FreqGov} {table : List ℕ} {idx freq rep : ℕ} {forced : Bool}

/-- The governor an overflowed attempt leaves. -/
theorem AddrAt.afterOverflow (h : AddrAt g table idx freq) :
    ∃ freq', AddrAt (freqGovOnResult (freqGovRestoreMax g) .addr true) table (idx - 1) freq' := by
  have he : (freqGovRestoreMax g).enabled = true := by
    rw [freqGovRestoreMax_eq h.enabled, setFreq_enabled]
    exact h.enabled
  obtain ⟨henabled, htable, hforce⟩ := freqGovOnResult_frame (freqGovRestoreMax g) .addr true
  refine ⟨_, henabled.trans he, htable.trans ?_, ?_, rfl, hforce.trans ?_⟩
  · rw [freqGovRestoreMax_eq h.enabled, setFreq_freqTable, h.table]
  · rw [freqGovOnResult_overflow he, freqGovRestoreMax_eq h.enabled, setFreq_curIdx, h.idx]
  · rw [freqGovRestoreMax_eq h.enabled, setFreq_forceMinPending, h.noForce]

theorem AddrAt.shouldRetry (h : AddrAt g table idx freq) :
    freqGovShouldRetry (freqGovRestoreMax g) .addr true rep =
      decide (0 < idx ∧ rep < maxRepetitionNum) := by
  -- restoring the maximum moves no position
  rw [freqGovRestoreMax_eq h.enabled]
  unfold freqGovShouldRetry
  rw [setFreq_enabled, setFreq_curIdx, h.enabled, h.idx]
  simp

/-- An overflow above the floor is repeated while repetitions are left. -/
theorem AddrAt.end_retry (h : AddrAt g table idx freq) (hidx : 0 < idx)
    (hrep : rep < maxRepetitionNum) :
    (endAttempt g .addr rep forced true).2 = .retry ∧
      ∃ freq', AddrAt (endAttempt g .addr rep forced true).1 table (idx - 1) freq' := by
  have hend : endAttempt g .addr rep forced true =
      (freqGovOnResult (freqGovRestoreMax g) .addr true, .retry) := by
    unfold endAttempt
    -- the query reads the position the attempt ran at
    simp only [h.shouldRetry, hidx, hrep, and_self, decide_true, if_true]
  rw [hend]
  exact ⟨rfl, h.afterOverflow⟩

/-- An overflow with no repetition left is forced to the floor, when the
position it leaves is not the floor. -/
theorem AddrAt.end_forceMin (h : AddrAt g table idx freq) (hidx : 1 < idx)
    (hrep : maxRepetitionNum ≤ rep) :
    (endAttempt g .addr rep false true).2 = .forceMin ∧
      ∃ g' freq', (endAttempt g .addr rep false true).1 = freqGovForceMin g' ∧
        AddrAt g' table (idx - 1) freq' := by
  obtain ⟨freq', h'⟩ := h.afterOverflow
  -- the query reads the position the overflow has left, one below
  have hfloor :
      freqGovAtFloor (freqGovOnResult (freqGovRestoreMax g) .addr true) .addr = false := by
    unfold freqGovAtFloor
    rw [h'.enabled, h'.idx]
    simpa using (by omega : ¬ idx - 1 = 0)
  have hend : endAttempt g .addr rep false true =
      (freqGovForceMin (freqGovOnResult (freqGovRestoreMax g) .addr true), .forceMin) := by
    unfold endAttempt
    simp only [h.shouldRetry, Nat.not_lt.mpr hrep, and_false, decide_false, hfloor, hrep,
      and_self, if_true, Bool.false_eq_true, if_false]
  rw [hend]
  exact ⟨rfl, _, freq', rfl, h'⟩

/-- An overflow with no repetition left ends the test case when the position it
leaves is the floor, whatever frequency it ran at. -/
theorem AddrAt.end_floor (h : AddrAt g table idx freq) (hidx : idx ≤ 1)
    (hstop : idx = 0 ∨ maxRepetitionNum ≤ rep) :
    (endAttempt g .addr rep forced true).2 = .done := by
  obtain ⟨freq', h'⟩ := h.afterOverflow
  -- from rung 1 the overflow has left rung 0, which is not where the attempt ran
  have hfloor : freqGovAtFloor (freqGovOnResult (freqGovRestoreMax g) .addr true) .addr = true := by
    unfold freqGovAtFloor
    rw [h'.enabled, h'.idx]
    simpa using (by omega : idx - 1 = 0)
  have hno : ¬ (0 < idx ∧ rep < maxRepetitionNum) := by omega
  unfold endAttempt
  simp [h.shouldRetry, hno, hfloor]

/-- A forced attempt is the last. -/
theorem AddrAt.end_forced (h : AddrAt g table idx freq) (hrep : maxRepetitionNum ≤ rep)
    (o : Bool) : (endAttempt g .addr rep true o).2 = .done := by
  cases o with
  | false => exact endAttempt_clean _ _ _ _
  | true =>
    unfold endAttempt
    simp [h.shouldRetry, Nat.not_lt.mpr hrep]

/-- The next repetition runs at the position the outcome left. -/
theorem AddrAt.apply (h : AddrAt g table idx freq) :
    AddrAt (freqGovApply g .addr) table idx (table.getD idx 0) := by
  have hnext := addrAt_apply h.enabled
  rw [h.noForce, h.table, h.idx] at hnext
  exact hnext

/-- A forced run pins the floor and leaves the position. -/
theorem AddrAt.apply_forceMin (h : AddrAt g table idx freq) :
    AddrAt (freqGovApply (freqGovForceMin g) .addr) table idx (table.getD 0 0) := by
  -- forcing sets the flag alone
  have hnext := addrAt_apply (g := freqGovForceMin g) h.enabled
  rw [show (freqGovForceMin g).freqTable = table from h.table,
    show (freqGovForceMin g).curIdx .addr = idx from h.idx] at hnext
  exact hnext

end Attempt

/-! ### The loop in `addr` mode -/

section Loop

variable {table : List ℕ} {outcomes : ℕ → Bool}

/-- The loop from `g` on makes the attempts of `earlier` and then `last`,
whatever more fuel it has. -/
def LoopEnds (outcomes : ℕ → Bool) (fuel : ℕ) (g : FreqGov) (rep : ℕ) (forced : Bool) (k : ℕ)
    (earlier : List Attempt) (last : Attempt) : Prop :=
  ∃ g', ∀ more, retryLoop .addr outcomes (fuel + more) g rep forced k = some (earlier ++ [last], g')

theorem LoopEnds.of_done {g : FreqGov} {rep k : ℕ} {forced : Bool} (fuel : ℕ)
    (h : (endAttempt g .addr rep forced (outcomes k)).2 = .done) :
    LoopEnds outcomes (fuel + 1) g rep forced k [] ⟨g.lastSetFreq, outcomes k⟩ := by
  refine ⟨(endAttempt g .addr rep forced (outcomes k)).1, fun more => ?_⟩
  rw [Nat.add_right_comm, retryLoop]
  simp only [h]
  rfl

/-- An attempt that is followed by others. -/
theorem LoopEnds.cons {g g₁ : FreqGov} {rep rep₁ k fuel : ℕ} {forced forced₁ : Bool}
    {earlier : List Attempt} {last : Attempt}
    (hstep : ∀ fuel, retryLoop .addr outcomes (fuel + 1) g rep forced k =
      (retryLoop .addr outcomes fuel g₁ rep₁ forced₁ (k + 1)).map
        fun r => (⟨g.lastSetFreq, outcomes k⟩ :: r.1, r.2))
    (hnext : LoopEnds outcomes fuel g₁ rep₁ forced₁ (k + 1) earlier last) :
    LoopEnds outcomes (fuel + 1) g rep forced k (⟨g.lastSetFreq, outcomes k⟩ :: earlier) last := by
  obtain ⟨g', hnext⟩ := hnext
  refine ⟨g', fun more => ?_⟩
  rw [Nat.add_right_comm, hstep, hnext more]
  rfl

theorem LoopEnds.of_retry {g : FreqGov} {rep k fuel : ℕ} {forced : Bool} {earlier : List Attempt}
    {last : Attempt} (h : (endAttempt g .addr rep forced (outcomes k)).2 = .retry)
    (hnext : LoopEnds outcomes fuel
      (freqGovApply (endAttempt g .addr rep forced (outcomes k)).1 .addr) (rep + 1) forced (k + 1)
      earlier last) :
    LoopEnds outcomes (fuel + 1) g rep forced k (⟨g.lastSetFreq, outcomes k⟩ :: earlier) last := by
  refine .cons (fun fuel => ?_) hnext
  rw [retryLoop]
  simp only [h]

theorem LoopEnds.of_forceMin {g : FreqGov} {rep k fuel : ℕ} {forced : Bool}
    {earlier : List Attempt} {last : Attempt}
    (h : (endAttempt g .addr rep forced (outcomes k)).2 = .forceMin)
    (hnext : LoopEnds outcomes fuel
      (freqGovApply (endAttempt g .addr rep forced (outcomes k)).1 .addr) rep true (k + 1)
      earlier last) :
    LoopEnds outcomes (fuel + 1) g rep forced k (⟨g.lastSetFreq, outcomes k⟩ :: earlier) last := by
  refine .cons (fun fuel => ?_) hnext
  rw [retryLoop]
  simp only [h]

/-- The loop stands where it gives up one rung above the floor: the position
and the repetitions made add up to one more than the repetitions allowed, and
every attempt left overflows. -/
def EndsAboveFloor (table : List ℕ) (outcomes : ℕ → Bool) (idx rep k left : ℕ) : Prop :=
  idx + rep = maxRepetitionNum + 1 ∧ (∀ j ≤ left, outcomes (k + j) = true) ∧
    table.getD 1 0 ≠ table.getD 0 0

theorem endsAboveFloor_succ {idx rep k left : ℕ} (hidx : 0 < idx) (hk : outcomes k = true) :
    EndsAboveFloor table outcomes (idx - 1) (rep + 1) (k + 1) left ↔
      EndsAboveFloor table outcomes idx rep k (left + 1) := by
  unfold EndsAboveFloor
  -- the sum is kept by a step, and the attempt just made is the first of those left
  refine and_congr (by omega) (and_congr_left fun _ => ?_)
  constructor
  · intro h j hj
    cases j with
    | zero => exact hk
    | succ j =>
      rw [show k + (j + 1) = k + 1 + j by omega]
      exact h j (by omega)
  · intro h j hj
    rw [show k + 1 + j = k + (j + 1) by omega]
    exact h (j + 1) (by omega)

/-- The loop with no repetition left. -/
theorem AddrAt.loop_exhausted {g : FreqGov} {idx rep k : ℕ}
    (h : AddrAt g table idx (table.getD idx 0)) (hrep : rep = maxRepetitionNum) :
    ∃ earlier last, LoopEnds outcomes 2 g rep false k earlier last ∧
      ((last.overflowed = true → last.freq = table.getD 0 0) ↔
        ¬ EndsAboveFloor table outcomes idx rep k 0) := by
  cases ho : outcomes k with
  | false =>
    -- a clean attempt ends the loop, and there is nothing to show of the last
    refine ⟨_, _, .of_done 1 (by rw [ho]; exact endAttempt_clean _ _ _ _), ?_⟩
    refine iff_of_true (fun hov => absurd (ho ▸ hov) (by simp)) fun hE => ?_
    simpa [ho] using hE.2.1 0 le_rfl
  | true =>
    by_cases hidx : idx ≤ 1
    · refine ⟨_, _, .of_done 1 (by rw [ho]; exact h.end_floor hidx (.inr hrep.ge)), ?_⟩
      -- the position reads 0 now, and the attempt ran at `idx`
      rw [h.freq]
      rcases Nat.le_one_iff_eq_zero_or_eq_one.mp hidx with rfl | rfl
      · exact iff_of_true (fun _ => rfl) fun hE => absurd hE.1 (by omega)
      · have hall : ∀ j ≤ 0, outcomes (k + j) = true := by
          intro j hj
          rw [Nat.le_zero.mp hj]
          exact ho
        have hE : EndsAboveFloor table outcomes 1 rep k 0 ↔ table.getD 1 0 ≠ table.getD 0 0 :=
          ⟨fun hE => hE.2.2, fun hne => ⟨by omega, hall, hne⟩⟩
        rw [hE, not_not]
        exact ⟨fun hlast => hlast ho, fun heq _ => heq⟩
    · -- above rung 1 the forced run follows, at the floor, and is the last
      obtain ⟨hnext, g', freq', hg', h'⟩ := h.end_forceMin (by omega) hrep.ge
      have hforced := h'.apply_forceMin
      have hend := hforced.end_forced hrep.ge (outcomes (k + 1))
      rw [← ho] at hnext hg'
      rw [← hg'] at hforced hend
      refine ⟨_, _, .of_forceMin hnext (.of_done 0 hend), ?_⟩
      exact iff_of_true (fun _ => hforced.freq) fun hE => absurd hE.1 (by omega)

/-- The loop with `left` repetitions left. Only the first attempt of a test case
may run at another rung than its position, and then at the floor. -/
theorem AddrAt.loop (outcomes : ℕ → Bool) (left : ℕ) :
    ∀ (k : ℕ) {g : FreqGov} {idx freq rep : ℕ},
    AddrAt g table idx freq → rep + left = maxRepetitionNum →
    (freq = table.getD idx 0 ∨ rep = 0 ∧ freq = table.getD 0 0) →
    ∃ earlier last, LoopEnds outcomes (left + 2) g rep false k earlier last ∧
      ((last.overflowed = true → last.freq = table.getD 0 0) ↔
        ¬ EndsAboveFloor table outcomes idx rep k left) := by
  -- induction on the repetitions left, with the position and the attempt number general
  induction left with
  | zero =>
    intro k g idx freq rep h hrep hfreq
    rcases hfreq with rfl | ⟨rfl, -⟩
    · exact h.loop_exhausted hrep
    · -- no test case starts with its repetitions spent
      exact absurd hrep (by decide)
  | succ left ih =>
    intro k g idx freq rep h hrep hfreq
    cases ho : outcomes k with
    | false =>
      refine ⟨_, _, .of_done (left + 2) (by rw [ho]; exact endAttempt_clean _ _ _ _), ?_⟩
      refine iff_of_true (fun hov => absurd (ho ▸ hov) (by simp)) fun hE => ?_
      simpa [ho] using hE.2.1 0 (Nat.zero_le _)
    | true =>
      rcases Nat.eq_zero_or_pos idx with rfl | hidx
      · -- an overflow at the floor is not repeated
        refine ⟨_, _, .of_done (left + 2) (by rw [ho]; exact h.end_floor (by omega) (.inl rfl)), ?_⟩
        have hfloor : g.lastSetFreq = table.getD 0 0 := by
          rw [h.freq]
          rcases hfreq with rfl | ⟨-, rfl⟩ <;> rfl
        exact iff_of_true (fun _ => hfloor) fun hE => absurd hE.1 (by omega)
      · obtain ⟨hnext, freq', h'⟩ := h.end_retry hidx (show rep < maxRepetitionNum by omega)
        rw [← ho] at hnext h'
        -- the repetition runs at its own position
        have hrep' : rep + 1 + left = maxRepetitionNum := by omega
        obtain ⟨earlier, last, hloop, hiff⟩ := ih (k + 1) h'.apply hrep' (.inl rfl)
        refine ⟨_, last, .of_retry hnext hloop, ?_⟩
        rw [hiff, endsAboveFloor_succ hidx ho]

end Loop

/-- **A test case gives up at the floor, except from the fourth rung.** The loop
ends within five attempts, and if its last attempt overflowed then this attempt
ran at `freq_table[0]`, unless the test case starts at rung 4, its first four
attempts overflow and `freq_table[1]` is another frequency. -/
theorem gives_up_at_floor_iff (g : FreqGov) (outcomes : ℕ → Bool) (he : g.enabled = true) :
    ∃ earlier last g',
      (∀ fuel, 5 ≤ fuel → testcase .addr outcomes fuel g = some (earlier ++ [last], g')) ∧
      ((last.overflowed = true → last.freq = g.freqAt 0) ↔
        ¬ (g.curIdx .addr = 4 ∧ (∀ k < 4, outcomes k = true) ∧ g.freqAt 1 ≠ g.freqAt 0)) := by
  -- a forced run left pending by the last test case puts the first attempt on the floor
  have hfreq : g.freqTable.getD (if g.forceMinPending then 0 else g.curIdx .addr) 0 =
        g.freqTable.getD (g.curIdx .addr) 0 ∨
      (0 : ℕ) = 0 ∧ g.freqTable.getD (if g.forceMinPending then 0 else g.curIdx .addr) 0 =
        g.freqTable.getD 0 0 := by
    cases g.forceMinPending with
    | false => exact .inl rfl
    | true => exact .inr ⟨rfl, rfl⟩
  obtain ⟨earlier, last, ⟨g', hloop⟩, hiff⟩ :=
    AddrAt.loop outcomes 3 0 (addrAt_apply he) rfl hfreq
  refine ⟨earlier, last, g', fun fuel hfuel => ?_, hiff.trans (not_congr ?_)⟩
  · -- four attempts and a forced one, and any fuel beyond that
    have := hloop (fuel - 5)
    rw [show 3 + 2 + (fuel - 5) = fuel by omega] at this
    exact this
  · unfold EndsAboveFloor maxRepetitionNum
    refine and_congr (by omega) (and_congr_left fun _ => ?_)
    simp [Nat.lt_succ_iff]

/-- The governor of a board with five frequencies, freshly initialized. -/
def fiveRungs : FreqGov :=
  freqGovInit (.static ⟨408000, 1200000, 0, "schedutil"⟩)
    { disabled := false
      cpuinfoMaxFreq := 1200000
      cpuinfoMinFreq := 408000
      scalingAvailableFrequencies := [408000, 600000, 816000, 1008000, 1200000]
      scalingGovernor := "schedutil"
      scalingMinFreq := 408000
      scalingMaxFreq := 1200000
      scalingSetspeed := 0 } true

/-- A test case of that board whose second attempt is clean ends there. -/
theorem gives_up_at_floor_iff_clean :
    ∃ earlier last g',
      testcase .addr (fun k => k = 0) 5 fiveRungs = some (earlier ++ [last], g') ∧
      (last.overflowed = true → last.freq = fiveRungs.freqAt 0) := by
  obtain ⟨earlier, last, g', htest, hiff⟩ :=
    gives_up_at_floor_iff fiveRungs (fun k => k = 0) (by decide)
  exact ⟨earlier, last, g', htest 5 le_rfl,
    hiff.mpr fun h => absurd (h.2.1 1 (by decide)) (by decide)⟩

/-- **The loop gives up one rung above the floor.** From the top of five
frequencies, with every attempt overflowed, the loop breaks after the four rungs
4, 3, 2 and 1: the floor, 408 MHz, is not tried. -/
theorem gives_up_above_floor :
    fiveRungs.enabled = true ∧ fiveRungs.curIdx .addr < fiveRungs.freqTable.length ∧
      (testcase .addr (fun _ => true) 5 fiveRungs).map Prod.fst =
        some [⟨1200000, true⟩, ⟨1008000, true⟩, ⟨816000, true⟩, ⟨600000, true⟩] ∧
      fiveRungs.freqAt 0 = 408000 := by
  refine ⟨by decide, by decide, by decide +kernel, by decide⟩

end Governor
end CsTrace
