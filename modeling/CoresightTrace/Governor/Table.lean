import CoresightTrace.Framework.InsertionSort
import CoresightTrace.Governor.Evidence

/-!
# The frequency table and the governor's invariant

`read_available_frequencies()` fills the array `freq_table` in the order of the file
and sorts it in place. `readTable` is the function on the array; what it leaves in
the first `freq_table_num` entries is the list the rest of the governor works with
(`readTable_eq`).

`Sound` is what holds of the governor from initialization on, whatever calls are
made: it extends `Tabled` by the table's origin and by the bounds of the window and
of the totals.
-/

namespace CsTrace
namespace Governor

/-! ### Reading the table -/

/-- The values within the hardware bounds, in the order of the file. -/
def inRange (lo hi : ℕ) (listed : List ℕ) : List ℕ :=
  listed.filter fun f => decide (lo ≤ f ∧ f ≤ hi)

/-- The `fscanf()` loop: the array and `freq_table_num`, over the numbers of the file
that are left. -/
def scanTable (lo hi : ℕ) : List ℕ → Memory ℕ → ℕ → Memory ℕ × ℕ
  | [], table, num => (table, num)
  | f :: rest, table, num =>
    if ¬ num < freqTableSize then (table, num)
    else if f < lo ∨ hi < f then scanTable lo hi rest table num
    else scanTable lo hi rest (table.write num [f]) (num + 1)

/-- `read_available_frequencies()` on the array. -/
def readTable (lo hi : ℕ) (listed : List ℕ) (table : Memory ℕ) : Memory ℕ × ℕ :=
  let (table, num) := scanTable lo hi listed table 0
  -- no table: the hardware bounds
  let (table, num) := if num = 0 then ((table.write 0 [lo]).write 1 [hi], 2) else (table, num)
  (table.insertionSort num, num)

/-- The loop appends the values within the bounds until the array is full. -/
theorem scanTable_spec (lo hi : ℕ) (listed : List ℕ) (table : Memory ℕ) {num : ℕ}
    (hnum : num ≤ freqTableSize) :
    (scanTable lo hi listed table num).2 =
        num + ((inRange lo hi listed).take (freqTableSize - num)).length ∧
      (scanTable lo hi listed table num).1.read 0 (scanTable lo hi listed table num).2 =
        table.read 0 num ++ (inRange lo hi listed).take (freqTableSize - num) := by
  induction listed generalizing table num with
  | nil => simp [scanTable, inRange]
  | cons f rest ih =>
    unfold scanTable
    by_cases hfull : num < freqTableSize
    · rw [if_neg (not_not.mpr hfull)]
      by_cases hskip : f < lo ∨ hi < f
      · have hout : inRange lo hi (f :: rest) = inRange lo hi rest :=
          List.filter_cons_of_neg (by simpa using by omega)
        rw [if_pos hskip, hout]
        exact ih table hnum
      · have hin : inRange lo hi (f :: rest) = f :: inRange lo hi rest :=
          List.filter_cons_of_pos (by simpa using by omega)
        have hread : (table.write num [f]).read 0 (num + 1) = table.read 0 num ++ [f] := by
          rw [Memory.read_succ, Memory.write_apply, Memory.read_write_of_le _ _ (by omega)]
        obtain ⟨hcount, hcells⟩ := ih (table.write num [f]) (show num + 1 ≤ freqTableSize by omega)
        rw [hread] at hcells
        -- one entry is taken, and one less is left to take
        rw [if_neg hskip, hin, show freqTableSize - num = freqTableSize - (num + 1) + 1 by omega,
          List.take_succ_cons, List.length_cons]
        refine ⟨by omega, ?_⟩
        rw [hcells, List.append_assoc]
        rfl
    · rw [if_pos hfull, show freqTableSize - num = 0 by omega]
      simp

/-- **The array holds the table of the governor.** -/
theorem readTable_eq (lo hi : ℕ) (listed : List ℕ) (table : Memory ℕ) :
    (readTable lo hi listed table).2 = (readAvailableFrequencies lo hi listed).length ∧
      (readTable lo hi listed table).1.read 0 (readTable lo hi listed table).2 =
        readAvailableFrequencies lo hi listed := by
  obtain ⟨hnum, hcells⟩ := scanTable_spec lo hi listed table (Nat.zero_le freqTableSize)
  rw [Nat.zero_add, Nat.sub_zero] at hnum
  rw [Nat.sub_zero, show table.read 0 0 = [] from rfl, List.nil_append] at hcells
  have hlist : readAvailableFrequencies lo hi listed =
      (if (inRange lo hi listed).take freqTableSize = [] then [lo, hi]
        else (inRange lo hi listed).take freqTableSize).insertionSort (· ≤ ·) := rfl
  unfold readTable
  dsimp only
  rw [hlist]
  by_cases hnone : (scanTable lo hi listed table 0).2 = 0
  · -- no value within the bounds: the bounds themselves are sorted
    have hempty : (inRange lo hi listed).take freqTableSize = [] :=
      List.length_eq_zero_iff.mp (hnum.symm.trans hnone)
    rw [if_pos hnone, if_pos hempty]
    refine ⟨by rw [List.length_insertionSort]; rfl, ?_⟩
    rw [Memory.read_insertionSort]
    rfl
  · have hsome : (inRange lo hi listed).take freqTableSize ≠ [] := by
      intro hempty
      rw [hempty] at hnum
      exact hnone hnum
    rw [if_neg hnone, if_neg hsome]
    refine ⟨by rw [List.length_insertionSort, hnum], ?_⟩
    rw [Memory.read_insertionSort, hcells]

theorem readAvailableFrequencies_length_le (lo hi : ℕ) (listed : List ℕ) :
    (readAvailableFrequencies lo hi listed).length ≤ freqTableSize := by
  unfold readAvailableFrequencies
  rw [List.length_insertionSort]
  split
  · exact (by decide : 2 ≤ freqTableSize)
  · rw [List.length_take]
    exact min_le_left _ _

theorem readAvailableFrequencies_perm (lo hi : ℕ) (listed : List ℕ) :
    (readAvailableFrequencies lo hi listed).Perm
      (if inRange lo hi listed = [] then [lo, hi]
        else (inRange lo hi listed).take freqTableSize) := by
  have htaken : (inRange lo hi listed).take freqTableSize = [] ↔ inRange lo hi listed = [] := by
    rw [List.take_eq_nil_iff]
    exact or_iff_right (by decide)
  refine (List.perm_insertionSort _ _).trans ?_
  change List.Perm (if (inRange lo hi listed).take freqTableSize = [] then _ else _) _
  simp only [htaken]
  exact List.Perm.refl _

/-! ### The invariant -/

/-- The governor that `freq_gov_init()` has set up from `reads`, after any calls. -/
structure Sound (reads : InitReads) (g : FreqGov) : Prop where
  tabled : Tabled g
  min : g.systemMinCpufreq = reads.cpuinfoMinFreq
  max : g.systemMaxCpufreq = reads.cpuinfoMaxFreq
  table : g.freqTable = readAvailableFrequencies reads.cpuinfoMinFreq reads.cpuinfoMaxFreq
    reads.scalingAvailableFrequencies
  window : minFreqInterval ≤ g.freqInterval ∧ g.freqInterval ≤ maxFreqInterval
  totals : ∀ mode, g.totalOverflowExecs mode ≤ g.totalExecs mode

theorem Sound.init (g : FreqGov) {reads : InitReads} (addrOnly : Bool)
    (hd : reads.disabled = false) (hle : reads.cpuinfoMinFreq ≤ reads.cpuinfoMaxFreq) :
    Sound reads (freqGovInit g reads addrOnly) := by
  have htabled := Tabled.init g addrOnly hd hle
  unfold freqGovInit at htabled ⊢
  rw [hd] at htabled ⊢
  exact ⟨htabled, rfl, rfl, rfl, initialWindow_bounds addrOnly, fun _ => le_rfl⟩

/-- A result counts at least as many execs as overflows. -/
theorem freqGovOnResult_totals {g : FreqGov}
    (h : ∀ mode, g.totalOverflowExecs mode ≤ g.totalExecs mode)
    (mode : FreqMode) (overflowed : Bool) (m : FreqMode) :
    (freqGovOnResult g mode overflowed).totalOverflowExecs m ≤
      (freqGovOnResult g mode overflowed).totalExecs m := by
  cases he : g.enabled with
  | false =>
    rw [freqGovOnResult_disabled he]
    exact h m
  | true =>
    rw [← FreqGov.search_totalOverflowExecs, ← FreqGov.search_totalExecs]
    by_cases hm : m = mode
    · obtain ⟨hexecs, hoverflows⟩ := ModeSearch.step_totals g.freqInterval g.freqTable.length
        (g.search mode) overflowed
      have hle := h mode
      rw [hm, freqGovOnResult_search he, hexecs, hoverflows, FreqGov.search_totalOverflowExecs,
        FreqGov.search_totalExecs]
      split <;> omega
    · rw [freqGovOnResult_search_of_ne g overflowed hm]
      exact h m

/-- **Every call keeps the invariant.** -/
theorem Sound.run {reads : InitReads} {g : FreqGov} (h : Sound reads g) (c : Call) :
    Sound reads (c.run g) := by
  have hfixed := Call.fixed g c
  refine ⟨h.tabled.run c, hfixed.min.trans h.min, hfixed.max.trans h.max,
    hfixed.table.trans h.table, ?_, ?_⟩
  · rcases Call.tallied g c with ⟨mode, overflowed, rfl⟩ | htally
    · cases he : g.enabled with
      | false =>
        rw [Call.run, freqGovOnResult_disabled he]
        exact h.window
      | true =>
        rw [Call.run, freqGovOnResult_freqInterval he]
        exact windowOf_bounds _ _ _ h.window
    · rw [htally.window]
      exact h.window
  · rcases Call.tallied g c with ⟨mode, overflowed, rfl⟩ | htally
    · exact freqGovOnResult_totals h.totals mode overflowed
    · rw [htally.overflows, htally.execs]
      exact h.totals

/-- **The governor's invariant.** Whatever the file lists, after initialization and
any calls the table is a sorted arrangement of the first values within the bounds,
or of the bounds, and is what the array holds; the positions point into it, the window
and the totals are within their bounds, and so is every frequency the next call
pins. -/
theorem governor_invariant (p : CpuPolicy) (reads : InitReads) (addrOnly : Bool)
    (hd : reads.disabled = false) (hle : reads.cpuinfoMinFreq ≤ reads.cpuinfoMaxFreq)
    (calls : List Call) :
    let g := calls.foldl Call.run (freqGovInit (.static p) reads addrOnly)
    let listed := inRange reads.cpuinfoMinFreq reads.cpuinfoMaxFreq
      reads.scalingAvailableFrequencies
    (1 ≤ g.freqTable.length ∧ g.freqTable.length ≤ freqTableSize) ∧
      g.freqTable.Pairwise (· ≤ ·) ∧
      g.freqTable.Perm
        (if listed = [] then [reads.cpuinfoMinFreq, reads.cpuinfoMaxFreq]
          else listed.take freqTableSize) ∧
      (∀ array, g.freqTable =
        let r := readTable reads.cpuinfoMinFreq reads.cpuinfoMaxFreq
          reads.scalingAvailableFrequencies array
        r.1.read 0 r.2) ∧
      (∀ mode, g.curIdx mode < g.freqTable.length) ∧
      (minFreqInterval ≤ g.freqInterval ∧ g.freqInterval ≤ maxFreqInterval) ∧
      (∀ mode, g.totalOverflowExecs mode ≤ g.totalExecs mode) ∧
      ∀ c : Call, ∀ f ∈ c.targets g, reads.cpuinfoMinFreq ≤ f ∧ f ≤ reads.cpuinfoMaxFreq := by
  intro g listed
  have h : Sound reads g :=
    calls_invariant (fun _ c h => h.run c) (.init (.static p) addrOnly hd hle) calls
  -- the table is the one read at initialization, whatever the calls did since
  refine ⟨?_, ?_, ?_, ?_, h.tabled.curIdx, h.window, h.totals, ?_⟩
  · rw [h.table]
    exact ⟨readAvailableFrequencies_length_pos _ _ _, readAvailableFrequencies_length_le _ _ _⟩
  · rw [h.table]
    exact List.pairwise_insertionSort _ _
  · rw [h.table]
    exact readAvailableFrequencies_perm _ _ _
  · intro array
    rw [h.table]
    exact (readTable_eq _ _ _ array).2.symm
  · intro c f hf
    rw [← h.min, ← h.max]
    exact h.tabled.targets hf

/-- The invariant on the board that lists no frequencies, after a ramp that overflows
at its second rung and a result. -/
theorem governor_invariant_unlisted :
    let g := [Call.calibrate .atom fun i => .ran (decide (0 < i)), .onResult .atom true].foldl
      Call.run unlisted
    g.freqTable.Pairwise (· ≤ ·) ∧ ∀ mode, g.curIdx mode < g.freqTable.length := by
  have h := governor_invariant ⟨408000, 1200000, 0, "schedutil"⟩ unlistedReads false rfl (by decide)
    [Call.calibrate .atom fun i => .ran (decide (0 < i)), .onResult .atom true]
  exact ⟨h.2.1, h.2.2.2.2.1⟩

end Governor
end CsTrace
