import CoresightTrace.Governor.Table
import CoresightTrace.Governor.Windows
import Mathlib.Algebra.Order.BigOperators.Group.List
import Mathlib.Tactic.Ring

/-!
# The settled frequency

`opt_freq()` reports the mean of the positions at which a mode completed its
windows, rounded to the nearest entry of the table. The positions are summed in
`opt_idx_sum`, an `int`, and counted in `stable_nums`, an `unsigned long long`;
the report adds half the count to the sum, divides and narrows to an `int` again.

* `recorded g mode rs` — the positions recorded over the history `rs`, newest
  first. The two variables are its sum and its length, as far as their widths go
  (`Ready.after_sum`, `Ready.after_windows`);
* `Settled g mode rs` — the report is the rounded mean and nothing on the way to it
  leaves its type.

Every recorded position lies in the table, so the mean does. The report is right
exactly as long as the sum fits its `int` (`Ready.settled_iff`). `sum_overflows` is
a campaign after which it does not, and the report reads outside the table.
-/

namespace CsTrace
namespace Governor

/-! ### The report -/

/-- `idx` of `opt_freq()` before it is clamped. -/
def optIdx (g : FreqGov) (mode : FreqMode) : BitVec 32 :=
  let stable := BitVec.ofNat 64 (g.stableNums mode)
  -- the `int` sum is converted by sign extension, the quotient by truncation
  (((g.optIdxSum mode).signExtend 64 + stable / 2#64) / stable).truncate 32

/-- `freq_table[i]`, or nothing outside the array. -/
def FreqGov.tableAt (g : FreqGov) (i : ℤ) : Option ℕ :=
  if 0 ≤ i ∧ i < (freqTableSize : ℤ) then some (g.freqAt i.toNat) else none

/-- `opt_freq()`. -/
def optFreq (g : FreqGov) (mode : FreqMode) : Option ℕ :=
  if BitVec.ofNat 64 (g.stableNums mode) = 0#64 then some 0
  else
    let idx := (optIdx g mode).toInt
    g.tableAt (if (g.freqTable.length : ℤ) ≤ idx then (g.freqTable.length : ℤ) - 1 else idx)

/-! ### The recorded positions -/

/-- The positions recorded at the windows that `mode` completed, newest first. -/
def recorded (g : FreqGov) (mode : FreqMode) : List Result → List ℕ
  | [] => []
  | r :: rs =>
    if (after g (r :: rs)).stableNums mode ≠ (after g rs).stableNums mode then
      (after g rs).curIdx mode :: recorded g mode rs
    else recorded g mode rs

/-- The mean rounded to the nearest integer, halves up. -/
def roundedMean (xs : List ℕ) : ℕ := (2 * xs.sum + xs.length) / (2 * xs.length)

/-- The report of `mode` after `rs` is the rounded mean of the positions recorded,
and nothing on the way to it overflows. -/
structure Settled (g : FreqGov) (mode : FreqMode) (rs : List Result) : Prop where
  /-- `opt_idx_sum` is the sum, all the way. -/
  sum : ∀ rs', rs' <:+ rs →
    ((after g rs').optIdxSum mode).toInt = ((recorded g mode rs').sum : ℤ)
  /-- `stable_nums` is the number of windows. -/
  windows : (BitVec.ofNat 64 ((after g rs).stableNums mode)).toNat = (recorded g mode rs).length
  /-- The dividend of the report. -/
  dividend : (((after g rs).optIdxSum mode).signExtend 64).toNat +
    (recorded g mode rs).length / 2 < 2 ^ 64
  /-- The quotient is the mean, and the clamp does not act on it. -/
  idx : (optIdx (after g rs) mode).toInt = (roundedMean (recorded g mode rs) : ℤ)
  inRange : roundedMean (recorded g mode rs) < g.freqTable.length
  freq : optFreq (after g rs) mode = some (g.freqAt (roundedMean (recorded g mode rs)))

/-! ### Arithmetic of the mean -/

/-- The report's own rounding. -/
theorem roundedMean_eq (xs : List ℕ) :
    roundedMean xs = (xs.sum + xs.length / 2) / xs.length := by
  unfold roundedMean
  generalize xs.sum = s
  generalize xs.length = k
  by_cases hk : k = 0
  · subst hk
    simp
  · rw [← Nat.div_div_eq_div_mul, show (2 * s + k) / 2 = s + k / 2 by omega]

/-- The mean of positions in the table is in the table. -/
theorem roundedMean_lt {xs : List ℕ} {n : ℕ} (hne : xs ≠ []) (h : ∀ x ∈ xs, x < n) :
    roundedMean xs < n := by
  have hpos : 0 < xs.length := List.length_pos_iff.mpr hne
  have hsum : xs.sum ≤ xs.length * (n - 1) := by
    have hle := List.sum_le_card_nsmul xs (n - 1) fun x hx => Nat.le_sub_one_of_lt (h x hx)
    simpa using hle
  have hn : 0 < n := Nat.zero_lt_of_lt (h _ (List.head_mem hne))
  unfold roundedMean
  rw [Nat.div_lt_iff_lt_mul (by omega)]
  calc 2 * xs.sum + xs.length
    _ ≤ 2 * (xs.length * (n - 1)) + xs.length := by omega
    _ < 2 * (xs.length * (n - 1)) + 2 * xs.length := by omega
    _ = n * (2 * xs.length) := by
        obtain ⟨k, rfl⟩ : ∃ k, n = k + 1 := ⟨n - 1, by omega⟩
        rw [Nat.add_sub_cancel]
        ring

/-! ### The variables of the report -/

/-- What a result does to `opt_idx_sum`. -/
theorem ModeSearch.step_optIdxSum (window rungs : ℕ) (s : ModeSearch) (overflowed : Bool) :
    (s.step window rungs overflowed).optIdxSum =
      if overflowed = false ∧ window ≤ s.nonOverflowNums + 1 then
        s.optIdxSum + BitVec.ofNat 32 s.curIdx
      else s.optIdxSum := by
  unfold step
  cases overflowed with
  | true => rfl
  | false =>
    by_cases hfull : window ≤ s.nonOverflowNums + 1
    · simp [hfull]
    · simp [hfull]

/-- An enabled governor with a table before `mode` has completed a window. -/
structure Ready (g : FreqGov) (mode : FreqMode) : Prop where
  enabled : g.enabled = true
  noWindows : g.stableNums mode = 0
  noSum : g.optIdxSum mode = 0
  position : g.curIdx mode < g.freqTable.length
  table : g.freqTable.length ≤ freqTableSize

theorem Ready.init (p : CpuPolicy) {reads : InitReads} (addrOnly : Bool) (mode : FreqMode)
    (hd : reads.disabled = false) : Ready (freqGovInit (.static p) reads addrOnly) mode := by
  have hpos := readAvailableFrequencies_length_pos reads.cpuinfoMinFreq reads.cpuinfoMaxFreq
    reads.scalingAvailableFrequencies
  have hle := readAvailableFrequencies_length_le reads.cpuinfoMinFreq reads.cpuinfoMaxFreq
    reads.scalingAvailableFrequencies
  unfold freqGovInit
  rw [hd]
  exact ⟨rfl, rfl, rfl, Nat.sub_one_lt_of_lt hpos, hle⟩

section Variables

variable {g : FreqGov} {mode : FreqMode} (h : Ready g mode)

include h

/-- The result completes a window of `mode`. -/
theorem Ready.completes_iff (r : Result) (rs : List Result) :
    (after g (r :: rs)).stableNums mode ≠ (after g rs).stableNums mode ↔
      r.mode = mode ∧ r.overflowed = false ∧
        (after g rs).freqInterval ≤ (after g rs).nonOverflowNums mode + 1 := by
  have hstep : (after g (r :: rs)).stableNums mode = _ :=
    congrArg ModeSearch.stableNums (after_search h.enabled r rs mode)
  rw [hstep]
  by_cases hm : r.mode = mode
  · rw [if_pos hm, ModeSearch.step_stableNums]
    simp [hm]
  · rw [if_neg hm]
    simp [hm]

theorem Ready.recorded_cons (r : Result) (rs : List Result) :
    recorded g mode (r :: rs) =
      if r.mode = mode ∧ r.overflowed = false ∧
          (after g rs).freqInterval ≤ (after g rs).nonOverflowNums mode + 1 then
        (after g rs).curIdx mode :: recorded g mode rs
      else recorded g mode rs := by
  rw [recorded]
  exact if_congr (h.completes_iff r rs) rfl rfl

/-- `stable_nums` counts the recorded positions. -/
theorem Ready.after_windows (rs : List Result) :
    (after g rs).stableNums mode = (recorded g mode rs).length := by
  induction rs with
  | nil => exact h.noWindows
  | cons r rs ih =>
    have hstep : (after g (r :: rs)).stableNums mode = _ :=
      congrArg ModeSearch.stableNums (after_search h.enabled r rs mode)
    rw [hstep, h.recorded_cons]
    by_cases hm : r.mode = mode
    · rw [if_pos hm, ModeSearch.step_stableNums]
      simp only [hm, true_and, FreqGov.search_stableNums, FreqGov.search_nonOverflowNums, ih]
      split <;> rfl
    · rw [if_neg hm, if_neg fun hc => hm hc.1]
      exact ih

/-- `opt_idx_sum` is their sum modulo its width. -/
theorem Ready.after_sum (rs : List Result) :
    (after g rs).optIdxSum mode = BitVec.ofNat 32 (recorded g mode rs).sum := by
  induction rs with
  | nil => exact h.noSum
  | cons r rs ih =>
    have hstep : (after g (r :: rs)).optIdxSum mode = _ :=
      congrArg ModeSearch.optIdxSum (after_search h.enabled r rs mode)
    rw [hstep, h.recorded_cons]
    by_cases hm : r.mode = mode
    · rw [if_pos hm, ModeSearch.step_optIdxSum]
      simp only [hm, true_and, FreqGov.search_optIdxSum, FreqGov.search_curIdx,
        FreqGov.search_nonOverflowNums, ih]
      split
      · rw [List.sum_cons, Nat.add_comm, BitVec.ofNat_add]
      · rfl
    · rw [if_neg hm, if_neg fun hc => hm hc.1]
      exact ih

/-- The position stays in the table. -/
theorem Ready.after_position (rs : List Result) :
    (after g rs).curIdx mode < g.freqTable.length := by
  induction rs with
  | nil => exact h.position
  | cons r rs ih =>
    have hstep : (after g (r :: rs)).curIdx mode = _ :=
      congrArg ModeSearch.curIdx (after_search h.enabled r rs mode)
    rw [hstep]
    by_cases hm : r.mode = mode
    · rw [if_pos hm, ModeSearch.step_curIdx]
      simp only [FreqGov.search_curIdx]
      split_ifs with hdown hup
      · omega
      · exact hup.2
      · exact ih
    · rw [if_neg hm]
      exact ih

/-- And so do the positions recorded. -/
theorem Ready.recorded_lt (rs : List Result) :
    ∀ i ∈ recorded g mode rs, i < g.freqTable.length := by
  induction rs with
  | nil => simp [recorded]
  | cons r rs ih =>
    rw [h.recorded_cons]
    split
    · intro i hi
      rcases List.mem_cons.mp hi with rfl | hi
      · exact h.after_position rs
      · exact ih i hi
    · exact ih

end Variables

/-- What a shorter history recorded. -/
theorem recorded_suffix (g : FreqGov) (mode : FreqMode) {rs' rs : List Result} (h : rs' <:+ rs) :
    recorded g mode rs' <:+ recorded g mode rs := by
  induction rs with
  | nil =>
    obtain rfl := List.suffix_nil.mp h
    exact List.suffix_rfl
  | cons r rs ih =>
    rcases List.suffix_cons_iff.mp h with rfl | h
    · exact List.suffix_rfl
    · rw [recorded]
      split
      · exact (ih h).trans (List.suffix_cons _ _)
      · exact ih h

theorem recorded_sum_mono (g : FreqGov) (mode : FreqMode) {rs' rs : List Result} (h : rs' <:+ rs) :
    (recorded g mode rs').sum ≤ (recorded g mode rs).sum := by
  obtain ⟨later, heq⟩ := recorded_suffix g mode h
  rw [← heq, List.sum_append]
  exact Nat.le_add_left _ _

/-! ### When the report is right -/

/-- A number of 31 bits is its own `int`. -/
theorem toInt_ofNat_of_lt {k : ℕ} (hk : k < 2 ^ 31) : (BitVec.ofNat 32 k).toInt = (k : ℤ) := by
  have htoNat : (BitVec.ofNat 32 k).toNat = k := by
    rw [BitVec.toNat_ofNat]
    exact Nat.mod_eq_of_lt (by omega)
  rw [BitVec.toInt_eq_toNat_of_lt (by rw [htoNat]; omega), htoNat]

/-- And keeps its value when it is extended. -/
theorem toNat_signExtend_of_lt {k : ℕ} (hk : k < 2 ^ 31) :
    ((BitVec.ofNat 32 k).signExtend 64).toNat = k := by
  have htoNat : (BitVec.ofNat 32 k).toNat = k := by
    rw [BitVec.toNat_ofNat]
    exact Nat.mod_eq_of_lt (by omega)
  have hmsb : (BitVec.ofNat 32 k).msb = false := by
    rw [BitVec.msb_eq_false_iff_two_mul_lt, htoNat]
    omega
  rw [BitVec.signExtend_eq_setWidth_of_msb_false hmsb, BitVec.toNat_setWidth, htoNat]
  exact Nat.mod_eq_of_lt (by omega)

section Report

variable {g : FreqGov} {mode : FreqMode} (h : Ready g mode) {rs : List Result}

include h

/-- The quotient of the report, when its operands have not overflowed. -/
theorem Ready.optIdx_toNat (hw : recorded g mode rs ≠ []) (hsum : (recorded g mode rs).sum < 2 ^ 31)
    (hlen : (recorded g mode rs).length < 2 ^ 64) :
    (optIdx (after g rs) mode).toNat = roundedMean (recorded g mode rs) := by
  have hstable : (BitVec.ofNat 64 (recorded g mode rs).length).toNat =
      (recorded g mode rs).length := by
    rw [BitVec.toNat_ofNat]
    exact Nat.mod_eq_of_lt hlen
  have hdividend : ((BitVec.ofNat 32 (recorded g mode rs).sum).signExtend 64 +
      BitVec.ofNat 64 (recorded g mode rs).length / 2#64).toNat =
        (recorded g mode rs).sum + (recorded g mode rs).length / 2 := by
    rw [BitVec.toNat_add, BitVec.toNat_udiv, toNat_signExtend_of_lt hsum, hstable]
    exact Nat.mod_eq_of_lt (by rw [show (2#64).toNat = 2 from rfl]; omega)
  have hmean : roundedMean (recorded g mode rs) < freqTableSize :=
    lt_of_lt_of_le (roundedMean_lt hw (h.recorded_lt rs)) h.table
  unfold optIdx
  dsimp only
  rw [h.after_sum, h.after_windows, BitVec.truncate_eq_setWidth, BitVec.toNat_setWidth,
    BitVec.toNat_udiv, hdividend, hstable, ← roundedMean_eq]
  exact Nat.mod_eq_of_lt (lt_trans hmean (by decide))

/-- **The report is right exactly as long as its sum fits.** -/
theorem Ready.settled_iff (hw : recorded g mode rs ≠ []) :
    Settled g mode rs ↔
      (recorded g mode rs).sum < 2 ^ 31 ∧ (recorded g mode rs).length < 2 ^ 64 := by
  constructor
  · intro hs
    -- an `int` is below `2 ^ 31`, an `unsigned long long` below `2 ^ 64`
    have hint := BitVec.toInt_lt (x := (after g rs).optIdxSum mode)
    rw [hs.sum rs List.suffix_rfl] at hint
    have hull := (BitVec.ofNat 64 ((after g rs).stableNums mode)).isLt
    rw [hs.windows] at hull
    exact ⟨by omega, hull⟩
  · rintro ⟨hsum, hlen⟩
    have hrange := roundedMean_lt hw (h.recorded_lt rs)
    have hsize := lt_of_lt_of_le hrange h.table
    have hsmall : roundedMean (recorded g mode rs) < 2 ^ 31 := lt_trans hsize (by decide)
    have hidx : (optIdx (after g rs) mode).toInt = (roundedMean (recorded g mode rs) : ℤ) := by
      have htoNat := h.optIdx_toNat hw hsum hlen
      rw [BitVec.toInt_eq_toNat_of_lt (by rw [htoNat]; omega), htoNat]
    have hstable : (BitVec.ofNat 64 ((after g rs).stableNums mode)).toNat =
        (recorded g mode rs).length := by
      rw [h.after_windows, BitVec.toNat_ofNat]
      exact Nat.mod_eq_of_lt hlen
    refine ⟨fun rs' hrs' => ?_, hstable, ?_, hidx, hrange, ?_⟩
    · rw [h.after_sum]
      exact toInt_ofNat_of_lt (lt_of_le_of_lt (recorded_sum_mono g mode hrs') hsum)
    · rw [h.after_sum, toNat_signExtend_of_lt hsum]
      omega
    · have hsome : BitVec.ofNat 64 ((after g rs).stableNums mode) ≠ 0#64 := by
        intro hzero
        rw [hzero] at hstable
        exact hw (List.length_eq_zero_iff.mp hstable.symm)
      have htable : (after g rs).freqTable = g.freqTable := (after_fixed g rs).table
      have hclamp : ¬ (g.freqTable.length : ℤ) ≤ (roundedMean (recorded g mode rs) : ℤ) := by omega
      unfold optFreq FreqGov.tableAt FreqGov.freqAt
      dsimp only
      rw [if_neg hsome, hidx, htable, if_neg hclamp, if_pos (by omega), Int.toNat_natCast]

end Report

/-- **When the settled frequency is the rounded mean.** After any sequence of
results in which `mode` has completed a window, `opt_freq()` is the table's entry at
the rounded mean of the positions recorded, with the clamp idle and no overflow on
the way, exactly when the positions sum to less than `2 ^ 31` and the windows are
fewer than `2 ^ 64`. -/
theorem settled_frequency_iff (p : CpuPolicy) (reads : InitReads) (addrOnly : Bool)
    (mode : FreqMode) (rs : List Result)
    (hw : recorded (freqGovInit (.static p) reads addrOnly) mode rs ≠ []) :
    Settled (freqGovInit (.static p) reads addrOnly) mode rs ↔
      (recorded (freqGovInit (.static p) reads addrOnly) mode rs).sum < 2 ^ 31 ∧
        (recorded (freqGovInit (.static p) reads addrOnly) mode rs).length < 2 ^ 64 := by
  cases hd : reads.disabled with
  | false => exact (Ready.init p addrOnly mode hd).settled_iff hw
  | true =>
    -- a disabled governor never completes a window
    refine absurd ?_ hw
    have hoff : (freqGovInit (.static p) reads addrOnly).enabled = false := by
      unfold freqGovInit
      rw [hd]
      rfl
    clear hw
    induction rs with
    | nil => rfl
    | cons r rs ih =>
      rw [recorded, after_disabled hoff, after_disabled hoff, if_neg (not_not.mpr rfl)]
      exact ih

/-! ### A campaign that overflows the sum

An addr-only run on a board with 64 frequencies whose addr pass never overflows its
buffer: every hundred results complete a window at the top of the table. -/

/-- What a board with 64 frequencies answers to `freq_gov_init()`. -/
def wideReads : InitReads where
  disabled := false
  cpuinfoMaxFreq := 64000
  cpuinfoMinFreq := 1000
  scalingAvailableFrequencies := (List.range 64).map fun i => 1000 * (i + 1)
  scalingGovernor := "schedutil"
  scalingMinFreq := 1000
  scalingMaxFreq := 64000
  scalingSetspeed := 0

/-- The governor of that board, in an addr-only run. -/
def wide : FreqGov := freqGovInit (.static ⟨1000, 64000, 0, "schedutil"⟩) wideReads true

theorem wide_table : wide.freqTable.length = 64 := by decide +kernel

theorem wide_ready : Ready wide .addr := Ready.init _ true .addr rfl

/-- A history of clean results of the addr pass. -/
def cleanRun (m : ℕ) : List Result := List.replicate m ⟨.addr, false⟩

/-- In an addr-only run the window is its lower bound. -/
theorem wide_window (rs : List Result) : (after wide rs).freqInterval = minFreqInterval := by
  have hfresh : Fresh wide true := Fresh.init true rfl rfl
  rw [hfresh.after_window]
  exact if_pos (Or.inl rfl)

/-- The search after `m` clean results: at the top of the table, with `m % 100`
results in the current window. -/
theorem wide_cleanRun (m : ℕ) :
    (after wide (cleanRun m)).curIdx .addr = 63 ∧
      (after wide (cleanRun m)).nonOverflowNums .addr = m % 100 := by
  induction m with
  | zero =>
    have hstart : (after wide (cleanRun 0)).curIdx .addr = wide.freqTable.length - 1 := rfl
    rw [hstart, wide_table]
    exact ⟨rfl, rfl⟩
  | succ m ih =>
    obtain ⟨hcur, hcount⟩ := ih
    have hstep := after_search wide_ready.enabled ⟨.addr, false⟩ (cleanRun m) .addr
    rw [if_pos rfl, wide_window, wide_table] at hstep
    have hcur' := congrArg ModeSearch.curIdx hstep
    have hcount' := congrArg ModeSearch.nonOverflowNums hstep
    rw [ModeSearch.step_curIdx, FreqGov.search_curIdx, FreqGov.search_curIdx, hcur] at hcur'
    rw [ModeSearch.step_nonOverflowNums, FreqGov.search_nonOverflowNums,
      FreqGov.search_nonOverflowNums, hcount] at hcount'
    refine ⟨hcur'.trans (by simp), hcount'.trans ?_⟩
    show (if false = true ∨ 100 ≤ m % 100 + 1 then 0 else m % 100 + 1) = (m + 1) % 100
    by_cases hfull : 100 ≤ m % 100 + 1
    · rw [if_pos (Or.inr hfull)]
      omega
    · rw [if_neg (by simpa using hfull)]
      omega

/-- `m / 100` windows have been completed, all of them at the top. -/
theorem wide_recorded (m : ℕ) :
    recorded wide .addr (cleanRun m) = List.replicate (m / 100) 63 := by
  induction m with
  | zero => rfl
  | succ m ih =>
    obtain ⟨hcur, hcount⟩ := wide_cleanRun m
    have hcons := wide_ready.recorded_cons ⟨.addr, false⟩ (cleanRun m)
    rw [wide_window, hcur, hcount, ih] at hcons
    show recorded wide .addr (⟨.addr, false⟩ :: cleanRun m) = _
    rw [hcons]
    show (if FreqMode.addr = .addr ∧ false = false ∧ 100 ≤ m % 100 + 1 then _ else _) = _
    by_cases hfull : 100 ≤ m % 100 + 1
    · rw [if_pos ⟨rfl, rfl, hfull⟩, ← List.replicate_succ]
      congr 1
      omega
    · rw [if_neg fun hc => hfull hc.2.2]
      congr 1
      omega

/-- The report after the first window. -/
theorem settled_frequency_iff_first : Settled wide .addr (cleanRun 100) := by
  have hrec : recorded wide .addr (cleanRun 100) = [63] := wide_recorded 100
  have hw : recorded wide .addr (cleanRun 100) ≠ [] := by
    rw [hrec]
    exact List.cons_ne_nil _ _
  refine (settled_frequency_iff _ wideReads true .addr (cleanRun 100) hw).mpr ?_
  show (recorded wide .addr (cleanRun 100)).sum < _ ∧
    (recorded wide .addr (cleanRun 100)).length < _
  rw [hrec]
  decide

/-- **The sum overflows.** After 34087043 windows at the top of a table of 64 entries
the positions sum to more than an `int` holds, and the report reads outside the
table. -/
theorem sum_overflows :
    let rs := cleanRun (100 * 34087043)
    recorded wide .addr rs ≠ [] ∧ ¬ Settled wide .addr rs ∧
      optFreq (after wide rs) .addr = none := by
  intro rs
  have hrec : recorded wide .addr rs = List.replicate 34087043 63 := by
    rw [wide_recorded, Nat.mul_div_cancel_left _ (by decide)]
  have hlen : (recorded wide .addr rs).length = 34087043 := by
    rw [hrec, List.length_replicate]
  have hsum : (recorded wide .addr rs).sum = 2147483709 := by
    rw [hrec, List.sum_replicate_nat]
  have hw : recorded wide .addr rs ≠ [] := by
    intro hnil
    rw [hnil] at hlen
    exact absurd hlen (by decide)
  refine ⟨hw, fun hs => ?_, ?_⟩
  · have hfits := ((wide_ready.settled_iff hw).mp hs).1
    rw [hsum] at hfits
    exact absurd hfits (by decide)
  · -- the sum wraps to a negative number, and so does the index
    have hidx : (optIdx (after wide rs) .addr).toInt = -15435 := by
      unfold optIdx
      dsimp only
      rw [wide_ready.after_sum, wide_ready.after_windows, hsum, hlen]
      decide
    have htable : (after wide rs).freqTable.length = 64 :=
      (congrArg List.length (after_fixed wide rs).table).trans wide_table
    have hsome : BitVec.ofNat 64 ((after wide rs).stableNums .addr) ≠ 0#64 := by
      rw [wide_ready.after_windows, hlen]
      decide
    unfold optFreq FreqGov.tableAt
    dsimp only
    rw [if_neg hsome, hidx, htable]
    rfl

end Governor
end CsTrace
