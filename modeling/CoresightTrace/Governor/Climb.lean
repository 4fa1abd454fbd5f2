import CoresightTrace.Framework.Ladder
import CoresightTrace.Governor.Table
import CoresightTrace.Governor.Rungs

/-!
# The search as a ladder

The search of a mode is a search of a ladder (`FreqGov.ladder`): its rungs are the
entries of the frequency table, a trial falls when the exec overflowed, and the
window is `freq_interval`. What the ladder needs of it is that the window stays
within its bounds, and that the table is sorted: then the frequencies up to a limit
are the first rungs of the table, `cleanRungs` in number (`Ascending.freqAt_le_iff`).

`Climbs limit g mode` collects what holds of the search of a mode whose execs
overflow above `limit`. It holds of a search that has counted nothing, wherever the
calibration has put it (`Climbs.of_untried`), and is kept by every result of an
exec at the search's frequency, or at the floor right after an overflow
(`Climbs.onResult`).
-/

namespace CsTrace
namespace Governor

variable {g : FreqGov} {limit : ℕ} {mode : FreqMode}

/-! ### The ladder of a mode -/

/-- The search of a mode, as a search of the table. -/
@[simps] def ModeSearch.ladder (s : ModeSearch) : Ladder where
  rung := s.curIdx
  holds := s.nonOverflowNums
  trials := s.totalExecs
  falls := s.totalOverflowExecs

/-- The search of `mode`. -/
def FreqGov.ladder (g : FreqGov) (mode : FreqMode) : Ladder :=
  (g.search mode).ladder

theorem ModeSearch.step_ladder (window rungs : ℕ) (s : ModeSearch) (overflowed : Bool) :
    (s.step window rungs overflowed).ladder = s.ladder.step window rungs overflowed := by
  unfold step Ladder.step
  cases overflowed with
  | true => rfl
  | false =>
    simp only [Bool.false_eq_true, if_false]
    by_cases hfull : window ≤ s.nonOverflowNums + 1
    · rw [if_pos hfull, if_pos (show window ≤ s.ladder.holds + 1 from hfull)]
      rfl
    · rw [if_neg hfull, if_neg (show ¬ window ≤ s.ladder.holds + 1 from hfull)]
      rfl

theorem ladder_of_search {g g' : FreqGov} {m : FreqMode} (h : g'.search m = g.search m) :
    g'.ladder m = g.ladder m :=
  congrArg ModeSearch.ladder h

/-- **A result is a trial.** -/
theorem freqGovOnResult_ladder (he : g.enabled = true) (mode : FreqMode) (overflowed : Bool) :
    (freqGovOnResult g mode overflowed).ladder mode =
      (g.ladder mode).step g.freqInterval g.freqTable.length overflowed := by
  unfold FreqGov.ladder
  rw [freqGovOnResult_search he, ModeSearch.step_ladder]

/-! ### The rungs up to a limit -/

/-- The entries of the table up to `limit`. -/
def cleanRungs (g : FreqGov) (limit : ℕ) : ℕ :=
  g.freqTable.countP fun f => decide (f ≤ limit)

theorem cleanRungs_le (g : FreqGov) (limit : ℕ) : cleanRungs g limit ≤ g.freqTable.length :=
  List.countP_le_length

theorem cleanRungs_congr {g g' : FreqGov} (h : g'.freqTable = g.freqTable) (limit : ℕ) :
    cleanRungs g' limit = cleanRungs g limit := by
  unfold cleanRungs
  rw [h]

/-- In a sorted list the entries up to a limit come first. -/
theorem getD_le_iff_of_sorted {l : List ℕ} (hsorted : l.Pairwise (· ≤ ·)) (limit : ℕ) {i : ℕ}
    (hi : i < l.length) :
    l.getD i 0 ≤ limit ↔ i < l.countP fun f => decide (f ≤ limit) := by
  induction l generalizing i with
  | nil => exact absurd hi (Nat.not_lt_zero i)
  | cons f l ih =>
    obtain ⟨hle, hsorted⟩ := List.pairwise_cons.mp hsorted
    by_cases hf : f ≤ limit
    · rw [List.countP_cons_of_pos (p := fun f => decide (f ≤ limit)) (decide_eq_true hf)]
      cases i with
      | zero => exact iff_of_true hf (Nat.succ_pos _)
      | succ i =>
        rw [List.getD_cons_succ, ih hsorted (Nat.lt_of_succ_lt_succ hi)]
        exact Nat.succ_lt_succ_iff.symm
    · -- all the entries are above the limit
      have hnone : (f :: l).countP (fun f => decide (f ≤ limit)) = 0 := by
        rw [List.countP_eq_zero]
        intro x hx
        rcases List.mem_cons.mp hx with rfl | hx
        · simpa using hf
        · simpa using lt_of_lt_of_le (not_le.mp hf) (hle x hx)
      rw [hnone]
      refine iff_of_false ?_ (Nat.not_lt_zero i)
      cases i with
      | zero => exact hf
      | succ i =>
        have hlt := Nat.lt_of_succ_lt_succ hi
        rw [List.getD_cons_succ, List.getD_eq_getElem?_getD, List.getElem?_eq_getElem hlt]
        exact not_le.mpr (lt_of_lt_of_le (not_le.mp hf) (hle _ (List.getElem_mem hlt)))

/-! ### A governor that climbs -/

/-- The table is sorted and the window within its bounds. -/
structure Ascending (g : FreqGov) : Prop where
  sorted : g.freqTable.Pairwise (· ≤ ·)
  window : minFreqInterval ≤ g.freqInterval ∧ g.freqInterval ≤ maxFreqInterval

theorem Ascending.freqAt_le_iff (h : Ascending g) (limit : ℕ) {i : ℕ}
    (hi : i < g.freqTable.length) : g.freqAt i ≤ limit ↔ i < cleanRungs g limit :=
  getD_le_iff_of_sorted h.sorted limit hi

/-- An exec at a rung overflows above the limit. -/
theorem Ascending.overflows_iff (h : Ascending g) (limit : ℕ) {i : ℕ}
    (hi : i < g.freqTable.length) :
    decide (limit < g.freqAt i) = decide (cleanRungs g limit ≤ i) := by
  rw [decide_eq_decide, ← not_le, h.freqAt_le_iff limit hi, not_lt]

theorem Ascending.of_tallied {g' : FreqGov} (h : Ascending g) (ht : g'.freqTable = g.freqTable)
    (hw : g'.freqInterval = g.freqInterval) : Ascending g' := by
  refine ⟨?_, ?_⟩
  · rw [ht]
    exact h.sorted
  · rw [hw]
    exact h.window

theorem Ascending.onResult (h : Ascending g) (he : g.enabled = true) (mode : FreqMode)
    (overflowed : Bool) : Ascending (freqGovOnResult g mode overflowed) := by
  refine ⟨?_, ?_⟩
  · rw [(freqGovOnResult_fixed g mode overflowed).table]
    exact h.sorted
  · rw [freqGovOnResult_freqInterval he]
    exact windowOf_bounds _ _ _ h.window

theorem Ascending.init (g : FreqGov) {reads : InitReads} (addrOnly : Bool)
    (hd : reads.disabled = false) : Ascending (freqGovInit g reads addrOnly) := by
  unfold freqGovInit
  rw [hd]
  exact ⟨List.pairwise_insertionSort _ _, initialWindow_bounds addrOnly⟩

/-- No result has been counted. -/
def Untried (g : FreqGov) : Prop :=
  ∀ m, (g.ladder m).holds = 0 ∧ (g.ladder m).trials = 0 ∧ (g.ladder m).falls = 0

/-- The search of a mode whose execs overflow above `limit`. -/
structure Climbs (limit : ℕ) (g : FreqGov) (mode : FreqMode) : Prop where
  sound : (g.ladder mode).Sound maxFreqInterval g.freqTable.length
  paid : 0 < cleanRungs g limit →
    (g.ladder mode).Paid minFreqInterval (g.freqTable.length - 1)
  approaches : (g.ladder mode).Approaches maxFreqInterval
    (maxFreqInterval * g.freqTable.length) (cleanRungs g limit)

/-- The search of a mode that is at the limit from its start on. -/
structure AtLimit (limit : ℕ) (g : FreqGov) (mode : FreqMode) : Prop where
  near : (g.ladder mode).Near (cleanRungs g limit)
  paid : 0 < cleanRungs g limit →
    (g.ladder mode).Paid minFreqInterval (cleanRungs g limit - 1)

/-- A step that leaves the search of the mode alone. -/
theorem Climbs.keep {g' : FreqGov} (h : Climbs limit g mode) (hs : g'.search mode = g.search mode)
    (ht : g'.freqTable = g.freqTable) : Climbs limit g' mode := by
  refine ⟨?_, ?_, ?_⟩ <;> rw [ladder_of_search hs, ht]
  · exact h.sound
  · rw [cleanRungs_congr ht]
    exact h.paid
  · rw [cleanRungs_congr ht]
    exact h.approaches

theorem AtLimit.keep {g' : FreqGov} (h : AtLimit limit g mode)
    (hs : g'.search mode = g.search mode) (ht : g'.freqTable = g.freqTable) :
    AtLimit limit g' mode := by
  refine ⟨?_, ?_⟩ <;> rw [ladder_of_search hs, cleanRungs_congr ht]
  · exact h.near
  · exact h.paid

/-- **A search that has counted nothing climbs from wherever it is.** -/
theorem Climbs.of_untried (h : Untried g) (limit : ℕ)
    (hidx : g.curIdx mode < g.freqTable.length) : Climbs limit g mode := by
  obtain ⟨hholds, htrials, hfalls⟩ := h mode
  refine ⟨⟨hidx, ?_, ?_⟩, ?_, ?_⟩
  · rw [hholds]
    decide
  · rw [hfalls]
    exact Nat.zero_le _
  · intro _
    exact .of_untried (Nat.le_sub_one_of_lt hidx) hholds htrials hfalls
  · exact .of_untried hidx hholds htrials (cleanRungs_le g limit) (by decide)

/-- A search that is put at the last rung that holds. -/
theorem AtLimit.of_untried (h : Untried g) (hidx : g.curIdx mode = cleanRungs g limit - 1) :
    AtLimit limit g mode := by
  obtain ⟨hholds, htrials, hfalls⟩ := h mode
  have hrung : (g.ladder mode).rung = cleanRungs g limit - 1 := hidx
  refine ⟨⟨?_, ?_⟩, ?_⟩
  · omega
  · omega
  · intro _
    exact .of_untried hrung.le hholds htrials hfalls

section Result

variable {overflowed : Bool}

/-- A fall above a floor that holds leaves the floor. -/
theorem rung_pos_of_trial {k : ℕ} {s : Ladder} (ht : s.Trial k overflowed) (hk : 0 < k)
    (ho : overflowed = true) : 0 < s.rung := by
  by_contra hzero
  have hlt : s.rung < k := by omega
  rw [ht.holds_of_lt hlt] at ho
  exact Bool.false_ne_true ho

/-- **A result of the mode keeps the search climbing.** -/
theorem Climbs.onResult (h : Climbs limit g mode) (ha : Ascending g) (he : g.enabled = true)
    (ht : (g.ladder mode).Trial (cleanRungs g limit) overflowed) :
    Climbs limit (freqGovOnResult g mode overflowed) mode := by
  have htable := (freqGovOnResult_fixed g mode overflowed).table
  have hshort : 2 ≤ g.freqInterval := le_trans (by decide) ha.window.1
  refine ⟨?_, ?_, ?_⟩ <;> rw [freqGovOnResult_ladder he, htable]
  · exact h.sound.step ha.window.2 overflowed
  · rw [cleanRungs_congr htable]
    intro hpos
    exact (h.paid hpos).step ha.window.1 (rung_pos_of_trial ht hpos)
  · rw [cleanRungs_congr htable]
    exact h.approaches.step h.sound ht (cleanRungs_le g limit) hshort ha.window.2

theorem AtLimit.onResult (h : AtLimit limit g mode) (ha : Ascending g) (he : g.enabled = true)
    (ht : (g.ladder mode).Trial (cleanRungs g limit) overflowed) :
    AtLimit limit (freqGovOnResult g mode overflowed) mode := by
  have htable := (freqGovOnResult_fixed g mode overflowed).table
  have hshort : 2 ≤ g.freqInterval := le_trans (by decide) ha.window.1
  refine ⟨?_, ?_⟩ <;> rw [freqGovOnResult_ladder he, cleanRungs_congr htable]
  · exact h.near.step ht hshort
  · intro hpos
    exact (h.paid hpos).step ha.window.1 (rung_pos_of_trial ht hpos)

end Result

end Governor
end CsTrace
