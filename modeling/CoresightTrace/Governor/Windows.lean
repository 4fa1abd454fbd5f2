import CoresightTrace.Governor.Evidence

/-!
# Windows of clean results

What the governor holds about a mode is read off the history of its results, which
is kept newest first here:

* `recent g mode rs` — the results since the mode last overflowed or completed a
  window. Its clean results are what `non_overflow_nums` counts (`after_count`).
  They are consecutive among the results of the mode, since an overflow of it would
  have ended the window;
* the totals are the numbers of results and of overflows (`after_totals`), and so
  the shared window is a function of the atom pass's history (`after_window`), even
  though it is updated from its own last value.

`Evidenced` collects the law of one mode, and `positions_rest_on_evidence` shows it
for every history of both modes after initialization.
-/

namespace CsTrace
namespace Governor

/-! ### Histories -/

/-- The governor after the results `rs`, newest first. -/
def after (g : FreqGov) : List Result → FreqGov
  | [] => g
  | r :: rs => freqGovOnResult (after g rs) r.mode r.overflowed

theorem after_cons (g : FreqGov) (r : Result) (rs : List Result) :
    after g (r :: rs) = freqGovOnResult (after g rs) r.mode r.overflowed := rfl

/-- `r` is an overflow of `mode`, or completes a window of it. -/
def endsWindow (g : FreqGov) (mode : FreqMode) (r : Result) : Bool :=
  decide (r.mode = mode) && r.overflowed ||
    decide ((freqGovOnResult g r.mode r.overflowed).stableNums mode ≠ g.stableNums mode)

/-- The results since the latest one that ended a window of `mode`. -/
def recent (g : FreqGov) (mode : FreqMode) : List Result → List Result
  | [] => []
  | r :: rs => if endsWindow (after g rs) mode r then [] else r :: recent g mode rs

/-- `r` is a clean result of `mode`. -/
def Result.cleanOf (mode : FreqMode) (r : Result) : Bool :=
  decide (r.mode = mode) && !r.overflowed

/-- The latest `n` results of `mode` are clean. -/
def CleanStreak (mode : FreqMode) (n : ℕ) (rs : List Result) : Prop :=
  n ≤ (rs.filter fun r => decide (r.mode = mode)).length ∧
    ∀ r ∈ (rs.filter fun r => decide (r.mode = mode)).take n, r.overflowed = false

/-- An initialized governor that has taken no result. -/
structure Fresh (g : FreqGov) (addrOnly : Bool) : Prop where
  enabled : g.enabled = true
  addrOnlyMode : g.addrOnlyMode = addrOnly
  window : g.freqInterval = initialWindow addrOnly
  clean : ∀ mode, g.nonOverflowNums mode = 0
  execs : ∀ mode, g.totalExecs mode = 0
  overflows : ∀ mode, g.totalOverflowExecs mode = 0

theorem Fresh.init {g : FreqGov} {reads : InitReads} (addrOnly : Bool) (he : g.enabled = true)
    (hd : reads.disabled = false) : Fresh (freqGovInit g reads addrOnly) addrOnly := by
  unfold freqGovInit
  rw [hd]
  exact ⟨he, rfl, rfl, fun _ => rfl, fun _ => rfl, fun _ => rfl⟩

theorem after_fixed (g : FreqGov) (rs : List Result) : Fixed g (after g rs) := by
  induction rs with
  | nil => exact .refl g
  | cons r rs ih => exact ih.trans (freqGovOnResult_fixed _ r.mode r.overflowed)

/-- A disabled governor stays as it is. -/
theorem after_disabled {g : FreqGov} (he : g.enabled = false) (rs : List Result) :
    after g rs = g := by
  induction rs with
  | nil => rfl
  | cons r rs ih =>
    rw [after_cons, ih]
    exact freqGovOnResult_disabled he r.mode r.overflowed

section History

variable {g : FreqGov} (he : g.enabled = true)

include he

theorem after_enabled (rs : List Result) : (after g rs).enabled = true :=
  (after_fixed g rs).enabled.trans he

/-- The search of `mode` after one more result. -/
theorem after_search (r : Result) (rs : List Result) (mode : FreqMode) :
    (after g (r :: rs)).search mode =
      if r.mode = mode then
        ((after g rs).search mode).step (after g rs).freqInterval g.freqTable.length r.overflowed
      else (after g rs).search mode := by
  rw [after_cons]
  by_cases hm : r.mode = mode
  · rw [if_pos hm, ← hm, freqGovOnResult_search (after_enabled he rs), (after_fixed g rs).table]
  · rw [if_neg hm]
    exact freqGovOnResult_search_of_ne _ _ (Ne.symm hm)

/-! ### The totals and the window -/

/-- The totals count the results and the overflows. -/
theorem after_totals (rs : List Result) (mode : FreqMode) :
    ((after g rs).search mode).totalExecs =
        g.totalExecs mode + rs.countP (fun r => decide (r.mode = mode)) ∧
      ((after g rs).search mode).totalOverflowExecs =
        g.totalOverflowExecs mode +
          rs.countP (fun r => decide (r.mode = mode) && r.overflowed) := by
  induction rs with
  | nil => exact ⟨rfl, rfl⟩
  | cons r rs ih =>
    rw [after_search he, List.countP_cons, List.countP_cons]
    by_cases hm : r.mode = mode
    · obtain ⟨hexecs, hoverflows⟩ := ModeSearch.step_totals (after g rs).freqInterval
        g.freqTable.length ((after g rs).search mode) r.overflowed
      rw [if_pos hm, hexecs, hoverflows, ih.1, ih.2]
      simp [hm, Nat.add_assoc]
    · rw [if_neg hm]
      simpa [hm] using ih

end History

/-- An earlier window leaves no trace in a later one. -/
theorem windowOf_trans (addrOnly : Bool) (fallback execs : ℕ) {overflows : ℕ} (execs' : ℕ)
    {overflows' : ℕ} (hle : overflows ≤ overflows') :
    windowOf addrOnly (windowOf addrOnly fallback execs overflows) execs' overflows' =
      windowOf addrOnly fallback execs' overflows' := by
  unfold windowOf
  by_cases hkeep : addrOnly = true ∨ overflows' = 0
  · have hearlier : addrOnly = true ∨ overflows = 0 := hkeep.imp_right fun h => by omega
    rw [if_pos hkeep, if_pos hkeep, if_pos hearlier]
  · rw [if_neg hkeep, if_neg hkeep]

/-- **The window is a function of the atom pass's history.** -/
theorem Fresh.after_window {g : FreqGov} {addrOnly : Bool} (h : Fresh g addrOnly)
    (rs : List Result) :
    (after g rs).freqInterval =
      windowOf addrOnly (initialWindow addrOnly)
        (rs.countP fun r => decide (r.mode = .atom))
        (rs.countP fun r => decide (r.mode = .atom) && r.overflowed) := by
  have haddr (rs : List Result) : (after g rs).addrOnlyMode = addrOnly := by
    induction rs with
    | nil => exact h.addrOnlyMode
    | cons r rs ih => exact (freqGovOnResult_addrOnlyMode _ _ _).trans ih
  induction rs with
  | nil => exact h.window.trans (if_pos (.inr rfl)).symm
  | cons r rs ih =>
    have hstep := freqGovOnResult_freqInterval (after_enabled h.enabled rs) r.mode r.overflowed
    obtain ⟨hexecs, hoverflows⟩ := after_totals h.enabled (r :: rs) .atom
    rw [h.execs, Nat.zero_add] at hexecs
    rw [h.overflows, Nat.zero_add] at hoverflows
    rw [← after_cons, hexecs, hoverflows, haddr, ih] at hstep
    rw [hstep]
    refine windowOf_trans _ _ _ _ ?_
    rw [List.countP_cons]
    exact Nat.le_add_right _ _

/-! ### The clean results counted -/

section Count

variable {g : FreqGov} {addrOnly : Bool} (h : Fresh g addrOnly)

include h

/-- Which results end a window of `mode`. -/
theorem Fresh.endsWindow_iff (r : Result) (rs : List Result) (mode : FreqMode) :
    endsWindow (after g rs) mode r = true ↔
      r.mode = mode ∧ (r.overflowed = true ∨
        (after g rs).freqInterval ≤ (after g rs).nonOverflowNums mode + 1) := by
  have hstable : (freqGovOnResult (after g rs) r.mode r.overflowed).stableNums mode = _ :=
    congrArg ModeSearch.stableNums (after_search h.enabled r rs mode)
  unfold endsWindow
  rw [hstable]
  by_cases hm : r.mode = mode
  · rw [if_pos hm, ModeSearch.step_stableNums]
    cases ho : r.overflowed with
    | true => simp [hm]
    | false =>
      by_cases hfull : (after g rs).freqInterval ≤ (after g rs).nonOverflowNums mode + 1
      · simp [hm, hfull]
      · simp [hfull]
  · rw [if_neg hm]
    simp [hm]

/-- **`non_overflow_nums` counts the clean results since the latest overflow or
completed window.** -/
theorem Fresh.after_count (rs : List Result) (mode : FreqMode) :
    (after g rs).nonOverflowNums mode = (recent g mode rs).countP (Result.cleanOf mode) := by
  induction rs with
  | nil => exact h.clean mode
  | cons r rs ih =>
    have hstep : (after g (r :: rs)).nonOverflowNums mode = _ :=
      congrArg ModeSearch.nonOverflowNums (after_search h.enabled r rs mode)
    have hends := h.endsWindow_iff r rs mode
    rw [hstep]
    unfold recent
    by_cases hm : r.mode = mode
    · rw [if_pos hm, ModeSearch.step_nonOverflowNums]
      by_cases hreset : r.overflowed = true ∨
          (after g rs).freqInterval ≤ (after g rs).nonOverflowNums mode + 1
      · rw [if_pos (hends.mpr ⟨hm, hreset⟩)]
        exact if_pos hreset
      · have hgoes : ¬ endsWindow (after g rs) mode r = true := fun hc => hreset (hends.mp hc).2
        have hclean : r.overflowed = false := by simpa using fun ho => hreset (.inl ho)
        rw [if_neg hgoes, List.countP_cons_of_pos (by simp [Result.cleanOf, hm, hclean]), ← ih]
        exact if_neg hreset
    · have hgoes : ¬ endsWindow (after g rs) mode r = true := fun hc => hm (hends.mp hc).1
      rw [if_neg hm, if_neg hgoes, List.countP_cons_of_neg (by simp [Result.cleanOf, hm]), ← ih]
      rfl

/-- No result of the mode within the current window is an overflow. -/
theorem Fresh.recent_clean {rs : List Result} {mode : FreqMode} {r : Result}
    (hr : r ∈ recent g mode rs) (hm : r.mode = mode) : r.overflowed = false := by
  induction rs with
  | nil => cases hr
  | cons r' rs ih =>
    unfold recent at hr
    split at hr
    · cases hr
    · next hgoes =>
      rcases List.mem_cons.mp hr with rfl | hr
      · by_contra ho
        exact hgoes ((h.endsWindow_iff r rs mode).mpr ⟨hm, .inl (by simpa using ho)⟩)
      · exact ih hr

end Count

theorem recent_isPrefix (g : FreqGov) (mode : FreqMode) (rs : List Result) :
    recent g mode rs <+: rs := by
  induction rs with
  | nil => exact List.prefix_rfl
  | cons r rs ih =>
    unfold recent
    split
    · exact List.nil_prefix
    · exact List.prefix_cons_inj r |>.mpr ih

/-- What is counted is a streak of the mode's results, and a clean result extends
it by one. -/
theorem Fresh.cleanStreak {g : FreqGov} {addrOnly : Bool} (h : Fresh g addrOnly) {r : Result}
    {mode : FreqMode} (hm : r.mode = mode) (ho : r.overflowed = false) (rs : List Result) :
    CleanStreak mode ((recent g mode rs).countP (Result.cleanOf mode) + 1) (r :: rs) := by
  -- within the window the results of the mode are the clean ones
  have hall : (recent g mode rs).filter (fun r => decide (r.mode = mode)) =
      (recent g mode rs).filter (Result.cleanOf mode) := by
    refine List.filter_congr fun r' hr' => ?_
    by_cases hm' : r'.mode = mode
    · simp [Result.cleanOf, hm', h.recent_clean hr' hm']
    · simp [Result.cleanOf, hm']
  have hwindow : (r :: recent g mode rs).filter (fun r => decide (r.mode = mode)) =
      r :: (recent g mode rs).filter (Result.cleanOf mode) := by
    rw [List.filter_cons_of_pos (by simp [hm]), hall]
  obtain ⟨older, holder⟩ :=
    (List.prefix_cons_inj r |>.mpr (recent_isPrefix g mode rs)).filter
      fun r => decide (r.mode = mode)
  rw [hwindow] at holder
  have hlength : (r :: (recent g mode rs).filter (Result.cleanOf mode)).length =
      (recent g mode rs).countP (Result.cleanOf mode) + 1 := by
    rw [List.length_cons, List.countP_eq_length_filter]
  unfold CleanStreak
  rw [← holder, ← hlength]
  refine ⟨by simp, fun r' hr' => ?_⟩
  rw [List.take_left] at hr'
  rcases List.mem_cons.mp hr' with rfl | hr'
  · exact ho
  · have hclean := (List.mem_filter.mp hr').2
    unfold Result.cleanOf at hclean
    simpa using (Bool.and_eq_true_iff.mp hclean).2

/-- A longer streak contains a shorter one. -/
theorem CleanStreak.mono {mode : FreqMode} {n k : ℕ} {rs : List Result}
    (hs : CleanStreak mode n rs) (hle : k ≤ n) : CleanStreak mode k rs :=
  ⟨hle.trans hs.1, fun r hr => hs.2 r (List.take_subset_take_left _ hle hr)⟩

/-! ### The law of a mode -/

/-- What the history `rs` of both modes says about `mode`, and about one more
result. -/
structure Evidenced (g : FreqGov) (addrOnly : Bool) (mode : FreqMode) (rs : List Result) :
    Prop where
  /-- The clean results since the mode's latest overflow or completed window. -/
  count : (after g rs).nonOverflowNums mode = (recent g mode rs).countP (Result.cleanOf mode)
  /-- An overflow of the mode steps down, and a clean result of it that makes the
  count as large as the window steps up. Nothing else moves the position. -/
  position : ∀ r, (after g (r :: rs)).curIdx mode =
    if r.mode = mode ∧ r.overflowed = true then (after g rs).curIdx mode - 1
    else if r.mode = mode ∧
        (after g rs).freqInterval ≤ (recent g mode rs).countP (Result.cleanOf mode) + 1 ∧
        (after g rs).curIdx mode + 1 < g.freqTable.length then
      (after g rs).curIdx mode + 1
    else (after g rs).curIdx mode
  /-- A position that rises rests on a hundred clean results in a row. -/
  streak : ∀ r, (after g rs).curIdx mode < (after g (r :: rs)).curIdx mode →
    CleanStreak mode minFreqInterval (r :: rs)
  /-- The window in force. -/
  window : (after g rs).freqInterval =
    windowOf addrOnly (initialWindow addrOnly)
      (rs.countP fun r => decide (r.mode = .atom))
      (rs.countP fun r => decide (r.mode = .atom) && r.overflowed)

section Law

variable {g : FreqGov} {addrOnly : Bool} (h : Fresh g addrOnly)

include h

theorem Fresh.after_position (mode : FreqMode) (rs : List Result) (r : Result) :
    (after g (r :: rs)).curIdx mode =
      if r.mode = mode ∧ r.overflowed = true then (after g rs).curIdx mode - 1
      else if r.mode = mode ∧
          (after g rs).freqInterval ≤ (recent g mode rs).countP (Result.cleanOf mode) + 1 ∧
          (after g rs).curIdx mode + 1 < g.freqTable.length then
        (after g rs).curIdx mode + 1
      else (after g rs).curIdx mode := by
  have hstep : (after g (r :: rs)).curIdx mode = _ :=
    congrArg ModeSearch.curIdx (after_search h.enabled r rs mode)
  rw [hstep, ← h.after_count]
  by_cases hm : r.mode = mode
  · rw [if_pos hm, ModeSearch.step_curIdx]
    simp [hm]
  · rw [if_neg hm]
    simp [hm]

theorem Fresh.window_ge (rs : List Result) : minFreqInterval ≤ (after g rs).freqInterval := by
  rw [h.after_window]
  exact (windowOf_bounds _ _ _ (initialWindow_bounds addrOnly)).1

theorem Fresh.evidenced (mode : FreqMode) (rs : List Result) : Evidenced g addrOnly mode rs where
  count := h.after_count rs mode
  position := h.after_position mode rs
  window := h.after_window rs
  streak r hrise := by
    rw [h.after_position mode rs r] at hrise
    split at hrise
    · exact absurd hrise (by omega)
    · next hdown =>
      split at hrise
      · next hup =>
        -- the window is full, and it is at least as long as its lower bound
        have hclean : r.overflowed = false := by
          simpa using fun ho => hdown ⟨hup.1, ho⟩
        exact (h.cleanStreak hup.1 hclean rs).mono ((h.window_ge rs).trans hup.2.1)
      · exact absurd hrise (lt_irrefl _)

end Law

/-- **Positions rest on evidence.** After initialization an enabled governor keeps the
law of both modes over every history of their results. A disabled one stays as it
is. -/
theorem positions_rest_on_evidence (p : CpuPolicy) (reads : InitReads) (addrOnly : Bool)
    (mode : FreqMode) (rs : List Result) :
    (reads.disabled = false →
        Evidenced (freqGovInit (.static p) reads addrOnly) addrOnly mode rs) ∧
      (reads.disabled = true →
        after (freqGovInit (.static p) reads addrOnly) rs =
          freqGovInit (.static p) reads addrOnly) := by
  refine ⟨fun hd => (Fresh.init addrOnly rfl hd).evidenced mode rs, fun hd => ?_⟩
  refine after_disabled ?_ rs
  unfold freqGovInit
  rw [hd]
  rfl

/-- The law over two results of a board that lists no frequencies. -/
theorem positions_rest_on_evidence_unlisted :
    Evidenced unlisted false .addr [⟨.atom, true⟩, ⟨.addr, false⟩] :=
  (positions_rest_on_evidence ⟨408000, 1200000, 0, "schedutil"⟩ unlistedReads false .addr
    [⟨.atom, true⟩, ⟨.addr, false⟩]).1 rfl

/-- **A disabled governor counts nothing.** With `AFLCS_FREQ_GOV=0` the count stays 0
after a clean result. -/
theorem disabled_counts_nothing :
    ¬ Evidenced (freqGovInit (.static ⟨408000, 1200000, 0, "schedutil"⟩)
      { unlistedReads with disabled := true } false) false .atom [⟨.atom, false⟩] := by
  intro h
  exact absurd h.count (by decide)

end Governor
end CsTrace
