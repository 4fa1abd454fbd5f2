import CoresightTrace.Hybrid.Sampling
import Mathlib.Algebra.Order.Ring.Nat
import Mathlib.Data.List.Chain

/-!
# The pace of the purges

`purge_check()` decides by five counters of its own, the `Pace` of the filter:
how many executions there have been, at which of them it last looked, how long
it waits between looks, how often it looked and how often it purged. No other
code writes them, so an operation moves the pace as its purge check does
(`operate_pace`) and a sample not at all.

The interval is rescaled by `purge_attempt / purge_real` from the 21st purge on.
A purge is counted before the rescaling and the attempt after it, so the ratio
can fall below 1, but no lower than 20 to 21: the shortest level of 3000 then
leaves 2857 (`le_nextPurgeInterval`).
-/

namespace CsTrace
namespace Hybrid

variable {n : ℕ}

/-- The counters of `purge_check()`. -/
structure Pace where
  realExecs : ℕ
  preRealExecs : ℕ
  purgeInterval : ℕ
  purgeAttempt : ℕ
  purgeReal : ℕ

/-- The counters of `purge_check()` in a state of the filter. -/
def State.pace (s : State n) : Pace :=
  ⟨s.realExecs, s.preRealExecs, s.purgeInterval, s.purgeAttempt, s.purgeReal⟩

/-- The shortest interval that the rescaling leaves: 20/21 of the first level. -/
abbrev shortestPurgeInterval : ℕ := 2857

/-- The pace between two purge checks. -/
structure Pace.Bounded (p : Pace) : Prop where
  real_le_attempt : p.purgeReal ≤ p.purgeAttempt
  le_interval : shortestPurgeInterval ≤ p.purgeInterval
  interval_le : p.purgeInterval ≤ purgeIntervalLevel4
  pre_le : p.preRealExecs ≤ p.realExecs
  waiting : p.realExecs - p.preRealExecs < p.purgeInterval

/-! ### The interval -/

/-- The level chosen after 20 purges is one of the four. -/
theorem nextPurgeInterval_of_lt (A : PurgeArith) (s : State n) (h : 20 < s.purgeReal) :
    ∃ level, purgeIntervalLevel1 ≤ level ∧
      nextPurgeInterval A s =
        min (A.scale level s.purgeAttempt s.purgeReal) purgeIntervalLevel4 := by
  unfold nextPurgeInterval
  rw [if_pos h]
  dsimp only
  have hmin : ∀ scaled : ℕ,
      (if purgeIntervalLevel4 < scaled then purgeIntervalLevel4 else scaled) =
        min scaled purgeIntervalLevel4 := by
    intro scaled
    split <;> omega
  simp only [hmin]
  refine ⟨_, ?_, rfl⟩
  split_ifs <;> decide

/-- `k / (k + 1)` of the first level, from `k = 20` on. -/
theorem le_scaled {level attempt real : ℕ} (hlevel : purgeIntervalLevel1 ≤ level)
    (hreal : 20 < real) (hattempt : real ≤ attempt + 1) :
    shortestPurgeInterval ≤ level * attempt / real := by
  rw [Nat.le_div_iff_mul_le (by omega)]
  calc shortestPurgeInterval * real
    _ ≤ purgeIntervalLevel1 * (real - 1) := by
        show 2857 * real ≤ 3000 * (real - 1)
        omega
    _ ≤ level * attempt := Nat.mul_le_mul hlevel (by omega)

/-- **The next interval** stays between its bounds when the counters allow at
most one purge more than attempts, the one being counted. -/
theorem le_nextPurgeInterval (s : State n) (hreal : s.purgeReal ≤ s.purgeAttempt + 1)
    (hlow : shortestPurgeInterval ≤ s.purgeInterval)
    (hhigh : s.purgeInterval ≤ purgeIntervalLevel4) :
    shortestPurgeInterval ≤ nextPurgeInterval .exact s ∧
      nextPurgeInterval .exact s ≤ purgeIntervalLevel4 := by
  by_cases h : 20 < s.purgeReal
  · obtain ⟨level, hlevel, heq⟩ := nextPurgeInterval_of_lt .exact s h
    rw [heq]
    refine ⟨le_min ?_ (by decide), min_le_right _ _⟩
    exact le_scaled hlevel h hreal
  · -- up to the 20th purge the interval is not touched
    have heq : nextPurgeInterval .exact s = s.purgeInterval := if_neg h
    rw [heq]
    exact ⟨hlow, hhigh⟩

/-! ### The purge check -/

/-- What the source's purge check does to the pace: it counts, and then either
waits, or looks and leaves things, or looks and purges. -/
theorem purgeCheck_pace (A : PurgeArith) (s : State n) :
    (purges (sourcePolicy A) s = false ∧
      s.realExecs + 1 - s.preRealExecs < s.purgeInterval ∧
      (purgeCheck (sourcePolicy A) s).pace = { s.pace with realExecs := s.realExecs + 1 }) ∨
    (purges (sourcePolicy A) s = false ∧
      (purgeCheck (sourcePolicy A) s).pace =
        { s.pace with
          realExecs := s.realExecs + 1
          preRealExecs := s.realExecs + 1
          purgeAttempt := s.purgeAttempt + 1 }) ∨
    (purges (sourcePolicy A) s = true ∧
      s.purgeInterval ≤ s.realExecs + 1 - s.preRealExecs ∧
      (purgeCheck (sourcePolicy A) s).pace =
        { realExecs := s.realExecs + 1
          preRealExecs := s.realExecs + 1
          purgeInterval := nextPurgeInterval A
            { s with realExecs := s.realExecs + 1, purgeReal := s.purgeReal + 1 }
          purgeAttempt := s.purgeAttempt + 1
          purgeReal := s.purgeReal + 1 }) := by
  have hpolicy : sourcePolicy A { s with realExecs := s.realExecs + 1 } =
      if s.realExecs + 1 - s.preRealExecs < s.purgeInterval then .wait
      else if A.stalled (countNon255Bytes s.virginEdge) s.preVirginBits ∨
          countNon255Bytes s.virginAtomReal * 2 < countNon255Bytes s.virginAtom then
        .purge (nextPurgeInterval A
          { s with realExecs := s.realExecs + 1, purgeReal := s.purgeReal + 1 })
      else .keep := rfl
  unfold purges purgeCheck
  dsimp only
  rw [hpolicy]
  -- the three answers of the policy, in the order it asks
  by_cases hwait : s.realExecs + 1 - s.preRealExecs < s.purgeInterval
  · rw [if_pos hwait]
    exact Or.inl ⟨rfl, hwait, rfl⟩
  · rw [if_neg hwait]
    refine Or.inr ?_
    split
    · exact Or.inr ⟨rfl, Nat.le_of_not_lt hwait, rfl⟩
    · exact Or.inl ⟨rfl, rfl⟩

/-- One purge check keeps the bounds. -/
theorem Pace.Bounded.purgeCheck {s : State n} (h : s.pace.Bounded) :
    (purgeCheck (sourcePolicy .exact) s).pace.Bounded := by
  have hreal : s.purgeReal ≤ s.purgeAttempt := h.real_le_attempt
  have hlow : shortestPurgeInterval ≤ s.purgeInterval := h.le_interval
  have hhigh : s.purgeInterval ≤ purgeIntervalLevel4 := h.interval_le
  have hpre : s.preRealExecs ≤ s.realExecs := h.pre_le
  obtain ⟨-, hwait, heq⟩ | ⟨-, heq⟩ | ⟨-, -, heq⟩ := purgeCheck_pace .exact s
  · rw [heq]
    exact ⟨hreal, hlow, hhigh, Nat.le_succ_of_le hpre, hwait⟩
  · rw [heq]
    refine ⟨Nat.le_succ_of_le hreal, hlow, hhigh, Nat.le_refl _, ?_⟩
    -- the wait starts over
    show s.realExecs + 1 - (s.realExecs + 1) < s.purgeInterval
    rw [Nat.sub_self]
    exact Nat.lt_of_lt_of_le (by decide) hlow
  · obtain ⟨hlow', hhigh'⟩ := le_nextPurgeInterval
      { s with realExecs := s.realExecs + 1, purgeReal := s.purgeReal + 1 }
      (Nat.succ_le_succ hreal) hlow hhigh
    rw [heq]
    refine ⟨Nat.succ_le_succ hreal, hlow', hhigh', Nat.le_refl _, ?_⟩
    show s.realExecs + 1 - (s.realExecs + 1) < nextPurgeInterval .exact _
    rw [Nat.sub_self]
    exact Nat.lt_of_lt_of_le (by decide) hlow'

/-! ### Operations -/

/-- The state in which an operation calls `purge_check()`, if it does. -/
def checkedIn (s : State n) : Operation n → Option (State n)
  | .path _ => some { s with pathExecs := s.pathExecs + 1 }
  | .confirm _ _ => some s
  | .sample _ _ => none

/-- After its purge check a path pass leaves the pace alone. -/
theorem hybridAfterPath_pace (π : PurgePolicy n) (map : CovMap n) (overflowed : Bool)
    (key : BitVec 64) (s : State n) :
    (hybridAfterPath π map overflowed key s).st.pace =
      (purgeCheck π { s with pathExecs := s.pathExecs + 1 }).pace := by
  have hdiscard : ∀ (cksum : BitVec 32) (t : State n), (discard cksum key t).2.pace = t.pace := by
    intro cksum t
    rw [discard_eq]
    rfl
  unfold hybridAfterPath
  dsimp only
  split_ifs
  · exact hdiscard _ _
  · exact hdiscard _ _
  · rfl

/-- And so does an edge pass. -/
theorem hybridAfterConfirm_pace (π : PurgePolicy n) (map : CovMap n) (overflowed : Bool)
    (s : State n) : (hybridAfterConfirm π map overflowed s).pace = (purgeCheck π s).pace := by
  have hkeep : ∀ t : State n, (keepEdges map overflowed t).pace = t.pace := by
    intro t
    unfold keepEdges
    split
    · rw [rememberInput_eq]
      rfl
    · rfl
  have hnote : ∀ t : State n, (noteEdges t).pace = t.pace := by
    intro t
    unfold noteEdges
    dsimp only
    split <;> rfl
  unfold hybridAfterConfirm
  dsimp only
  rw [hkeep, hnote]
  rfl

theorem hybridAfterSample_pace (map : CovMap n) (overflowed : Bool) (s : State n) :
    (hybridAfterSample map overflowed s).pace = s.pace := by
  have hsame := congrArg State.pace (hybridAfterSample_unsampled map overflowed s)
  exact hsame

/-- **One operation.** It moves the pace as its purge check does, or not at all. -/
theorem operate_pace (A : PurgeArith) (s : State n) (op : Operation n) :
    (operate A s op).1.pace =
      ((checkedIn s op).map fun t => (purgeCheck (sourcePolicy A) t).pace).getD s.pace := by
  cases op with
  | path c => exact hybridAfterPath_pace _ _ _ _ s
  | confirm edge overflowed => exact hybridAfterConfirm_pace _ _ _ s
  | sample edge overflowed => exact hybridAfterSample_pace _ _ s

theorem checkedIn_pace {s t : State n} {op : Operation n} (h : checkedIn s op = some t) :
    t.pace = s.pace := by
  cases op with
  | path c =>
    obtain rfl := Option.some.inj h
    rfl
  | confirm edge overflowed =>
    obtain rfl := Option.some.inj h
    rfl
  | sample edge overflowed => cases h

theorem Pace.Bounded.operate {s : State n} (h : s.pace.Bounded) (op : Operation n) :
    (operate .exact s op).1.pace.Bounded := by
  rw [operate_pace]
  cases hcheck : checkedIn s op with
  | none => exact h
  | some t =>
    apply Pace.Bounded.purgeCheck
    rw [checkedIn_pace hcheck]
    exact h

/-! ### Runs -/

/-- The count of executions at the purge an operation makes, if it makes one. -/
def purgeAt (A : PurgeArith) (s : State n) (op : Operation n) : List ℕ :=
  match checkedIn s op with
  | some t => if purges (sourcePolicy A) t then [t.realExecs + 1] else []
  | none => []

/-- The counts of executions at the purges of a run, in order. -/
def purgeTimes (A : PurgeArith) (s : State n) (ops : List (Operation n)) : List ℕ :=
  (Ops.run (fun s op => ((operate A s op).1, purgeAt A s op)) s ops).2

/-- `real_execs` at one purge and at the next. -/
def Apart (t t' : ℕ) : Prop := t + shortestPurgeInterval ≤ t'

/-- **One operation's purge.** It comes a whole interval after `pre_real_execs`,
which is moved to it; an operation that does not purge never moves
`pre_real_execs` back. -/
theorem purgeAt_apart {s : State n} (h : s.pace.Bounded) (op : Operation n) :
    (purgeAt .exact s op = [] ∧ s.preRealExecs ≤ (operate .exact s op).1.preRealExecs) ∨
      ∃ t, purgeAt .exact s op = [t] ∧ Apart s.preRealExecs t ∧
        t = (operate .exact s op).1.preRealExecs := by
  have hpace := operate_pace .exact s op
  unfold purgeAt
  cases hcheck : checkedIn s op with
  | none =>
    rw [hcheck] at hpace
    exact Or.inl ⟨rfl, Nat.le_of_eq (congrArg Pace.preRealExecs hpace).symm⟩
  | some t =>
    rw [hcheck] at hpace
    have hpre' : (operate .exact s op).1.preRealExecs =
        (purgeCheck (sourcePolicy .exact) t).pace.preRealExecs := congrArg Pace.preRealExecs hpace
    have hsame := checkedIn_pace hcheck
    have hpre : t.preRealExecs = s.preRealExecs := congrArg Pace.preRealExecs hsame
    have hle : t.preRealExecs ≤ t.realExecs := (hsame ▸ h : t.pace.Bounded).pre_le
    have hlow : shortestPurgeInterval ≤ t.purgeInterval := (hsame ▸ h : t.pace.Bounded).le_interval
    dsimp only
    obtain ⟨hno, -, heq⟩ | ⟨hno, heq⟩ | ⟨hyes, hdue, heq⟩ := purgeCheck_pace .exact t
    · rw [hno, hpre', heq]
      exact Or.inl ⟨rfl, Nat.le_of_eq hpre.symm⟩
    · rw [hno, hpre', heq]
      refine Or.inl ⟨rfl, ?_⟩
      dsimp only
      omega
    · rw [hyes, hpre', heq]
      refine Or.inr ⟨t.realExecs + 1, rfl, ?_, rfl⟩
      -- the purge was due, and an interval is never shorter
      unfold Apart
      omega

/-- The purges of a run lie apart from each other and from any earlier time. -/
theorem purgeTimes_isChain {s : State n} (h : s.pace.Bounded) (ops : List (Operation n)) {t₀ : ℕ}
    (ht₀ : t₀ ≤ s.preRealExecs) : (t₀ :: purgeTimes .exact s ops).IsChain Apart := by
  induction ops generalizing s t₀ with
  | nil => exact List.isChain_singleton t₀
  | cons op ops ih =>
    have htimes : purgeTimes .exact s (op :: ops) =
        purgeAt .exact s op ++ purgeTimes .exact (operate .exact s op).1 ops := rfl
    rw [htimes]
    obtain ⟨hnone, hmono⟩ | ⟨t, hone, hapart, ht⟩ := purgeAt_apart h op
    · rw [hnone]
      exact ih (h.operate op) (ht₀.trans hmono)
    · rw [hone]
      refine List.isChain_cons_cons.mpr ⟨?_, ih (h.operate op) (Nat.le_of_eq ht)⟩
      unfold Apart at hapart ⊢
      omega

theorem Pace.bounded_run {s : State n} (h : s.pace.Bounded) (ops : List (Operation n)) :
    (Ops.run (Hybrid.operate .exact) s ops).1.pace.Bounded := by
  induction ops generalizing s with
  | nil => exact h
  | cons op ops ih => exact ih (h.operate op)

theorem Pace.bounded_init (pathCls pathKept edgeCls : CovMap n) :
    (hybridInit pathCls pathKept edgeCls).pace.Bounded where
  real_le_attempt := Nat.le_refl 0
  le_interval := show shortestPurgeInterval ≤ purgeIntervalLevel1 by decide
  interval_le := show purgeIntervalLevel1 ≤ purgeIntervalLevel4 by decide
  pre_le := Nat.le_refl 0
  waiting := show 0 - 0 < purgeIntervalLevel1 by decide

/-- **Purge pacing stays bounded.** With the double arithmetic of `purge_check()`
read as exact rational arithmetic, in every state that any sequence of hybrid
operations leads to: no more purges than attempts; an interval between 2857 and
the longest level; `real_execs - pre_real_execs` without underflow and below the
interval; and consecutive purges of the run at least 2857 counted executions
apart. -/
theorem purge_pacing_bounded (pathCls pathKept edgeCls : CovMap n) (ops : List (Operation n)) :
    let init := hybridInit pathCls pathKept edgeCls
    let s := (Ops.run (operate .exact) init ops).1
    s.purgeReal ≤ s.purgeAttempt ∧
      (2857 ≤ s.purgeInterval ∧ s.purgeInterval ≤ purgeIntervalLevel4) ∧
      (s.preRealExecs ≤ s.realExecs ∧ s.realExecs - s.preRealExecs < s.purgeInterval) ∧
      (purgeTimes .exact init ops).IsChain fun t t' => t + 2857 ≤ t' := by
  intro init s
  have hinit : init.pace.Bounded := Pace.bounded_init pathCls pathKept edgeCls
  have hs : s.pace.Bounded := Pace.bounded_run hinit ops
  have hchain := purgeTimes_isChain hinit ops (Nat.le_refl init.preRealExecs)
  exact ⟨hs.real_le_attempt, ⟨hs.le_interval, hs.interval_le⟩, ⟨hs.pre_le, hs.waiting⟩,
    hchain.tail⟩

end Hybrid
end CsTrace
