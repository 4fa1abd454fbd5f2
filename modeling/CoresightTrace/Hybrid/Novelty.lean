import CoresightTrace.Hybrid.Maps

/-!
# The two novelty tests

`has_new_bits()` clears the bits it is shown in the map it is testing and keeps
a running maximum; `peek_new_bits()` writes nothing and returns at the first
tuple never seen. Every decision of the filter rests on their agreement.

A sequence of calls on one virgin map is a list of `NoveltyCall`s. What it
leaves is the map it started from without the bits of the maps given to
`has_new_bits()` (`bits_virginAfter`), so neither the order of the calls nor a
call made twice matters (`novelty_tests_exact`).
-/

open BitCover

namespace CsTrace
namespace Hybrid

variable {n : ℕ}

/-- A call of one of the two novelty tests on a fixed virgin map. -/
inductive NoveltyCall (n : ℕ)
  | hasNewBits (cls : CovMap n)
  | peekNewBits (cls : CovMap n)

/-- The return value of a call, and the virgin map it leaves. -/
def NoveltyCall.run (virgin : CovMap n) : NoveltyCall n → ℕ × CovMap n
  | .hasNewBits cls => Hybrid.hasNewBits virgin cls
  | .peekNewBits cls => (Hybrid.peekNewBits virgin cls, virgin)

/-- The virgin map that a sequence of calls leaves. -/
def virginAfter (virgin : CovMap n) (calls : List (NoveltyCall n)) : CovMap n :=
  calls.foldl (fun v c => (c.run v).2) virgin

/-- The bits that a call clears. -/
def NoveltyCall.clears : NoveltyCall n → Set (Bit n)
  | .hasNewBits cls => bits cls
  | .peekNewBits _ => ∅

theorem NoveltyCall.bits_run (virgin : CovMap n) (c : NoveltyCall n) :
    bits (c.run virgin).2 = bits virgin \ c.clears := by
  cases c with
  | hasNewBits cls => exact bits_hasNewBits virgin cls
  | peekNewBits cls => exact Set.sdiff_empty.symm

/-- **The virgin map after a sequence of calls** has the bits it started with
that none of the calls cleared. -/
theorem bits_virginAfter (virgin : CovMap n) (calls : List (NoveltyCall n)) :
    bits (virginAfter virgin calls) = bits virgin \ ⋃ c ∈ calls, c.clears := by
  induction calls generalizing virgin with
  | nil => simp [virginAfter]
  | cons c calls ih =>
    calc bits (virginAfter virgin (c :: calls))
      _ = bits (virginAfter (c.run virgin).2 calls) := rfl
      _ = (bits virgin \ c.clears) \ ⋃ d ∈ calls, d.clears := by rw [ih, c.bits_run]
      _ = bits virgin \ ⋃ d ∈ c :: calls, d.clears := by
          rw [Set.sdiff_sdiff]
          simp only [List.mem_cons, Set.iUnion_iUnion_eq_or_left]

/-- Which calls were made decides the map, not their order. -/
theorem virginAfter_congr (virgin : CovMap n) {calls calls' : List (NoveltyCall n)}
    (h : ∀ c, c ∈ calls ↔ c ∈ calls') : virginAfter virgin calls = virginAfter virgin calls' := by
  apply bits_injective
  rw [bits_virginAfter, bits_virginAfter]
  simp only [h]

/-- A map just shown to `has_new_bits()` has nothing new. -/
theorem newBitsLevel_hasNewBits (virgin cls : CovMap n) :
    newBitsLevel (hasNewBits virgin cls).2 cls = 0 := by
  rw [newBitsLevel_eq_zero_iff, bits_hasNewBits]
  exact Set.disjoint_sdiff_right

/-- Showing a map a second time clears nothing. -/
theorem hasNewBits_hasNewBits (virgin cls : CovMap n) :
    hasNewBits (hasNewBits virgin cls).2 cls = (0, (hasNewBits virgin cls).2) := by
  refine Prod.ext ?_ ?_
  · show (hasNewBits (hasNewBits virgin cls).2 cls).1 = 0
    rw [hasNewBits_ret, newBitsLevel_hasNewBits]
  · show (hasNewBits (hasNewBits virgin cls).2 cls).2 = (hasNewBits virgin cls).2
    -- what is cleared twice is cleared once
    apply bits_injective
    rw [bits_hasNewBits, bits_hasNewBits, Set.sdiff_sdiff, Set.union_self]

/-- The novelty level is 2, 1 or 0 by the two questions it asks. -/
theorem newBitsLevel_iff (virgin cls : CovMap n) :
    (newBitsLevel virgin cls = 2 ↔ ∃ i, cls i ≠ 0#8 ∧ virgin i = 0xff#8) ∧
      (newBitsLevel virgin cls = 1 ↔
        (¬ ∃ i, cls i ≠ 0#8 ∧ virgin i = 0xff#8) ∧ ∃ i, cls i &&& virgin i ≠ 0#8) ∧
      (newBitsLevel virgin cls = 0 ↔
        (¬ ∃ i, cls i ≠ 0#8 ∧ virgin i = 0xff#8) ∧ ¬ ∃ i, cls i &&& virgin i ≠ 0#8) := by
  unfold newBitsLevel
  by_cases h2 : ∃ i, cls i ≠ 0#8 ∧ virgin i = 0xff#8
  · simp [h2]
  · by_cases h1 : ∃ i, cls i &&& virgin i ≠ 0#8
    · simp [h2, h1]
    · simp only [h2, h1, if_false]
      simp

/-- **The two novelty tests agree and are exact.** Both return 2 when some index
is hit whose virgin byte is still `0xff`, else 1 when some index has a hit count
whose bit is still set, else 0. `has_new_bits()` leaves `virgin[i] & ~cls[i]`
everywhere, so a second call returns 0 and changes nothing; `peek_new_bits()`
leaves the map alone; and the map after any sequence of calls of the two does
not depend on their order. -/
theorem novelty_tests_exact (virgin cls : CovMap n) :
    ((hasNewBits virgin cls).1 = peekNewBits virgin cls ∧
      (peekNewBits virgin cls = 2 ↔ ∃ i, cls i ≠ 0#8 ∧ virgin i = 0xff#8) ∧
      (peekNewBits virgin cls = 1 ↔
        (¬ ∃ i, cls i ≠ 0#8 ∧ virgin i = 0xff#8) ∧ ∃ i, cls i &&& virgin i ≠ 0#8) ∧
      (peekNewBits virgin cls = 0 ↔
        (¬ ∃ i, cls i ≠ 0#8 ∧ virgin i = 0xff#8) ∧ ¬ ∃ i, cls i &&& virgin i ≠ 0#8)) ∧
    ((∀ i, (hasNewBits virgin cls).2 i = virgin i &&& ~~~ cls i) ∧
      hasNewBits (hasNewBits virgin cls).2 cls = (0, (hasNewBits virgin cls).2)) ∧
    ((NoveltyCall.peekNewBits cls).run virgin).2 = virgin ∧
    ∀ calls calls' : List (NoveltyCall n), calls.Perm calls' →
      virginAfter virgin calls = virginAfter virgin calls' := by
  refine ⟨⟨?_, ?_⟩, ⟨fun i => ?_, hasNewBits_hasNewBits virgin cls⟩, rfl,
    fun calls calls' hperm => ?_⟩
  · rw [hasNewBits_ret, peekNewBits_eq]
  · rw [peekNewBits_eq]
    exact newBitsLevel_iff virgin cls
  · rw [hasNewBits_virgin]
  · -- a permutation makes the same calls
    exact virginAfter_congr virgin fun c => hperm.mem_iff

end Hybrid
end CsTrace
