import Mathlib.Data.Set.Basic
import Mathlib.Data.Set.Lattice
import Mathlib.Data.BitVec
import Mathlib.Order.CompletePartialOrder

/-!
# Families of bit vectors as sets of bits

A map of `w`-bit words indexed by `ι` is the set of positions `(i, j)` at which
the `j`-th bit of the `i`-th word is set. Masking, the operation of coverage
bookkeeping, becomes set difference (`bits_andNot`), and a map is determined by
its set (`bits_injective`). A map that starts with every bit set and is only
ever masked is the complement of the union of its masks, which is how a program
that clears what it has seen is related to the set of what it has seen.
-/

namespace BitCover

variable {ι : Type*} {w : ℕ}

/-- The set bits of a family of words. -/
def bits (m : ι → BitVec w) : Set (ι × Fin w) :=
  {b | (m b.1).getLsbD b.2 = true}

@[simp] theorem mem_bits {m : ι → BitVec w} {b : ι × Fin w} :
    b ∈ bits m ↔ (m b.1).getLsbD b.2 = true := Iff.rfl

theorem bits_injective : Function.Injective (bits : (ι → BitVec w) → Set (ι × Fin w)) := by
  intro m m' h
  -- compare the two families bit by bit
  funext i
  refine BitVec.eq_of_getLsbD_eq fun j hj => ?_
  have hb : ((i, ⟨j, hj⟩) : ι × Fin w) ∈ bits m ↔ (i, ⟨j, hj⟩) ∈ bits m' := by rw [h]
  exact Bool.eq_iff_iff.mpr hb

/-- Masking out `c` removes its bits. -/
theorem bits_andNot (v c : ι → BitVec w) :
    bits (fun i => v i &&& ~~~ c i) = bits v \ bits c := by
  ext ⟨i, j⟩
  simp

@[simp] theorem bits_allOnes : bits (fun _ : ι => BitVec.allOnes w) = Set.univ := by
  ext ⟨i, j⟩
  simp

@[simp] theorem bits_zero : bits (fun _ : ι => (0#w)) = ∅ := by
  ext ⟨i, j⟩
  simp

/-- Two words share no bit at any index exactly when their sets are disjoint. -/
theorem and_eq_zero_iff_disjoint (c v : ι → BitVec w) :
    (∀ i, c i &&& v i = 0#w) ↔ Disjoint (bits c) (bits v) := by
  rw [Set.disjoint_left]
  constructor
  · rintro h ⟨i, j⟩ hc hv
    -- a shared bit would be set in a word that is zero
    have hij := congrArg (fun x : BitVec w => x.getLsbD j) (h i)
    simp only [BitVec.getLsbD_and, BitVec.getLsbD_zero] at hij
    rw [mem_bits.mp hc, mem_bits.mp hv] at hij
    exact absurd hij (by simp)
  · intro h i
    refine BitVec.eq_of_getLsbD_eq fun j hj => ?_
    -- and a bit set in the conjunction is shared
    have hij := h (a := (i, ⟨j, hj⟩))
    simp only [mem_bits] at hij
    simp only [BitVec.getLsbD_and, BitVec.getLsbD_zero, Bool.and_eq_false_imp]
    intro hc
    simpa using hij hc

/-- Every bit of `v` is a bit of `r` exactly when masking `v` with `r` leaves
nothing. -/
theorem andNot_eq_zero_iff_subset (v r : ι → BitVec w) :
    (∀ i, v i &&& ~~~ r i = 0#w) ↔ bits v ⊆ bits r := by
  have h := bits_andNot v r
  constructor
  · intro hz
    -- the masked family is the zero family, whose set is empty
    have : (fun i => v i &&& ~~~ r i) = fun _ => (0#w) := funext hz
    rw [this, bits_zero] at h
    exact Set.sdiff_eq_empty.mp h.symm
  · intro hs i
    -- an empty difference is the set of the zero family, and `bits` is injective
    rw [Set.sdiff_eq_empty.mpr hs, ← bits_zero (ι := ι) (w := w)] at h
    exact congrFun (bits_injective h) i

end BitCover
