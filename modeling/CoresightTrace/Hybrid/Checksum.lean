import CoresightTrace.Framework.BitMix
import CoresightTrace.Hybrid.Maps

/-!
# The path checksum

`hash32()` mixes the aligned words of a map into an accumulator and ends with an
avalanche. Neither the mixing nor the avalanche loses anything: each is built
from odd multiplications, rotations and exclusive ors (`BitMix`). So two maps
that differ in one word have different checksums, and over the values of one
word the checksum takes every value once (`checksum_separates_words`).
-/

open BitMix

namespace CsTrace
namespace Hybrid

variable {n : ℕ}

/-! ### Mixing and avalanche -/

/-- One pass of the loop loses nothing of the accumulator. -/
theorem hashMix_injective_left (k1 : BitVec 32) : Function.Injective fun h1 => hashMix h1 k1 := by
  intro h1 h1' h
  unfold hashMix at h
  exact (BitVec.xor_left_inj _).mp
    (rotateLeft_injective (by decide) (mul_injective (by decide) (add_injective _ h)))

/-- One pass of the loop loses nothing of the word. -/
theorem hashMix_injective_right (h1 : BitVec 32) : Function.Injective (hashMix h1) := by
  intro k1 k1' h
  unfold hashMix at h
  -- back through the accumulator's half, then through the word's own
  have hword := (BitVec.xor_right_inj h1).mp
    (rotateLeft_injective (by decide) (mul_injective (by decide) (add_injective _ h)))
  have hrotated := rotateLeft_injective (by decide) (mul_injective (by decide) hword)
  exact mul_injective (by decide) hrotated

/-- The avalanche is injective. -/
theorem hashFinal_injective : Function.Injective hashFinal := by
  intro h1 h1' h
  unfold hashFinal at h
  have hmid := mul_injective (by decide) (xorShift_injective (by decide) h)
  have hfirst := mul_injective (by decide) (xorShift_injective (by decide) hmid)
  exact xorShift_injective (by decide) hfirst

/-- `hash32()` as a function of one word of its key. -/
theorem hash32_update_injective (key : ℕ → BitVec 32) (len seed : BitVec 32) {i : ℕ}
    (hi : i < (len >>> 2).toNat) :
    Function.Injective fun w => hash32 (Function.update key i w) len seed := by
  intro w w' h
  exact foldl_update_injective hashMix_injective_left hashMix_injective_right key
    List.nodup_range (List.mem_range.mpr hi) _ (hashFinal_injective h)

/-! ### The words of a map -/

/-- The map with its `i`-th aligned word replaced by `w`, little-endian. -/
def setWord (map : CovMap n) (i : ℕ) (w : BitVec 32) : CovMap n := fun j =>
  if j.val / 4 = i then w.extractLsb' (8 * (j.val % 4)) 8 else map j

/-- The number of words `hash32()` reads is the map size in words. -/
theorem toNat_length (hn : n < 2 ^ 32) : (BitVec.ofNat 32 n >>> 2).toNat = n / 4 := by
  rw [BitVec.toNat_ushiftRight, BitVec.toNat_ofNat, Nat.mod_eq_of_lt hn, Nat.shiftRight_eq_div_pow]

/-- A byte of the replaced word. -/
theorem byteAt_setWord_self (map : CovMap n) {i k : ℕ} (w : BitVec 32) (hi : i < n / 4)
    (hk : k < 4) : byteAt (setWord map i w) (4 * i + k) = w.extractLsb' (8 * k) 8 := by
  have hlt : 4 * i + k < n := by omega
  have hdiv : (4 * i + k) / 4 = i := by omega
  have hmod : (4 * i + k) % 4 = k := by omega
  unfold byteAt setWord
  rw [dif_pos hlt, if_pos hdiv, hmod]

/-- A byte of another word. -/
theorem byteAt_setWord_of_ne (map : CovMap n) {i j : ℕ} (w : BitVec 32) (hj : j / 4 ≠ i) :
    byteAt (setWord map i w) j = byteAt map j := by
  unfold byteAt setWord
  by_cases hlt : j < n
  · rw [dif_pos hlt, dif_pos hlt, if_neg hj]
  · rw [dif_neg hlt, dif_neg hlt]

/-- A word is its four bytes, the last one highest. -/
theorem word_eq_append (w : BitVec 32) :
    w.extractLsb' 24 8 ++ w.extractLsb' 16 8 ++ w.extractLsb' 8 8 ++ w.extractLsb' 0 8 = w := by
  -- the bytes are joined from the top, each to the part above it
  have h1 : w.extractLsb' 24 8 ++ w.extractLsb' 16 8 = w.extractLsb' 16 16 :=
    BitVec.extractLsb'_append_extractLsb'_eq_extractLsb' rfl
  have h2 : w.extractLsb' 16 16 ++ w.extractLsb' 8 8 = w.extractLsb' 8 24 :=
    BitVec.extractLsb'_append_extractLsb'_eq_extractLsb' rfl
  have h3 : w.extractLsb' 8 24 ++ w.extractLsb' 0 8 = w.extractLsb' 0 32 :=
    BitVec.extractLsb'_append_extractLsb'_eq_extractLsb' rfl
  rw [h1, h2, h3]
  exact BitVec.extractLsb'_eq_self

theorem wordAt_setWord (map : CovMap n) {i : ℕ} (w : BitVec 32) (hi : i < n / 4) :
    wordAt (setWord map i w) = Function.update (wordAt map) i w := by
  funext j
  by_cases hj : j = i
  · subst hj
    rw [Function.update_self]
    calc wordAt (setWord map j w) j
      _ = w.extractLsb' 24 8 ++ w.extractLsb' 16 8 ++ w.extractLsb' 8 8 ++ w.extractLsb' 0 8 := by
          unfold wordAt
          rw [byteAt_setWord_self map w hi (by decide : 3 < 4),
            byteAt_setWord_self map w hi (by decide : 2 < 4),
            byteAt_setWord_self map w hi (by decide : 1 < 4),
            show 4 * j = 4 * j + 0 from rfl, byteAt_setWord_self map w hi (by decide : 0 < 4)]
      _ = w := word_eq_append w
  · rw [Function.update_of_ne hj]
    unfold wordAt
    rw [byteAt_setWord_of_ne map w (by omega), byteAt_setWord_of_ne map w (by omega),
      byteAt_setWord_of_ne map w (by omega), byteAt_setWord_of_ne map w (by omega)]

/-- Past the end of a map of whole words there is nothing to read. -/
theorem wordAt_of_le (map : CovMap n) (h4 : 4 ∣ n) {i : ℕ} (hi : n / 4 ≤ i) : wordAt map i = 0 := by
  have hpast : ∀ k, byteAt map (4 * i + k) = 0 := by
    intro k
    unfold byteAt
    rw [dif_neg (by omega)]
  unfold wordAt
  rw [hpast 3, hpast 2, hpast 1, show byteAt map (4 * i) = 0 from hpast 0]
  rfl

/-! ### Separation -/

/-- The checksum as a function of the words at and around position `i`. -/
theorem checksum_update_injective (hn : n < 2 ^ 32) (map : CovMap n) {i : ℕ} (hi : i < n / 4) :
    Function.Injective fun w =>
      hash32 (Function.update (wordAt map) i w) (BitVec.ofNat 32 n) hashConst :=
  hash32_update_injective (wordAt map) _ _ (by rw [toNat_length hn]; exact hi)

/-- **The checksum separates maps that differ in one word.** For a map size below
`2 ^ 32` that is a multiple of 4, two maps that differ in exactly one aligned
32-bit word have different checksums, and with the other words of a map fixed
the checksum is a bijection of each single word. -/
theorem checksum_separates_words (hn : n < 2 ^ 32) (h4 : 4 ∣ n) :
    (∀ map map' : CovMap n, (∃! i, wordAt map i ≠ wordAt map' i) →
      checksum map ≠ checksum map') ∧
    ∀ (map : CovMap n) (i : ℕ), i < n / 4 →
      Function.Bijective fun w : BitVec 32 => checksum (setWord map i w) := by
  refine ⟨fun map map' hdiff heq => ?_, fun map i hi => ?_⟩
  · obtain ⟨i, hne, honly⟩ := hdiff
    have hi : i < n / 4 := by
      by_contra hle
      apply hne
      rw [wordAt_of_le map h4 (Nat.le_of_not_lt hle), wordAt_of_le map' h4 (Nat.le_of_not_lt hle)]
    -- the other map's words are this map's, but for the `i`-th
    have hwords : wordAt map' = Function.update (wordAt map) i (wordAt map' i) := by
      funext j
      by_cases hj : j = i
      · rw [hj, Function.update_self]
      · rw [Function.update_of_ne hj]
        by_contra hjne
        exact hj (honly j (Ne.symm hjne))
    apply hne
    apply checksum_update_injective hn map hi
    dsimp only
    rw [← hwords, Function.update_eq_self]
    exact heq
  · apply bijective_of_injective
    intro w w' h
    apply checksum_update_injective hn map hi
    dsimp only
    rw [← wordAt_setWord map w hi, ← wordAt_setWord map w' hi]
    exact h

/-- Two maps of two words that differ in the second one. -/
theorem checksum_separates_words_second :
    checksum (fun _ => 0 : CovMap 8) ≠
      checksum (fun i => if i.val = 7 then 1 else 0 : CovMap 8) := by
  refine (checksum_separates_words (n := 8) (by decide) (by decide)).1 _ _ ⟨1, ?_, fun j hj => ?_⟩
  · decide
  · -- the first word is the same in both, and there is no third one
    by_contra hne
    apply hj
    cases j with
    | zero => decide
    | succ j =>
      have hle : 8 / 4 ≤ j + 1 := by omega
      rw [wordAt_of_le _ (by decide) hle, wordAt_of_le _ (by decide) hle]

end Hybrid
end CsTrace
