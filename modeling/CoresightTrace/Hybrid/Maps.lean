import CoresightTrace.Framework.BitCover
import Mathlib.Data.Fintype.Basic
import Mathlib.Data.List.FinRange
import Mathlib.Logic.Function.Basic

/-!
# Coverage maps

The byte-map operations of `hybrid.c`: hit-count classification, the path
checksum, and the two novelty tests on virgin maps. A map of `map_size` bytes
is a function from the indices below `map_size` to bytes; a virgin map is one
that starts at `0xff` everywhere and loses the bits it is shown.

The loops are kept as the source writes them, as folds over the indices in
increasing order. Each has one specification lemma that later modules use in
its place:

* `hasNewBits_virgin` — the map `has_new_bits()` leaves is the old one masked
  with the classified map;
* `hasNewBits_ret` and `peekNewBits_eq` — both tests return the novelty level
  `newBitsLevel` of the two maps they were given.

The set view of `BitCover` turns these into statements about the bits a map
holds: `newBitsLevel_eq_zero_iff` is disjointness, `bits_hasNewBits` difference.

Of the two `hash32()` variants under `#ifdef __x86_64__` the one modelled is the
32-bit one, which is what the arm64 targets of the Makefile compile.
-/

open BitCover

namespace CsTrace
namespace Hybrid

/-- A byte of a coverage map. -/
abbrev Byte := BitVec 8

/-- A coverage map of `n = map_size` bytes. -/
abbrev CovMap (n : ℕ) := Fin n → Byte

/-- The positions of the bits of a map. -/
abbrev Bit (n : ℕ) := Fin n × Fin 8

variable {n : ℕ}

/-! ### Classification -/

/-- `count_class[]`: the hit-count bucket of a raw count. -/
def countClass (b : Byte) : Byte :=
  if b.toNat = 0 then 0
  else if b.toNat = 1 then 1
  else if b.toNat = 2 then 2
  else if b.toNat = 3 then 4
  else if b.toNat ≤ 7 then 8
  else if b.toNat ≤ 15 then 16
  else if b.toNat ≤ 31 then 32
  else if b.toNat ≤ 127 then 64
  else 128

/-- `classify()`: the classified copy of a raw map. -/
def classify (src : CovMap n) : CovMap n := fun i => countClass (src i)

theorem classify_zero : classify (fun _ : Fin n => (0#8)) = fun _ => 0#8 := rfl

/-! ### The path checksum -/

/-- `HASH_CONST`. -/
def hashConst : BitVec 32 := 0xa5b35705#32

/-- One pass of `hash32()`'s loop, on the accumulator and the next word. -/
def hashMix (h1 k1 : BitVec 32) : BitVec 32 :=
  let k1 := k1 * 0xcc9e2d51#32
  let k1 := k1.rotateLeft 15
  let k1 := k1 * 0x1b873593#32
  let h1 := h1 ^^^ k1
  let h1 := h1.rotateLeft 13
  h1 * 5#32 + 0xe6546b64#32

/-- The avalanche at the end of `hash32()`. -/
def hashFinal (h1 : BitVec 32) : BitVec 32 :=
  let h1 := h1 ^^^ (h1 >>> 16)
  let h1 := h1 * 0x85ebca6b#32
  let h1 := h1 ^^^ (h1 >>> 13)
  let h1 := h1 * 0xc2b2ae35#32
  h1 ^^^ (h1 >>> 16)

/-- `hash32()` over the words of `key`; `len` is in bytes and a tail shorter
than a word is not read. -/
def hash32 (key : ℕ → BitVec 32) (len seed : BitVec 32) : BitVec 32 :=
  hashFinal ((List.range (len >>> 2).toNat).foldl (fun h1 i => hashMix h1 (key i)) (seed ^^^ len))

/-- The byte at offset `j` of the map's memory. -/
def byteAt (map : CovMap n) (j : ℕ) : Byte := if h : j < n then map ⟨j, h⟩ else 0

/-- The `i`-th aligned word of the map's memory, little-endian. -/
def wordAt (map : CovMap n) (i : ℕ) : BitVec 32 :=
  byteAt map (4 * i + 3) ++ byteAt map (4 * i + 2) ++ byteAt map (4 * i + 1) ++ byteAt map (4 * i)

/-- `checksum()`: the `size_t` map size is passed as a `uint32_t` length. -/
def checksum (map : CovMap n) : BitVec 32 := hash32 (wordAt map) (BitVec.ofNat 32 n) hashConst

/-- `cksum >> 16`, the index into `atom_check_up`. -/
def upperHalf (cksum : BitVec 32) : BitVec 16 := (cksum >>> 16).truncate 16

/-- `cksum & 0xffff`, the index into `atom_check_down`. -/
def lowerHalf (cksum : BitVec 32) : BitVec 16 := (cksum &&& 0xffff#32).truncate 16

/-! ### Novelty tests -/

/-- The body of `has_new_bits()`'s loop at index `i`, on the return value so
far and the virgin map. -/
def hasNewBitsAt (cls : CovMap n) (acc : ℕ × CovMap n) (i : Fin n) : ℕ × CovMap n :=
  if cls i &&& acc.2 i ≠ 0#8 then
    (if acc.2 i = 0xff#8 then 2 else if 1 < acc.1 then acc.1 else 1,
      Function.update acc.2 i (acc.2 i &&& ~~~ cls i))
  else acc

/-- `has_new_bits()`: the return value and the virgin map it leaves. -/
def hasNewBits (virgin cls : CovMap n) : ℕ × CovMap n :=
  (List.finRange n).foldl (hasNewBitsAt cls) (0, virgin)

/-- `peek_new_bits()` from the first index of `is` on. -/
def peekNewBitsFrom (virgin cls : CovMap n) : List (Fin n) → ℕ → ℕ
  | [], ret => ret
  | i :: is, ret =>
    if cls i &&& virgin i ≠ 0#8 then
      if virgin i = 0xff#8 then 2 else peekNewBitsFrom virgin cls is 1
    else peekNewBitsFrom virgin cls is ret

/-- `peek_new_bits()`. -/
def peekNewBits (virgin cls : CovMap n) : ℕ :=
  peekNewBitsFrom virgin cls (List.finRange n) 0

/-- `count_non_255_bytes()`. -/
def countNon255Bytes (map : CovMap n) : ℕ :=
  (List.finRange n).foldl (fun c i => c + if map i ≠ 0xff#8 then 1 else 0) 0

/-- The novelty of a classified map against a virgin map: 2 when it has a tuple
never seen, else 1 when it has a hit count never seen, else 0. -/
def newBitsLevel (virgin cls : CovMap n) : ℕ :=
  if ∃ i, cls i ≠ 0#8 ∧ virgin i = 0xff#8 then 2
  else if ∃ i, cls i &&& virgin i ≠ 0#8 then 1
  else 0

/-! ### What the loops compute -/

/-- A byte that shares no bit with `c` is not changed by masking `c` out. -/
theorem andNot_eq_self {c v : Byte} (h : c &&& v = 0#8) : v &&& ~~~ c = v := by
  refine BitVec.eq_of_getLsbD_eq fun k hk => ?_
  -- a bit of `v` that `c` does not have survives the mask
  have hbit := congrArg (fun x : Byte => x.getLsbD k) h
  simp only [BitVec.getLsbD_and, BitVec.getLsbD_zero] at hbit
  simp only [BitVec.getLsbD_and, BitVec.getLsbD_not, hk, decide_true, Bool.true_and]
  cases hv : v.getLsbD k <;> simp_all

/-- The virgin map after one pass of `has_new_bits()`'s loop. -/
theorem hasNewBitsAt_virgin (cls : CovMap n) (acc : ℕ × CovMap n) (i : Fin n) :
    (hasNewBitsAt cls acc i).2 = Function.update acc.2 i (acc.2 i &&& ~~~ cls i) := by
  unfold hasNewBitsAt
  split
  · rfl
  · -- without a shared bit the source leaves the byte, and so does the mask
    next h => rw [andNot_eq_self (not_not.mp h), Function.update_eq_self]

/-- The virgin map after the loop has passed the indices of `is`. -/
theorem foldl_hasNewBitsAt_virgin (cls : CovMap n) :
    ∀ (is : List (Fin n)) (acc : ℕ × CovMap n), is.Nodup →
      (is.foldl (hasNewBitsAt cls) acc).2 =
        fun i => if i ∈ is then acc.2 i &&& ~~~ cls i else acc.2 i := by
  intro is
  induction is with
  | nil => intro acc _; simp
  | cons j is ih =>
    intro acc hnd
    obtain ⟨hj, hnd⟩ := List.nodup_cons.mp hnd
    rw [List.foldl_cons, ih _ hnd, hasNewBitsAt_virgin]
    -- index `j` has just been masked and is not met again
    funext i
    by_cases hij : i = j
    · subst hij; simp [hj]
    · simp [hij]

/-- `has_new_bits()` leaves `virgin[i] & ~cls[i]` at every index. -/
theorem hasNewBits_virgin (virgin cls : CovMap n) :
    (hasNewBits virgin cls).2 = fun i => virgin i &&& ~~~ cls i := by
  unfold hasNewBits
  -- the range of the loop lists every index once
  rw [foldl_hasNewBitsAt_virgin cls _ _ (List.nodup_finRange n)]
  simp

/-- The novelty level over the indices of `is` only, at least `ret`. -/
def levelFrom (virgin cls : CovMap n) (is : List (Fin n)) (ret : ℕ) : ℕ :=
  if ∃ i ∈ is, cls i ≠ 0#8 ∧ virgin i = 0xff#8 then 2
  else if ∃ i ∈ is, cls i &&& virgin i ≠ 0#8 then max ret 1
  else ret

theorem and_allOnes_ne_zero {c v : Byte} (hv : v = 0xff#8) : c &&& v ≠ 0#8 ↔ c ≠ 0#8 := by
  subst hv
  rw [show (0xff#8 : Byte) = BitVec.allOnes 8 from rfl, BitVec.and_allOnes]

/-- One index more at the front of the range. -/
theorem levelFrom_cons (virgin cls : CovMap n) (i : Fin n) (is : List (Fin n)) (ret : ℕ) :
    levelFrom virgin cls (i :: is) ret =
      levelFrom virgin cls is
        (if cls i &&& virgin i ≠ 0#8 then if virgin i = 0xff#8 then 2 else max ret 1 else ret) := by
  unfold levelFrom
  simp only [List.mem_cons, exists_eq_or_imp]
  by_cases hz : cls i &&& virgin i ≠ 0#8
  · by_cases hff : virgin i = 0xff#8
    · -- a tuple never seen at `i`: the level is 2 whatever follows
      have hc : cls i ≠ 0#8 := (and_allOnes_ne_zero hff).mp hz
      rw [if_pos hz, if_pos hff, if_pos (Or.inl ⟨hc, hff⟩)]
      split_ifs <;> rfl
    · -- a hit count never seen: at least 1 from here on
      simp [hz, hff]
  · -- no bit is shared at `i`, so `i` decides nothing
    have hc : ¬ (cls i ≠ 0#8 ∧ virgin i = 0xff#8) := fun h => hz ((and_allOnes_ne_zero h.2).mpr h.1)
    simp only [hz, hc, false_or, if_false]

theorem peekNewBitsFrom_eq (virgin cls : CovMap n) :
    ∀ (is : List (Fin n)) (ret : ℕ), ret ≤ 1 →
      peekNewBitsFrom virgin cls is ret = levelFrom virgin cls is ret := by
  intro is
  induction is with
  | nil => intro ret _; simp [peekNewBitsFrom, levelFrom]
  | cons i is ih =>
    intro ret hret
    rw [levelFrom_cons, peekNewBitsFrom]
    by_cases hz : cls i &&& virgin i ≠ 0#8
    · by_cases hff : virgin i = 0xff#8
      · -- the early return: nothing later lowers a level of 2
        rw [if_pos hz, if_pos hz, if_pos hff, if_pos hff]
        unfold levelFrom
        split_ifs <;> rfl
      · rw [if_pos hz, if_pos hz, if_neg hff, if_neg hff, ih 1 (Nat.le_refl 1)]
        rw [show max ret 1 = 1 by omega]
    · -- nothing new at `i`, and the loop goes on with the same value
      rw [if_neg hz, if_neg hz, ih ret hret]

theorem foldl_hasNewBitsAt_ret (cls : CovMap n) :
    ∀ (is : List (Fin n)) (acc : ℕ × CovMap n), is.Nodup →
      (is.foldl (hasNewBitsAt cls) acc).1 = levelFrom acc.2 cls is acc.1 := by
  intro is
  induction is with
  | nil => intro acc _; simp [levelFrom]
  | cons i is ih =>
    intro acc hnd
    obtain ⟨hi, hnd⟩ := List.nodup_cons.mp hnd
    -- the value after this pass, with the source's nested conditional as a maximum
    have hret' : (hasNewBitsAt cls acc i).1 =
        if cls i &&& acc.2 i ≠ 0#8 then if acc.2 i = 0xff#8 then 2 else max acc.1 1
        else acc.1 := by
      unfold hasNewBitsAt
      split
      · split_ifs <;> omega
      · rfl
    rw [List.foldl_cons, ih _ hnd, hret', levelFrom_cons]
    -- the rest of the loop reads the virgin map only at indices other than `i`
    have hsame : ∀ j ∈ is, (hasNewBitsAt cls acc i).2 j = acc.2 j := by
      intro j hj
      rw [hasNewBitsAt_virgin, Function.update_of_ne (ne_of_mem_of_not_mem hj hi)]
    unfold levelFrom
    have h2 : (∃ j ∈ is, cls j ≠ 0#8 ∧ (hasNewBitsAt cls acc i).2 j = 0xff#8) ↔
        ∃ j ∈ is, cls j ≠ 0#8 ∧ acc.2 j = 0xff#8 :=
      exists_congr fun j => and_congr_right fun hj => by rw [hsame j hj]
    have h1 : (∃ j ∈ is, cls j &&& (hasNewBitsAt cls acc i).2 j ≠ 0#8) ↔
        ∃ j ∈ is, cls j &&& acc.2 j ≠ 0#8 :=
      exists_congr fun j => and_congr_right fun hj => by rw [hsame j hj]
    simp only [h1, h2]

theorem levelFrom_finRange (virgin cls : CovMap n) :
    levelFrom virgin cls (List.finRange n) 0 = newBitsLevel virgin cls := by
  simp [levelFrom, newBitsLevel]

/-- `has_new_bits()` returns the novelty level. -/
theorem hasNewBits_ret (virgin cls : CovMap n) :
    (hasNewBits virgin cls).1 = newBitsLevel virgin cls := by
  unfold hasNewBits
  rw [foldl_hasNewBitsAt_ret cls _ _ (List.nodup_finRange n)]
  exact levelFrom_finRange virgin cls

/-- `peek_new_bits()` returns the novelty level. -/
theorem peekNewBits_eq (virgin cls : CovMap n) :
    peekNewBits virgin cls = newBitsLevel virgin cls := by
  unfold peekNewBits
  rw [peekNewBitsFrom_eq virgin cls _ _ (Nat.zero_le 1)]
  exact levelFrom_finRange virgin cls

/-! ### The set view -/

/-- Nothing new is disjointness of the classified bits from the virgin ones. -/
theorem newBitsLevel_eq_zero_iff (virgin cls : CovMap n) :
    newBitsLevel virgin cls = 0 ↔ Disjoint (bits cls) (bits virgin) := by
  rw [← and_eq_zero_iff_disjoint]
  unfold newBitsLevel
  constructor
  · intro h i
    -- the level of a map that shares a bit is at least 1
    by_contra hi
    split_ifs at h with h2 h1
    · exact h1 ⟨i, hi⟩
  · intro h
    -- neither a tuple nor a hit count is new
    have h2 : ¬ ∃ i, cls i ≠ 0#8 ∧ virgin i = 0xff#8 :=
      fun ⟨i, hc, hv⟩ => (and_allOnes_ne_zero hv).mpr hc (h i)
    have h1 : ¬ ∃ i, cls i &&& virgin i ≠ 0#8 := fun ⟨i, hi⟩ => hi (h i)
    rw [if_neg h2, if_neg h1]

/-- `has_new_bits()` removes the classified bits from the virgin map. -/
theorem bits_hasNewBits (virgin cls : CovMap n) :
    bits (hasNewBits virgin cls).2 = bits virgin \ bits cls := by
  rw [hasNewBits_virgin, bits_andNot]

end Hybrid
end CsTrace
