import Mathlib.Data.List.Sort
import CoresightTrace.Framework.Memory

/-!
# Insertion sort in place

The textbook sort on the first cells of a memory: the outer loop extends a sorted
prefix by one cell, and the inner loop shifts the larger cells of the prefix up until
the place of the new one is free.

Over a linear order the sorted arrangement of a list is unique, so what the two
loops leave is Mathlib's `List.insertionSort` of what they found
(`read_insertionSort`), although the latter inserts from the other end.
-/

namespace Memory

variable {α : Type*} [LinearOrder α]

/-- The inner loop with `n` cells of the prefix left to look at, and the store that
follows it. Cell `n` is free. -/
def shiftInsert (key : α) : ℕ → Memory α → Memory α
  | 0, m => m.write 0 [key]
  | n + 1, m =>
    if key < m n then shiftInsert key n (m.write (n + 1) [m n]) else m.write (n + 1) [key]

/-- The outer loop over the cells `1` to `n - 1`. -/
def insertionSort (m : Memory α) (n : ℕ) : Memory α :=
  (List.range' 1 (n - 1)).foldl (fun m i => shiftInsert (m i) i m) m

omit [LinearOrder α] in
theorem read_succ (m : Memory α) (n : ℕ) : m.read 0 (n + 1) = m.read 0 n ++ [m n] := by
  rw [read_add, Nat.zero_add]
  rfl

omit [LinearOrder α] in
theorem write_apply (m : Memory α) (a : ℕ) (v : α) : m.write a [v] a = v := by
  simp [write]

omit [LinearOrder α] in
theorem write_of_ne (m : Memory α) {a x : ℕ} (v : α) (h : x ≠ a) : m.write a [v] x = m x := by
  unfold write
  split
  · next hle => rw [List.getElem?_eq_none (by simpa using by omega), Option.getD_none]
  · rfl

/-- The loops leave the cells after the new one alone. -/
theorem shiftInsert_of_lt (key : α) {n x : ℕ} (m : Memory α) (h : n < x) :
    shiftInsert key n m x = m x := by
  induction n generalizing m with
  | zero => exact write_of_ne m key (by omega)
  | succ n ih =>
    unfold shiftInsert
    split
    · rw [ih _ (by omega), write_of_ne m _ (by omega)]
    · exact write_of_ne m key (by omega)

/-- **One insertion.** The prefix is sorted again, and has gained the key. -/
theorem shiftInsert_spec (key : α) (n : ℕ) (m : Memory α)
    (hsorted : (m.read 0 n).Pairwise (· ≤ ·)) :
    ((shiftInsert key n m).read 0 (n + 1)).Pairwise (· ≤ ·) ∧
      ((shiftInsert key n m).read 0 (n + 1)).Perm (key :: m.read 0 n) := by
  induction n generalizing m with
  | zero =>
    have hread : (shiftInsert key 0 m).read 0 1 = [key] := read_write_self m 0 [key]
    rw [hread]
    exact ⟨List.pairwise_singleton _ _, List.Perm.refl _⟩
  | succ n ih =>
    rw [read_succ, List.pairwise_append] at hsorted
    obtain ⟨hfront, -, hlast⟩ := hsorted
    rw [read_succ _ (n + 1), read_succ m n]
    unfold shiftInsert
    by_cases hkey : key < m n
    · -- the last cell of the prefix moves up, and the key goes in below it
      rw [if_pos hkey, shiftInsert_of_lt key _ (Nat.lt_succ_self n), write_apply]
      have hrest : (m.write (n + 1) [m n]).read 0 n = m.read 0 n :=
        read_write_of_le m [m n] (by omega)
      obtain ⟨hs, hp⟩ := ih (m.write (n + 1) [m n]) (hrest.symm ▸ hfront)
      rw [hrest] at hp
      refine ⟨List.pairwise_append.mpr ⟨hs, List.pairwise_singleton _ _, ?_⟩, hp.append_right _⟩
      intro x hx y hy
      rw [List.mem_singleton.mp hy]
      rcases List.mem_cons.mp (hp.mem_iff.mp hx) with rfl | hx
      · exact hkey.le
      · exact hlast x hx _ List.mem_cons_self
    · have hrest : (m.write (n + 1) [key]).read 0 (n + 1) = m.read 0 n ++ [m n] := by
        rw [read_write_of_le m [key] (by omega), read_succ]
      rw [if_neg hkey, write_apply, hrest]
      refine ⟨List.pairwise_append.mpr ⟨?_, List.pairwise_singleton _ _, ?_⟩, ?_⟩
      · exact List.pairwise_append.mpr ⟨hfront, List.pairwise_singleton _ _, hlast⟩
      · -- everything in the prefix is at most its last cell
        intro x hx y hy
        rw [List.mem_singleton.mp hy]
        refine le_trans ?_ (not_lt.mp hkey)
        rcases List.mem_append.mp hx with hx | hx
        · exact hlast x hx _ List.mem_cons_self
        · exact (List.mem_singleton.mp hx).le
      · exact List.perm_append_singleton key _

/-- The loops from cell `i` on, over a sorted prefix of `i` cells. -/
theorem insertionSort_spec_from (i k : ℕ) (m : Memory α)
    (hsorted : (m.read 0 i).Pairwise (· ≤ ·)) :
    let m' := (List.range' i k).foldl (fun m i => shiftInsert (m i) i m) m
    (m'.read 0 (i + k)).Pairwise (· ≤ ·) ∧ (m'.read 0 (i + k)).Perm (m.read 0 (i + k)) := by
  induction k generalizing i m with
  | zero => exact ⟨hsorted, List.Perm.refl _⟩
  | succ k ih =>
    obtain ⟨hs, hp⟩ := shiftInsert_spec (m i) i m hsorted
    obtain ⟨hs', hp'⟩ := ih (i + 1) (shiftInsert (m i) i m) hs
    rw [List.range'_succ, List.foldl_cons, show i + (k + 1) = i + 1 + k by omega]
    refine ⟨hs', hp'.trans ?_⟩
    -- the cells after the new one are where they were
    have hafter : (shiftInsert (m i) i m).read (0 + (i + 1)) k = m.read (0 + (i + 1)) k :=
      read_congr fun j _ => shiftInsert_of_lt (m i) m (by omega)
    rw [read_add, read_add m, hafter]
    refine List.Perm.append_right _ (hp.trans ?_)
    rw [read_succ]
    exact (List.perm_append_singleton (m i) (m.read 0 i)).symm

/-- **The loops sort.** -/
theorem read_insertionSort (m : Memory α) (n : ℕ) :
    (m.insertionSort n).read 0 n = (m.read 0 n).insertionSort (· ≤ ·) := by
  cases n with
  | zero => rfl
  | succ n =>
    have hone : (m.read 0 1).Pairwise (· ≤ ·) := List.pairwise_singleton _ _
    obtain ⟨hs, hp⟩ := insertionSort_spec_from 1 n m hone
    rw [Nat.add_comm 1 n] at hs hp
    refine List.Perm.eq_of_pairwise' hs (List.pairwise_insertionSort _ _) ?_
    exact hp.trans (List.perm_insertionSort _ _).symm

end Memory
