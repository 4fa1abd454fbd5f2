import Mathlib.Data.List.Induction
import CoresightTrace.Framework.Memory

/-!
# Rings that are overwritten

A writer stores into the cells of a memory one after the other, and goes on at the
first when it has passed the last. It never waits, so once it has wrapped the oldest
cells are lost, one with each store.

* `RingBuffer.pushAll` — the ring after a sequence of stores;
* `RingBuffer.window` — cells of the ring in their order, from a place on;
* `RingBuffer.window_newest` — from the oldest cell on, the window is what was stored
  last: everything, or as much as the ring holds;
* `RingBuffer.read_append_read` — a window is read as two ranges of the memory.
-/

/-- The cells of a ring, where the next store goes, and whether the writer has
passed the end. -/
structure RingBuffer (β : Type*) where
  cells : Memory β
  next : ℕ
  wrapped : Bool

namespace RingBuffer

variable {β : Type*}

/-- A ring nothing was stored in. -/
def fresh (m : Memory β) : RingBuffer β :=
  ⟨m, 0, false⟩

/-- The ring of `size` cells after a store. -/
def push (size : ℕ) (r : RingBuffer β) (b : β) : RingBuffer β where
  cells := r.cells.write r.next [b]
  next := (r.next + 1) % size
  wrapped := r.wrapped || decide (r.next + 1 = size)

/-- The ring after the stores `bs`, oldest first. -/
def pushAll (size : ℕ) (r : RingBuffer β) (bs : List β) : RingBuffer β :=
  bs.foldl (push size) r

/-- The `n` cells from `start` on, in the order of the ring. -/
def window (size : ℕ) (m : Memory β) (start n : ℕ) : List β :=
  (List.range n).map fun k => m ((start + k) % size)

theorem pushAll_append_singleton (size : ℕ) (r : RingBuffer β) (bs : List β) (b : β) :
    r.pushAll size (bs ++ [b]) = (r.pushAll size bs).push size b := by
  unfold pushAll
  rw [List.foldl_append, List.foldl_cons, List.foldl_nil]

section Pushed

variable {size : ℕ} (m : Memory β)

theorem pushAll_next (bs : List β) : ((fresh m).pushAll size bs).next = bs.length % size := by
  induction bs using List.reverseRecOn with
  | nil => exact (Nat.zero_mod size).symm
  | append_singleton bs b ih =>
    rw [pushAll_append_singleton, List.length_append, List.length_singleton]
    change (((fresh m).pushAll size bs).next + 1) % size = _
    rw [ih, Nat.mod_add_mod]

theorem pushAll_wrapped (hsize : 0 < size) (bs : List β) :
    ((fresh m).pushAll size bs).wrapped = decide (size ≤ bs.length) := by
  induction bs using List.reverseRecOn with
  | nil => exact (decide_eq_false (by simpa using hsize.ne')).symm
  | append_singleton bs b ih =>
    rw [pushAll_append_singleton, List.length_append, List.length_singleton]
    change (((fresh m).pushAll size bs).wrapped || decide (_ + 1 = size)) = _
    rw [ih, pushAll_next]
    by_cases hfull : size ≤ bs.length
    · simp [hfull, Nat.le_succ_of_le hfull]
    · -- before the first wrap the place is the number of stores
      rw [Nat.mod_eq_of_lt (by omega), decide_eq_false hfull, Bool.false_or]
      exact decide_eq_decide.mpr (by omega)

/-- What was stored is in its cell until the ring has gone around. -/
theorem pushAll_cells {bs : List β} {j : ℕ} (hj : j < bs.length) (hkept : bs.length ≤ j + size) :
    some (((fresh m).pushAll size bs).cells (j % size)) = bs[j]? := by
  induction bs using List.reverseRecOn with
  | nil => cases hj
  | append_singleton bs b ih =>
    rw [List.length_append, List.length_singleton] at hj hkept
    rw [pushAll_append_singleton]
    change some (((fresh m).pushAll size bs).cells.write _ [b] (j % size)) = _
    rw [pushAll_next]
    unfold Memory.write
    by_cases hlast : j = bs.length
    · subst hlast
      simp
    · -- less than a round lies between the two stores
      have hother : j % size ≠ bs.length % size := by
        intro heq
        have hround := Nat.sub_mod_eq_zero_of_mod_eq heq.symm
        rw [Nat.mod_eq_of_lt (by omega)] at hround
        omega
      rw [List.getElem?_append_left (by omega), ← ih (by omega) (by omega)]
      split
      · next hle =>
        rw [List.getElem?_eq_none (by simpa using by omega), Option.getD_none]
      · rfl

/-- The place of the oldest cell. -/
def oldest (r : RingBuffer β) : ℕ :=
  if r.wrapped then r.next else 0

/-- **The window from the oldest cell on is what was stored last.** -/
theorem window_newest (hsize : 0 < size) (bs : List β) :
    window size ((fresh m).pushAll size bs).cells ((fresh m).pushAll size bs).oldest
        (min bs.length size) =
      bs.drop (bs.length - min bs.length size) := by
  refine List.ext_getElem? fun k => ?_
  unfold window oldest
  rw [pushAll_wrapped m hsize, pushAll_next, List.getElem?_map, List.getElem?_drop]
  by_cases hk : k < min bs.length size
  · -- the `k`-th cell from the oldest holds the store as far from the first one kept
    have hplace : ((if decide (size ≤ bs.length) = true then bs.length % size else 0) + k) % size =
        (bs.length - min bs.length size + k) % size := by
      by_cases hfull : size ≤ bs.length
      · rw [if_pos (decide_eq_true hfull), min_eq_right hfull, Nat.mod_add_mod,
          ← Nat.add_mod_right (bs.length - size + k), show bs.length - size + k + size =
            bs.length + k by omega]
      · rw [if_neg (by simpa using hfull), min_eq_left (by omega), Nat.sub_self]
    rw [List.getElem?_range hk, Option.map_some, hplace]
    exact pushAll_cells m (by omega) (by omega)
  · rw [List.getElem?_eq_none (by rw [List.length_range]; omega), List.getElem?_eq_none (by omega)]
    rfl

end Pushed

/-- **A window is read as two ranges.** -/
theorem read_append_read {size start n : ℕ} (m : Memory β) (hstart : start < size)
    (hn : n ≤ size) :
    m.read start (min n (size - start)) ++ m.read 0 (n - min n (size - start)) =
      window size m start n := by
  have hsplit : List.range n = List.range (min n (size - start) + (n - min n (size - start))) := by
    rw [Nat.add_sub_cancel' (min_le_left _ _)]
  unfold window Memory.read
  rw [hsplit, List.range_add, List.map_append, List.map_map]
  congr 1
  · refine List.map_congr_left fun k hk => ?_
    have := List.mem_range.mp hk
    rw [Nat.mod_eq_of_lt (by omega)]
  · -- the second range is only read once the first has reached the end
    refine List.map_congr_left fun k hk => ?_
    have := List.mem_range.mp hk
    change m (0 + k) = m ((start + (min n (size - start) + k)) % size)
    rw [show start + (min n (size - start) + k) = k + size by omega, Nat.add_mod_right,
      Nat.mod_eq_of_lt (by omega), Nat.zero_add]

end RingBuffer
