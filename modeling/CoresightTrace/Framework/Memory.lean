import Mathlib.Data.List.Basic
import Mathlib.Tactic.Ring

/-!
# Memory

A memory is a function from addresses to cells, and a buffer is a range of it that
its owner reads, writes and moves. The lemmas say what the three operations do to
the contents of a range (`Memory.read`):

* a range is the concatenation of its parts (`read_add`);
* a write is read back where it was made (`read_write_self`) and leaves ranges
  beside it alone (`read_write_of_le`);
* a move takes the contents along (`read_move`).
-/

/-- A memory with cells of type `β`. -/
abbrev Memory (β : Type*) := ℕ → β

namespace Memory

variable {β : Type*}

/-- The `n` cells from address `a` on. -/
def read (m : Memory β) (a n : ℕ) : List β :=
  (List.range n).map fun i => m (a + i)

/-- The memory after the cells `bs` are stored from address `a` on. -/
def write (m : Memory β) (a : ℕ) (bs : List β) : Memory β :=
  fun x => if a ≤ x then (bs[x - a]?).getD (m x) else m x

/-- The memory after `n` cells are moved from `src` to `dst`. -/
def move (m : Memory β) (src dst n : ℕ) : Memory β :=
  fun x => if dst ≤ x ∧ x < dst + n then m (src + (x - dst)) else m x

@[simp] theorem length_read (m : Memory β) (a n : ℕ) : (m.read a n).length = n := by
  simp [read]

/-- A range is the concatenation of its parts. -/
theorem read_add (m : Memory β) (a n k : ℕ) :
    m.read a (n + k) = m.read a n ++ m.read (a + n) k := by
  simp [read, List.range_add, Function.comp_def, Nat.add_assoc]

theorem read_congr {m m' : Memory β} {a a' n : ℕ} (h : ∀ i < n, m (a + i) = m' (a' + i)) :
    m.read a n = m'.read a' n := by
  unfold read
  refine List.map_congr_left ?_
  intro i hi
  exact h i (List.mem_range.mp hi)

/-- What was written is read back. -/
theorem read_write_self (m : Memory β) (a : ℕ) (bs : List β) :
    (m.write a bs).read a bs.length = bs := by
  refine List.ext_getElem (by simp) ?_
  intro i h₁ h₂
  simp [read, write, h₂]

/-- A write leaves what lies before it alone. -/
theorem read_write_of_le (m : Memory β) {a b n : ℕ} (bs : List β) (h : a + n ≤ b) :
    (m.write b bs).read a n = m.read a n := by
  refine read_congr ?_
  intro i hi
  unfold write
  rw [if_neg (by omega)]

/-- Two writes side by side are read back as one. -/
theorem read_write_append (m : Memory β) {a b n : ℕ} {bs bs' : List β} (hb : b = a + bs.length)
    (hn : n = bs.length + bs'.length) : ((m.write a bs).write b bs').read a n = bs ++ bs' := by
  rw [hn, read_add, read_write_of_le _ _ hb.ge, read_write_self, ← hb, read_write_self]

/-- A write leaves what lies after it alone. -/
theorem write_of_le (m : Memory β) {a x : ℕ} {bs : List β} (h : a + bs.length ≤ x) :
    m.write a bs x = m x := by
  unfold write
  rw [if_pos (by omega), List.getElem?_eq_none (by omega), Option.getD_none]

/-- A move takes the contents of the range along. -/
theorem read_move (m : Memory β) {src dst n k : ℕ} (h : k ≤ n) :
    (m.move src dst n).read dst k = m.read src k := by
  refine read_congr ?_
  intro i hi
  unfold move
  rw [if_pos (by omega), Nat.add_sub_cancel_left]

end Memory
