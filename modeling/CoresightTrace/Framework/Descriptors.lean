import Mathlib.Data.List.Basic
import Mathlib.Logic.Function.Basic

/-!
# Descriptor tables

The descriptors of a process, as a partial map to open files. `fork` copies the
table, `pipe` takes the lowest free descriptors below the limit, and `dup2` and
`close` change one entry. A file is open as long as some process has a descriptor
of it (`Holds`), which is what decides whether a pipe is at its end.

`sweep` is the loop of a process that keeps a few descriptors and closes the
others up to a bound; `sweep_apply` says what it leaves.
-/

/-- The open files of a process by descriptor. -/
def Descriptors (File : Type*) := ℕ → Option File

namespace Descriptors

variable {File : Type*} {t : Descriptors File} {f : File} {fd : ℕ}

/-- A descriptor of the file is open. -/
def Holds (t : Descriptors File) (f : File) : Prop :=
  ∃ fd, t fd = some f

/-- Only this descriptor of the file is open. -/
def HoldsAt (t : Descriptors File) (f : File) (fd : ℕ) : Prop :=
  ∀ fd', t fd' = some f ↔ fd' = fd

theorem HoldsAt.holds (h : HoldsAt t f fd) : Holds t f :=
  ⟨fd, (h fd).mpr rfl⟩

/-! ### The calls -/

/-- The table with one entry set. -/
def set (t : Descriptors File) (fd : ℕ) (f : Option File) : Descriptors File :=
  fun fd' => if fd' = fd then f else t fd'

@[simp] theorem set_apply (t : Descriptors File) (fd : ℕ) (f : Option File) (fd' : ℕ) :
    t.set fd f fd' = if fd' = fd then f else t fd' :=
  rfl

/-- `close`. -/
def close (t : Descriptors File) (fd : ℕ) : Descriptors File :=
  t.set fd none

@[simp] theorem close_apply (t : Descriptors File) (fd fd' : ℕ) :
    t.close fd fd' = if fd' = fd then none else t fd' :=
  rfl

theorem not_holds_close (h : ¬ Holds t f) (fd : ℕ) : ¬ Holds (t.close fd) f := by
  rintro ⟨fd', hfd⟩
  rw [close_apply] at hfd
  split at hfd
  · cases hfd
  · exact h ⟨fd', hfd⟩

theorem HoldsAt.not_holds_close (h : HoldsAt t f fd) : ¬ Holds (t.close fd) f := by
  rintro ⟨fd', hfd⟩
  rw [close_apply] at hfd
  split at hfd
  · cases hfd
  · next hne => exact hne ((h fd').mp hfd)

theorem HoldsAt.close_of_ne (h : HoldsAt t f fd) {fd' : ℕ} (hne : fd ≠ fd') :
    HoldsAt (t.close fd') f fd := by
  intro fd''
  rw [close_apply]
  split
  · next heq =>
    refine iff_of_false (fun hnone => by cases hnone) ?_
    rintro rfl
    exact hne heq
  · exact h fd''

/-- `dup2`. -/
def dup2 (t : Descriptors File) (old new : ℕ) : Descriptors File :=
  t.set new (t old)

@[simp] theorem dup2_apply (t : Descriptors File) (old new fd : ℕ) :
    t.dup2 old new fd = if fd = new then t old else t fd :=
  rfl

/-- The lowest free descriptor below the limit. -/
def lowestFree (limit : ℕ) (t : Descriptors File) : Option ℕ :=
  (List.range limit).find? fun fd => (t fd).isNone

theorem lowestFree_free {limit : ℕ} (h : lowestFree limit t = some fd) : t fd = none := by
  have hfree := List.find?_some h
  exact Option.isNone_iff_eq_none.mp hfree

theorem lowestFree_lt {limit : ℕ} (h : lowestFree limit t = some fd) : fd < limit :=
  List.mem_range.mp (List.mem_of_find?_eq_some h)

/-- `pipe`: the table and the descriptors of the read and of the write end. -/
def pipe (limit : ℕ) (t : Descriptors File) (rd wr : File) :
    Option (Descriptors File × ℕ × ℕ) :=
  match lowestFree limit t with
  | none => none
  | some r =>
    match lowestFree limit (t.set r (some rd)) with
    | none => none
    | some w => some ((t.set r (some rd)).set w (some wr), r, w)

/-- What `pipe` has done. -/
theorem pipe_spec {limit r w : ℕ} {t' : Descriptors File} {rd wr : File}
    (h : pipe limit t rd wr = some (t', r, w)) :
    t r = none ∧ t w = none ∧ r ≠ w ∧ r < limit ∧ w < limit ∧
      t' = (t.set r (some rd)).set w (some wr) := by
  unfold pipe at h
  split at h
  · cases h
  · next r' hr =>
    split at h
    · cases h
    · next w' hw =>
      obtain ⟨rfl, rfl, rfl⟩ : (t.set r' (some rd)).set w' (some wr) = t' ∧ r' = r ∧ w' = w := by
        simpa using h
      have hfree := lowestFree_free hw
      have hne : w' ≠ r' := by
        rintro rfl
        simp at hfree
      refine ⟨lowestFree_free hr, ?_, hne.symm, lowestFree_lt hr, lowestFree_lt hw, rfl⟩
      simpa [hne] using hfree

/-! ### Closing all but a few -/

/-- The descriptors below `bound` are closed but for those of `keep`. -/
def sweep (keep : List ℕ) (t : Descriptors File) (bound : ℕ) : Descriptors File :=
  (List.range bound).foldl (fun t fd => if fd ∈ keep then t else t.close fd) t

theorem sweep_apply (keep : List ℕ) (t : Descriptors File) (bound fd : ℕ) :
    sweep keep t bound fd = if fd < bound ∧ fd ∉ keep then none else t fd := by
  unfold sweep
  induction bound with
  | zero => simp
  | succ n ih =>
    rw [List.range_succ, List.foldl_concat]
    by_cases hkeep : n ∈ keep
    · rw [if_pos hkeep, ih]
      by_cases heq : fd = n
      · subst heq
        simp [hkeep]
      · have hlt : fd < n + 1 ↔ fd < n := by omega
        simp only [hlt]
    · rw [if_neg hkeep, close_apply, ih]
      by_cases heq : fd = n
      · subst heq
        simp [hkeep]
      · have hlt : fd < n + 1 ↔ fd < n := by omega
        simp only [heq, if_false, hlt]

end Descriptors
