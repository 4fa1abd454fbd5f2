import Mathlib.Logic.Function.Basic
import Mathlib.Data.Option.Basic

/-!
# Direct-mapped tables

A table with one entry per slot, where the slot of a key is a function of the
key. Storing under a key evicts whatever the slot held, so a lookup answers
only while no other key of the same slot has been stored since.
-/

/-- A direct-mapped table: each slot is empty or holds one key with its value. -/
abbrev DirectMap (Slot Key Value : Type*) := Slot → Option (Key × Value)

namespace DirectMap

variable {Slot Key Value : Type*} [DecidableEq Slot] [DecidableEq Key]

/-- The value stored for `k`, if its slot holds `k`. -/
def lookup (slot : Key → Slot) (t : DirectMap Slot Key Value) (k : Key) : Option Value :=
  match t (slot k) with
  | some (k', v) => if k' = k then some v else none
  | none => none

/-- Take over the slot of `k`. -/
def store (slot : Key → Slot) (t : DirectMap Slot Key Value) (k : Key) (v : Value) :
    DirectMap Slot Key Value :=
  Function.update t (slot k) (some (k, v))

variable {slot : Key → Slot} {t : DirectMap Slot Key Value}

omit [DecidableEq Slot] in
theorem lookup_eq_some_iff {k : Key} {v : Value} :
    lookup slot t k = some v ↔ t (slot k) = some (k, v) := by
  unfold lookup
  cases h : t (slot k) with
  | none => simp
  | some e =>
    obtain ⟨k', v'⟩ := e
    -- the slot answers for its own key only
    by_cases hk : k' = k <;> simp [hk]

omit [DecidableEq Key] in
@[simp] theorem store_self (k : Key) (v : Value) : store slot t k v (slot k) = some (k, v) := by
  simp [store]

omit [DecidableEq Key] in
theorem store_of_ne {i : Slot} {k : Key} (v : Value) (h : i ≠ slot k) :
    store slot t k v i = t i := by
  simp [store, h]

end DirectMap
