import Mathlib.Data.BitVec
import Mathlib.Data.Finite.Prod
import Mathlib.Data.Fintype.EquivFin
import Mathlib.Data.Nat.ModEq
import Mathlib.Data.Nat.Prime.Basic
import Mathlib.Logic.Function.Basic

/-!
# Mixing of words

The operations from which multiplicative hash functions are built lose nothing
of the word they are applied to: multiplication by an odd constant
(`mul_injective`), rotation (`rotateLeft_injective`) and exclusive or with the
word's own right shift (`xorShift_injective`). A hash folds such a mixing over
the words of its key. When the mixing loses neither the accumulator nor the
word, the fold loses no single word of the key, wherever it stands
(`foldl_update_injective`).
-/

namespace BitMix

variable {w : ℕ}

/-- Multiplication by an odd word is injective: an odd number is prime to
`2 ^ w`. -/
theorem mul_injective {a : BitVec w} (ha : a.toNat % 2 = 1) :
    Function.Injective fun x : BitVec w => x * a := by
  intro x y h
  have hmod : x.toNat * a.toNat ≡ y.toNat * a.toNat [MOD 2 ^ w] := by
    have h' := congrArg BitVec.toNat h
    simp only [BitVec.toNat_mul] at h'
    exact h'
  have hcop : Nat.gcd (2 ^ w) a.toNat = 1 :=
    Nat.Coprime.pow_left w (Nat.coprime_two_left.mpr (Nat.odd_iff.mpr ha))
  apply BitVec.eq_of_toNat_eq
  calc x.toNat
    _ = x.toNat % 2 ^ w := (Nat.mod_eq_of_lt x.isLt).symm
    _ = y.toNat % 2 ^ w := hmod.cancel_right_of_coprime hcop
    _ = y.toNat := Nat.mod_eq_of_lt y.isLt

/-- Adding a fixed word is injective. -/
theorem add_injective (c : BitVec w) : Function.Injective fun x : BitVec w => x + c :=
  fun _ _ h => (BitVec.add_left_inj c).mp h

/-- A rotation moves bit `i` up by `r` places, around the end of the word. -/
theorem getLsbD_rotateLeft_mod (x : BitVec w) {r i : ℕ} (hr : r < w) (hi : i < w) :
    (x.rotateLeft r).getLsbD ((i + r) % w) = x.getLsbD i := by
  rw [BitVec.getLsbD_rotateLeft, Nat.mod_eq_of_lt hr]
  by_cases hw : i + r < w
  · rw [Nat.mod_eq_of_lt hw]
    have hhigh : ¬ i + r < r := by omega
    simp [hw, hhigh]
  · -- the bit has left the word at the top and come back at the bottom
    have hmod : (i + r) % w = i + r - w := by
      rw [Nat.mod_eq_sub_mod (by omega), Nat.mod_eq_of_lt (by omega)]
    have hlow : i + r - w < r := by omega
    have hback : w - r + (i + r - w) = i := by omega
    rw [hmod, decide_eq_true hlow, Bool.cond_true, hback]

theorem rotateLeft_injective {r : ℕ} (hr : r < w) :
    Function.Injective fun x : BitVec w => x.rotateLeft r := by
  intro x y h
  refine BitVec.eq_of_getLsbD_eq fun i hi => ?_
  rw [← getLsbD_rotateLeft_mod x hr hi, ← getLsbD_rotateLeft_mod y hr hi]
  exact congrArg (fun v : BitVec w => v.getLsbD ((i + r) % w)) h

/-- Exclusive or with the word's own right shift is injective: the top bits are
those of the word, and each further bit is recovered from one above it. -/
theorem xorShift_injective {k : ℕ} (hk : 0 < k) :
    Function.Injective fun x : BitVec w => x ^^^ (x >>> k) := by
  intro x y h
  -- the induction is on the distance of the bit from the top
  have hbits : ∀ d i, w ≤ i + d → x.getLsbD i = y.getLsbD i := by
    intro d
    induction d with
    | zero =>
      intro i hi
      rw [BitVec.getLsbD_of_ge x i hi, BitVec.getLsbD_of_ge y i hi]
    | succ d ih =>
      intro i hi
      have hbit := congrArg (fun v : BitVec w => v.getLsbD i) h
      simp only [BitVec.getLsbD_xor, BitVec.getLsbD_ushiftRight] at hbit
      rw [ih (k + i) (by omega)] at hbit
      exact Bool.xor_left_inj.mp hbit
  exact BitVec.eq_of_getLsbD_eq fun i _ => hbits w i (Nat.le_add_left w i)

/-- An injective map of words is a bijection. -/
theorem bijective_of_injective {f : BitVec w → BitVec w} (hf : Function.Injective f) :
    Function.Bijective f :=
  have : Finite (BitVec w) := Finite.of_injective BitVec.toFin BitVec.toFin_injective
  Finite.injective_iff_bijective.mp hf

section Fold

variable {α β ι : Type*} {mix : α → β → α}

/-- A mixing that loses nothing of the accumulator loses nothing of it over a
whole key. -/
theorem foldl_injective (hacc : ∀ k, Function.Injective fun a => mix a k) (ks : List β) :
    Function.Injective fun a => ks.foldl mix a := by
  induction ks with
  | nil => exact fun _ _ h => h
  | cons k ks ih => exact fun a b h => hacc k (ih h)

/-- **One word of a key.** The fold over a key, as a function of the word at one
of its positions, is injective. -/
theorem foldl_update_injective [DecidableEq ι] (hacc : ∀ k, Function.Injective fun a => mix a k)
    (hword : ∀ a, Function.Injective (mix a)) (key : ι → β) {i : ι} {is : List ι}
    (hnd : is.Nodup) (hi : i ∈ is) (a : α) :
    Function.Injective fun k =>
      is.foldl (fun b j => mix b (Function.update key i k j)) a := by
  -- the positions before `i` and after it hold the same words whatever `k` is
  obtain ⟨before, after, rfl⟩ := List.append_of_mem hi
  have hother : ∀ (js : List ι), i ∉ js → ∀ k b,
      js.foldl (fun b j => mix b (Function.update key i k j)) b = (js.map key).foldl mix b := by
    intro js hjs k b
    rw [List.foldl_map]
    refine List.foldl_ext _ _ b fun c j hj => ?_
    rw [Function.update_of_ne (ne_of_mem_of_not_mem hj hjs)]
  obtain ⟨-, hafter, hdisj⟩ := List.nodup_append.mp hnd
  have hb : i ∉ before := fun hmem => hdisj i hmem i List.mem_cons_self rfl
  intro k k' h
  simp only [List.foldl_append, List.foldl_cons, Function.update_self,
    hother before hb, hother after (List.nodup_cons.mp hafter).1] at h
  exact hword _ (foldl_injective hacc _ h)

end Fold

end BitMix
