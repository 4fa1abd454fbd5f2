import CoresightTrace.Framework.BitMix
import CoresightTrace.Hybrid.Maps
import Mathlib.Data.List.Infix

/-!
# The key of an input

The map AFL++ is shown for a discarded input is looked up under a key of its contents.
`find_input()` says once where afl-fuzz puts the test case, and `input_key()` reads it
there for each path pass and hashes it with FNV-1a, the length mixed in at the end.

The file is read in as many pieces as the kernel makes of it. The key is one of the
contents, however they are cut (`Reading.key_eq`), and 0 is kept for a test case that
cannot be read, so a hash of 0 is taken for 1. The hash loses no byte of the contents
(`rawKey_update`): inputs of one length that differ in one byte share a key only if the
hashes are just that 0 and 1 (`input_key_spec`).
-/

open BitMix

namespace CsTrace
namespace CsProxy

open Hybrid (Byte)

/-! ### Where the test case is -/

/-- `input_path` and `input_on_stdin`. -/
inductive InputPlace where
  | path (p : List Char)
  | stdin
  | missing
deriving DecidableEq, Repr

/-- The name of the file afl-fuzz writes the test case to. -/
def curInput : List Char := ".cur_input".toList

/-- `find_input()`: the first argument that ends with the name, else standard input if it
is a regular file. -/
def findInput (argv : List (List Char)) (stdinRegular : Bool) : InputPlace :=
  match argv.find? fun a => decide (10 ≤ a.length) && a.drop (a.length - 10) == curInput with
  | some p => .path p
  | none => if stdinRegular then .stdin else .missing

/-! ### The key -/

/-- What the calls of `pread` return, each at the end of what was read before: pieces,
then nothing, or an error. -/
structure Reading where
  pieces : List (List Byte)
  failed : Bool

/-- The contents, as far as they were read. -/
def Reading.contents (r : Reading) : List Byte := r.pieces.flatten

/-- One pass of the loop over a piece. -/
def fnvMix (h : BitVec 64) (b : Byte) : BitVec 64 := (h ^^^ b.setWidth 64) * 0x100000001b3#64

/-- One pass of the loop over the pieces: `h` and `off`. -/
def readPiece (s : BitVec 64 × ℕ) (piece : List Byte) : BitVec 64 × ℕ :=
  (piece.foldl fnvMix s.1, s.2 + piece.length)

/-- `input_key()` of a file that could be opened. -/
def Reading.key (r : Reading) : BitVec 64 :=
  let s := r.pieces.foldl readPiece (0xcbf29ce484222325#64, 0)
  if r.failed then 0
  else
    let h := s.1 ^^^ BitVec.ofNat 64 s.2
    if h ≠ 0 then h else 1

/-- The reading at a place, if there is one: `opens` says which files can be opened and
how they are read. -/
def InputPlace.reading (opens : List Char → Option Reading) (stdin : Reading) :
    InputPlace → Option Reading
  | .path p => opens p
  | .stdin => some stdin
  | .missing => none

/-- `input_key()`. -/
def inputKey (opens : List Char → Option Reading) (stdin : Reading) (place : InputPlace) :
    BitVec 64 :=
  match place.reading opens stdin with
  | none => 0
  | some r => r.key

/-! ### The hash of the contents -/

/-- The hash before 0 is taken for 1. -/
def rawKey (contents : List Byte) : BitVec 64 :=
  contents.foldl fnvMix 0xcbf29ce484222325#64 ^^^ BitVec.ofNat 64 contents.length

theorem fnvMix_injective_left (b : Byte) : Function.Injective fun h => fnvMix h b := by
  intro h h' heq
  exact (BitVec.xor_left_inj _).mp (mul_injective (by decide) heq)

theorem fnvMix_injective_right (h : BitVec 64) : Function.Injective (fnvMix h) := by
  intro b b' heq
  have hwide : b.setWidth 64 = b'.setWidth 64 :=
    (BitVec.xor_right_inj h).mp (mul_injective (by decide) heq)
  have hbyte := congrArg BitVec.toNat hwide
  rw [BitVec.toNat_setWidth_of_le (by decide), BitVec.toNat_setWidth_of_le (by decide)] at hbyte
  exact BitVec.eq_of_toNat_eq hbyte

/-- The loops over the pieces are one loop over the contents. -/
theorem foldl_readPiece (pieces : List (List Byte)) (h : BitVec 64) (off : ℕ) :
    pieces.foldl readPiece (h, off) =
      (pieces.flatten.foldl fnvMix h, off + pieces.flatten.length) := by
  induction pieces generalizing h off with
  | nil => rfl
  | cons piece pieces ih =>
    rw [List.foldl_cons, List.flatten_cons, List.foldl_append, List.length_append, ← Nat.add_assoc]
    exact ih _ _

/-- **The key is one of the contents**, however they are cut. -/
theorem Reading.key_eq (r : Reading) :
    r.key = if r.failed then 0 else if rawKey r.contents = 0 then 1 else rawKey r.contents := by
  unfold Reading.key rawKey Reading.contents
  dsimp only
  rw [foldl_readPiece, Nat.zero_add, ite_not]

/-- **The hash loses no byte.** -/
theorem rawKey_update (front back : List Byte) :
    Function.Injective fun b => rawKey (front ++ b :: back) := by
  intro b b' heq
  unfold rawKey at heq
  -- the lengths are the same, and so is what is mixed in before the byte
  simp only [List.length_append, List.length_cons, List.foldl_append, List.foldl_cons] at heq
  have hfold := (BitVec.xor_left_inj _).mp heq
  exact fnvMix_injective_right _ (foldl_injective fnvMix_injective_left back hfold)

/-! ### The key of a test case -/

section Key

variable {opens : List Char → Option Reading} {stdin : Reading} {place : InputPlace}

theorem inputKey_of_reading {r : Reading} (hr : place.reading opens stdin = some r)
    (hok : r.failed = false) :
    inputKey opens stdin place =
      if rawKey r.contents = 0 then 1 else rawKey r.contents := by
  unfold inputKey
  rw [hr]
  change r.key = _
  rw [r.key_eq, hok]
  rfl

/-- 0 is the key of what cannot be read, and of nothing else. -/
theorem inputKey_eq_zero_iff :
    inputKey opens stdin place = 0 ↔
      ∀ r, place.reading opens stdin = some r → r.failed = true := by
  constructor
  · intro hzero r hr
    by_contra hfailed
    rw [Bool.not_eq_true] at hfailed
    rw [inputKey_of_reading hr hfailed] at hzero
    split at hzero
    · exact absurd hzero (by decide)
    · next hraw => exact hraw hzero
  · intro hall
    unfold inputKey
    cases hr : place.reading opens stdin with
    | none => rfl
    | some r =>
      change r.key = 0
      rw [r.key_eq, hall r hr]
      rfl

/-- Two hashes become one key only by the 0 that is taken for 1. -/
theorem collapse_iff {h h' : BitVec 64} (hne : h ≠ h') :
    ((if h = 0 then 1 else h) = if h' = 0 then 1 else h') ↔ h = 0 ∧ h' = 1 ∨ h = 1 ∧ h' = 0 := by
  by_cases h0 : h = 0
  · have h0' : h' ≠ 0 := fun h0' => hne (h0.trans h0'.symm)
    rw [if_pos h0, if_neg h0']
    constructor
    · exact fun heq => .inl ⟨h0, heq.symm⟩
    · rintro (⟨-, heq⟩ | ⟨-, heq⟩)
      · exact heq.symm
      · exact absurd heq h0'
  · rw [if_neg h0]
    by_cases h0' : h' = 0
    · rw [if_pos h0']
      exact ⟨fun heq => .inr ⟨heq, h0'⟩, fun heq => (heq.resolve_left fun hl => h0 hl.1).1⟩
    · rw [if_neg h0']
      refine ⟨fun heq => absurd heq hne, ?_⟩
      rintro (⟨hz, -⟩ | ⟨-, hz⟩)
      · exact absurd hz h0
      · exact absurd hz h0'

end Key

/-- **The key of a test case.** It is 0 exactly if the test case was not found or could not
be read. Otherwise it depends on the contents only, and not on where they are or how they
are cut; and two test cases that differ in one byte have the same key exactly if their
hashes are 0 and 1. -/
theorem input_key_spec (opens opens' : List Char → Option Reading) (stdin stdin' : Reading)
    (place place' : InputPlace) :
    (inputKey opens stdin place = 0 ↔
        ∀ r, place.reading opens stdin = some r → r.failed = true) ∧
      ∀ r r', place.reading opens stdin = some r → place'.reading opens' stdin' = some r' →
        r.failed = false → r'.failed = false →
        (r.contents = r'.contents →
          inputKey opens stdin place = inputKey opens' stdin' place') ∧
        ∀ front back b b', r.contents = front ++ b :: back → r'.contents = front ++ b' :: back →
          b ≠ b' →
          (inputKey opens stdin place = inputKey opens' stdin' place' ↔
            rawKey r.contents = 0 ∧ rawKey r'.contents = 1 ∨
              rawKey r.contents = 1 ∧ rawKey r'.contents = 0) := by
  refine ⟨inputKey_eq_zero_iff, ?_⟩
  intro r r' hr hr' hok hok'
  rw [inputKey_of_reading hr hok, inputKey_of_reading hr' hok']
  constructor
  · intro heq
    rw [heq]
  · intro front back b b' hc hc' hb
    apply collapse_iff
    intro heq
    rw [hc, hc'] at heq
    exact hb (rawKey_update front back heq)

/-- A test case in a file, read at once or byte by byte, and one on standard input. -/
theorem input_key_spec_bytes :
    let opens : List Char → Option Reading := fun _ => some ⟨[[1, 2, 3]], false⟩
    let opens' : List Char → Option Reading := fun _ => some ⟨[[1], [2], [3]], false⟩
    let place := findInput ["./target".toList, "out/.cur_input".toList] true
    inputKey opens ⟨[], false⟩ place = inputKey opens' ⟨[], false⟩ place ∧
      inputKey opens ⟨[], false⟩ place ≠ inputKey opens ⟨[[1, 2], [4]], false⟩ .stdin := by
  intro opens opens' place
  have hplace : place = .path "out/.cur_input".toList := by decide
  have hread : place.reading opens ⟨[], false⟩ = some ⟨[[1, 2, 3]], false⟩ := by rw [hplace]; rfl
  have hread' : place.reading opens' ⟨[], false⟩ = some ⟨[[1], [2], [3]], false⟩ := by
    rw [hplace]
    rfl
  constructor
  · exact ((input_key_spec opens opens' ⟨[], false⟩ ⟨[], false⟩ place place).2 _ _ hread hread'
      rfl rfl).1 rfl
  · intro heq
    have hkeys := (((input_key_spec opens opens ⟨[], false⟩ ⟨[[1, 2], [4]], false⟩ place .stdin).2
      _ _ hread rfl rfl rfl).2 [1, 2] [] 3 4 rfl rfl (by decide)).mp heq
    revert hkeys
    decide +kernel

end CsProxy
end CsTrace
