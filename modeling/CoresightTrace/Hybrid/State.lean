import CoresightTrace.Framework.DirectMap
import CoresightTrace.Hybrid.Maps

/-!
# The hybrid filter's state and operations

`hybrid.c` as a state and functions on it. The file's static variables are the
fields of `Hybrid`, under the source's names; each entry point takes the state
and returns the one it leaves. Pointers that are `NULL` until first use are
`Option`s, and the two caches are direct-mapped tables.

`purge_check()` compares and scales in double precision. What the rest of the
filter sees of it is only what it decided, so its decision is a `PurgePolicy`,
a function of the state, and every operation takes the policy of its own call.
`sourcePolicy` is the decision the source computes, over the five
double-precision operations it uses (`PurgeArith`); `PurgeArith.exact` reads
those as exact rational arithmetic truncated on assignment.

Diagnostics (`report()`, the `[HYBRID]` lines) change no state and are left out.
-/

namespace CsTrace
namespace Hybrid

/-- `CACHE_SLOTS`. -/
abbrev cacheSlots : ℕ := 256

/-- `INPUT_SLOTS`. -/
abbrev inputSlots : ℕ := 64

/-- `cksum % CACHE_SLOTS`. -/
def cacheSlot (cksum : BitVec 32) : Fin cacheSlots :=
  ⟨cksum.toNat % cacheSlots, Nat.mod_lt _ (by decide)⟩

/-- `key % INPUT_SLOTS`. -/
def inputSlot (key : BitVec 64) : Fin inputSlots :=
  ⟨key.toNat % inputSlots, Nat.mod_lt _ (by decide)⟩

/-- `hybrid_verdict_t`. -/
inductive HybridVerdict
  | discard
  | confirm
  deriving DecidableEq, Repr

/-- The static variables of `hybrid.c`, for maps of `n = map_size` bytes. -/
structure State (n : ℕ) where
  virginAtom : CovMap n
  virginAtomReal : CovMap n
  virginEdge : CovMap n
  virginMissed : CovMap n
  pathCls : CovMap n
  pathKept : CovMap n
  edgeCls : CovMap n
  pathKeptCksum : BitVec 32
  pathKeptOverflow : Bool
  pathKeptInput : BitVec 64
  /-- The last discard came from the checksum filter. -/
  lastFiltered : Bool
  atomCheckUp : BitVec 16 → Bool
  atomCheckDown : BitVec 16 → Bool
  /-- Confirmed path to edge map, direct-mapped on the path checksum. -/
  cache : DirectMap (Fin cacheSlots) (BitVec 32) (CovMap n)
  /-- Input key to the edge map first shown for it. -/
  inputs : DirectMap (Fin inputSlots) (BitVec 64) (CovMap n)
  realExecs : ℕ
  pathExecs : ℕ
  queuedAtomPaths : ℕ
  preRealExecs : ℕ
  preVirginBits : ℕ
  purgeInterval : ℕ
  purgeAttempt : ℕ
  purgeReal : ℕ
  nFiltered : ℕ
  nOldPath : ℕ
  nConfirmed : ℕ
  nNewEdges : ℕ
  nCacheHits : ℕ
  nNewTuples : ℕ
  nInputHits : ℕ
  nEmpty : ℕ
  nSampled : ℕ
  nSampleOverflow : ℕ
  nSampleNew : ℕ
  nSampleNewTuples : ℕ
  nSampleNewFiltered : ℕ

variable {n : ℕ}

/-- `PURGE_INTERVAL_LEVEL1` to `4`. -/
abbrev purgeIntervalLevel1 : ℕ := 3000
@[inherit_doc purgeIntervalLevel1] abbrev purgeIntervalLevel2 : ℕ := 7500
@[inherit_doc purgeIntervalLevel1] abbrev purgeIntervalLevel3 : ℕ := 15000
@[inherit_doc purgeIntervalLevel1] abbrev purgeIntervalLevel4 : ℕ := 30000

/-- `hybrid_init()` over zeroed static storage. The three scratch maps come from
`malloc` and hold whatever the memory held. -/
def hybridInit (pathCls pathKept edgeCls : CovMap n) : State n where
  virginAtom := fun _ => 0xff
  virginAtomReal := fun _ => 0xff
  virginEdge := fun _ => 0xff
  virginMissed := fun _ => 0xff
  pathCls := pathCls
  pathKept := pathKept
  edgeCls := edgeCls
  pathKeptCksum := 0
  pathKeptOverflow := false
  pathKeptInput := 0
  lastFiltered := false
  atomCheckUp := fun _ => false
  atomCheckDown := fun _ => false
  cache := fun _ => none
  inputs := fun _ => none
  realExecs := 0
  pathExecs := 0
  queuedAtomPaths := 0
  preRealExecs := 0
  preVirginBits := 0
  purgeInterval := purgeIntervalLevel1
  purgeAttempt := 0
  purgeReal := 0
  nFiltered := 0
  nOldPath := 0
  nConfirmed := 0
  nNewEdges := 0
  nCacheHits := 0
  nNewTuples := 0
  nInputHits := 0
  nEmpty := 0
  nSampled := 0
  nSampleOverflow := 0
  nSampleNew := 0
  nSampleNewTuples := 0
  nSampleNewFiltered := 0

/-! ### The purge -/

/-- What one call of `purge_check()` decides. -/
inductive PurgeDecision
  /-- The interval has not elapsed. -/
  | wait
  /-- The interval has elapsed and nothing is forgotten. -/
  | keep
  /-- `virgin_atom` is reset to `virgin_atom_real`; the next interval. -/
  | purge (interval : ℕ)
  deriving DecidableEq, Repr

/-- Whether the decision rewrites `virgin_atom`. -/
def PurgeDecision.purges : PurgeDecision → Bool
  | .purge _ => true
  | _ => false

/-- A decision for every state `purge_check()` may find, its exec counter
already incremented. -/
abbrev PurgePolicy (n : ℕ) := State n → PurgeDecision

/-- The double-precision operations of `purge_check()`. -/
structure PurgeArith where
  /-- `bits <= 1.01 * pre`. -/
  stalled : ℕ → ℕ → Bool
  /-- `queued < 0.1 * execs`. -/
  belowTenth : ℕ → ℕ → Bool
  /-- `queued < 0.25 * execs`. -/
  belowQuarter : ℕ → ℕ → Bool
  /-- `queued < 0.5 * execs`. -/
  belowHalf : ℕ → ℕ → Bool
  /-- `interval * (attempt * 1.0 / real)`, truncated on assignment. -/
  scale : ℕ → ℕ → ℕ → ℕ

/-- The double-precision operations read as exact rational arithmetic. -/
def PurgeArith.exact : PurgeArith where
  stalled bits pre := decide (100 * bits ≤ 101 * pre)
  belowTenth queued execs := decide (10 * queued < execs)
  belowQuarter queued execs := decide (4 * queued < execs)
  belowHalf queued execs := decide (2 * queued < execs)
  scale interval attempt real := interval * attempt / real

/-- The interval a purge leaves, `s.purgeReal` already counting it. -/
def nextPurgeInterval (A : PurgeArith) (s : State n) : ℕ :=
  if 20 < s.purgeReal then
    -- the four levels, by the share of confirmed paths among the execs
    let level :=
      if A.belowTenth s.queuedAtomPaths s.pathExecs then purgeIntervalLevel1
      else if A.belowQuarter s.queuedAtomPaths s.pathExecs then purgeIntervalLevel2
      else if A.belowHalf s.queuedAtomPaths s.pathExecs then purgeIntervalLevel3
      else purgeIntervalLevel4
    let scaled := A.scale level s.purgeAttempt s.purgeReal
    if purgeIntervalLevel4 < scaled then purgeIntervalLevel4 else scaled
  else s.purgeInterval

/-- The decision `purge_check()` computes. -/
def sourcePolicy (A : PurgeArith) : PurgePolicy n := fun s =>
  if s.realExecs - s.preRealExecs < s.purgeInterval then .wait
  else if A.stalled (countNon255Bytes s.virginEdge) s.preVirginBits ∨
      countNon255Bytes s.virginAtomReal * 2 < countNon255Bytes s.virginAtom then
    .purge (nextPurgeInterval A { s with purgeReal := s.purgeReal + 1 })
  else .keep

/-- The end of `purge_check()` once the interval has elapsed. -/
def endPurgeAttempt (s : State n) : State n :=
  { s with
    preVirginBits := countNon255Bytes s.virginEdge
    preRealExecs := s.realExecs
    purgeAttempt := s.purgeAttempt + 1 }

/-- `purge_check()` under the decision of `π`. -/
def purgeCheck (π : PurgePolicy n) (s : State n) : State n :=
  -- `real_execs` counts every call, and the decision reads the new count
  let s := { s with realExecs := s.realExecs + 1 }
  match π s with
  | .wait => s
  | .keep => endPurgeAttempt s
  | .purge interval =>
    endPurgeAttempt { s with
      virginAtom := s.virginAtomReal
      purgeReal := s.purgeReal + 1
      purgeInterval := interval }

/-- Whether `purge_check()`, called in `s`, rewrites `virgin_atom`. -/
def purges (π : PurgePolicy n) (s : State n) : Bool :=
  (π { s with realExecs := s.realExecs + 1 }).purges

/-! ### Discarding -/

/-- `remember_input()`. -/
def rememberInput (key : BitVec 64) (map : CovMap n) (s : State n) : State n :=
  if key = 0 ∨ (DirectMap.lookup inputSlot s.inputs key).isSome then s
  else { s with inputs := DirectMap.store inputSlot s.inputs key map }

/-- `discard()`: the map left in the shared buffer, and the state. -/
def discard (cksum : BitVec 32) (key : BitVec 64) (s : State n) : CovMap n × State n :=
  match if key = 0 then none else DirectMap.lookup inputSlot s.inputs key with
  -- the input was shown a map before: the same one again
  | some map => (map, { s with nInputHits := s.nInputHits + 1 })
  | none =>
    match DirectMap.lookup cacheSlot s.cache cksum with
    | some map =>
      -- the path was confirmed before, with this edge map
      let s := rememberInput key map s
      (map, { s with nCacheHits := s.nCacheHits + 1 })
    -- `memset(map, 0, map_size)`
    | none => (fun _ => 0, { s with nEmpty := s.nEmpty + 1 })

/-! ### Entry points -/

/-- What `hybrid_after_path()` leaves: its verdict, the shared map, the state. -/
structure PathResult (n : ℕ) where
  verdict : HybridVerdict
  map : CovMap n
  st : State n

/-- Whether the checksum filter holds both halves of a checksum. -/
def filtered (s : State n) (cksum : BitVec 32) : Bool :=
  s.atomCheckUp (upperHalf cksum) && s.atomCheckDown (lowerHalf cksum)

/-- `hybrid_after_path()`. -/
def hybridAfterPath (π : PurgePolicy n) (map : CovMap n) (overflowed : Bool)
    (inputKey : BitVec 64) (s : State n) : PathResult n :=
  let s := purgeCheck π { s with pathExecs := s.pathExecs + 1 }
  let cksum := checksum map
  let s := { s with pathCls := classify map, lastFiltered := false }
  if filtered s cksum then
    -- both halves are marked: a path that led nowhere, or a collision with two such
    let s := { s with nFiltered := s.nFiltered + 1, lastFiltered := true }
    let shown := discard cksum inputKey s
    ⟨.discard, shown.1, shown.2⟩
  else
    -- `virgin_atom` is written even when the path is then discarded
    let novelty := hasNewBits s.virginAtom s.pathCls
    let s := { s with virginAtom := novelty.2 }
    if novelty.1 = 0 then
      let s := { s with nOldPath := s.nOldPath + 1 }
      let shown := discard cksum inputKey s
      ⟨.discard, shown.1, shown.2⟩
    else
      -- the path is kept aside until its edge pass
      ⟨.confirm, map, { s with
        queuedAtomPaths := s.queuedAtomPaths + 1
        pathKept := s.pathCls
        pathKeptCksum := cksum
        pathKeptOverflow := overflowed
        pathKeptInput := inputKey
        nConfirmed := s.nConfirmed + 1 }⟩

/-- The novelty bookkeeping of `hybrid_after_confirm()`. -/
def noteEdges (s : State n) : State n :=
  let novelty := hasNewBits s.virginEdge s.edgeCls
  let s := { s with virginEdge := novelty.2 }
  if novelty.1 ≠ 0 then
    { s with
      -- the path led to new edges
      virginAtomReal := (hasNewBits s.virginAtomReal s.pathKept).2
      nNewEdges := s.nNewEdges + 1
      nNewTuples := if novelty.1 = 2 then s.nNewTuples + 1 else s.nNewTuples }
  else
    { s with
      -- the path led nowhere: both halves of its checksum are marked
      atomCheckUp := Function.update s.atomCheckUp (upperHalf s.pathKeptCksum) true
      atomCheckDown := Function.update s.atomCheckDown (lowerHalf s.pathKeptCksum) true }

/-- The table updates of `hybrid_after_confirm()`: a truncated trace on either
pass would pin the wrong edges to the path. -/
def keepEdges (map : CovMap n) (overflowed : Bool) (s : State n) : State n :=
  if !overflowed && !s.pathKeptOverflow then
    rememberInput s.pathKeptInput map
      { s with cache := DirectMap.store cacheSlot s.cache s.pathKeptCksum map }
  else s

/-- `hybrid_after_confirm()`. -/
def hybridAfterConfirm (π : PurgePolicy n) (map : CovMap n) (overflowed : Bool)
    (s : State n) : State n :=
  let s := purgeCheck π s
  let s := noteEdges { s with edgeCls := classify map }
  keepEdges map overflowed s

/-- `hybrid_after_sample()`. -/
def hybridAfterSample (map : CovMap n) (overflowed : Bool) (s : State n) : State n :=
  if overflowed then { s with nSampleOverflow := s.nSampleOverflow + 1 }
  else
    let s := { s with nSampled := s.nSampled + 1, edgeCls := classify map }
    let newBits := peekNewBits s.virginEdge s.edgeCls
    let s :=
      if newBits ≠ 0 then
        { s with
          nSampleNew := s.nSampleNew + 1
          nSampleNewTuples := if newBits = 2 then s.nSampleNewTuples + 1 else s.nSampleNewTuples
          nSampleNewFiltered :=
            if s.lastFiltered then s.nSampleNewFiltered + 1 else s.nSampleNewFiltered }
      else s
    -- `virgin_edge` is only read
    { s with virginMissed := (hasNewBits s.virginMissed s.edgeCls).2 }

/-! ### What the purge may change

Everything but `virgin_atom` and the purge counters survives `purge_check()`. -/

section PurgeCheck

variable (π : PurgePolicy n) (s : State n)

@[simp] theorem purgeCheck_virginAtomReal : (purgeCheck π s).virginAtomReal = s.virginAtomReal := by
  unfold purgeCheck endPurgeAttempt; dsimp only; split <;> rfl

@[simp] theorem purgeCheck_virginEdge : (purgeCheck π s).virginEdge = s.virginEdge := by
  unfold purgeCheck endPurgeAttempt; dsimp only; split <;> rfl

@[simp] theorem purgeCheck_cache : (purgeCheck π s).cache = s.cache := by
  unfold purgeCheck endPurgeAttempt; dsimp only; split <;> rfl

@[simp] theorem purgeCheck_inputs : (purgeCheck π s).inputs = s.inputs := by
  unfold purgeCheck endPurgeAttempt; dsimp only; split <;> rfl

@[simp] theorem purgeCheck_atomCheckUp : (purgeCheck π s).atomCheckUp = s.atomCheckUp := by
  unfold purgeCheck endPurgeAttempt; dsimp only; split <;> rfl

@[simp] theorem purgeCheck_atomCheckDown : (purgeCheck π s).atomCheckDown = s.atomCheckDown := by
  unfold purgeCheck endPurgeAttempt; dsimp only; split <;> rfl

@[simp] theorem purgeCheck_pathKept : (purgeCheck π s).pathKept = s.pathKept := by
  unfold purgeCheck endPurgeAttempt; dsimp only; split <;> rfl

@[simp] theorem purgeCheck_pathKeptCksum : (purgeCheck π s).pathKeptCksum = s.pathKeptCksum := by
  unfold purgeCheck endPurgeAttempt; dsimp only; split <;> rfl

@[simp] theorem purgeCheck_pathKeptOverflow :
    (purgeCheck π s).pathKeptOverflow = s.pathKeptOverflow := by
  unfold purgeCheck endPurgeAttempt; dsimp only; split <;> rfl

@[simp] theorem purgeCheck_pathKeptInput : (purgeCheck π s).pathKeptInput = s.pathKeptInput := by
  unfold purgeCheck endPurgeAttempt; dsimp only; split <;> rfl

/-- A purge resets `virgin_atom` to `virgin_atom_real`. -/
theorem purgeCheck_virginAtom :
    (purgeCheck π s).virginAtom = if purges π s then s.virginAtomReal else s.virginAtom := by
  unfold purgeCheck purges endPurgeAttempt
  dsimp only
  split <;> simp_all [PurgeDecision.purges]

end PurgeCheck

/-! ### What a discard shows and changes -/

section Discard

variable (cksum : BitVec 32) (key : BitVec 64) (map : CovMap n) (s : State n)

/-- The input table after `remember_input()`. -/
theorem rememberInput_inputs :
    (rememberInput key map s).inputs =
      if key = 0 ∨ (DirectMap.lookup inputSlot s.inputs key).isSome then s.inputs
      else DirectMap.store inputSlot s.inputs key map := by
  unfold rememberInput
  split <;> rfl

/-- `remember_input()` changes the input table only. -/
theorem rememberInput_eq :
    rememberInput key map s = { s with inputs := (rememberInput key map s).inputs } := by
  unfold rememberInput
  split <;> rfl

/-- `discard()` changes the input table and three counters only. -/
theorem discard_eq :
    (discard cksum key s).2 = { s with
      inputs := (discard cksum key s).2.inputs
      nInputHits := (discard cksum key s).2.nInputHits
      nCacheHits := (discard cksum key s).2.nCacheHits
      nEmpty := (discard cksum key s).2.nEmpty } := by
  unfold discard
  split
  · rfl
  · split
    · dsimp only
      -- the cached map is remembered for the input, in the input table
      rw [rememberInput_eq]
    · rfl

@[simp] theorem discard_virginAtom : (discard cksum key s).2.virginAtom = s.virginAtom := by
  rw [discard_eq]

@[simp] theorem discard_virginAtomReal :
    (discard cksum key s).2.virginAtomReal = s.virginAtomReal := by
  rw [discard_eq]

@[simp] theorem discard_virginEdge : (discard cksum key s).2.virginEdge = s.virginEdge := by
  rw [discard_eq]

@[simp] theorem discard_cache : (discard cksum key s).2.cache = s.cache := by
  rw [discard_eq]

@[simp] theorem discard_atomCheckUp : (discard cksum key s).2.atomCheckUp = s.atomCheckUp := by
  rw [discard_eq]

@[simp] theorem discard_atomCheckDown :
    (discard cksum key s).2.atomCheckDown = s.atomCheckDown := by
  rw [discard_eq]

@[simp] theorem discard_realExecs : (discard cksum key s).2.realExecs = s.realExecs := by
  rw [discard_eq]

@[simp] theorem discard_preRealExecs : (discard cksum key s).2.preRealExecs = s.preRealExecs := by
  rw [discard_eq]

@[simp] theorem discard_preVirginBits :
    (discard cksum key s).2.preVirginBits = s.preVirginBits := by
  rw [discard_eq]

@[simp] theorem discard_purgeInterval :
    (discard cksum key s).2.purgeInterval = s.purgeInterval := by
  rw [discard_eq]

/-- An input whose slot holds it gets its map again, and the slot keeps it. -/
theorem discard_of_input {key : BitVec 64} (hk : key ≠ 0)
    (h : s.inputs (inputSlot key) = some (key, map)) :
    (discard cksum key s).1 = map ∧ (discard cksum key s).2.inputs = s.inputs := by
  unfold discard
  rw [if_neg hk, DirectMap.lookup_eq_some_iff.mpr h]
  exact ⟨rfl, rfl⟩

/-- An input whose slot does not hold it misses. -/
theorem input_miss {key : BitVec 64}
    (hk : key = 0 ∨ ∀ m, s.inputs (inputSlot key) ≠ some (key, m)) :
    (if key = 0 then none else DirectMap.lookup inputSlot s.inputs key) = none := by
  rcases hk with rfl | hk
  · rfl
  · split
    · rfl
    · exact Option.eq_none_iff_forall_ne_some.mpr
        fun m hm => hk m (DirectMap.lookup_eq_some_iff.mp hm)

/-- Otherwise a path whose cache slot holds it gets the cached map, which the
input then takes for its own. -/
theorem discard_of_cache {key : BitVec 64}
    (hk : key = 0 ∨ ∀ m, s.inputs (inputSlot key) ≠ some (key, m))
    (h : s.cache (cacheSlot cksum) = some (cksum, map)) :
    (discard cksum key s).1 = map ∧
      (discard cksum key s).2.inputs =
        if key = 0 then s.inputs else DirectMap.store inputSlot s.inputs key map := by
  have hin := input_miss s hk
  unfold discard
  rw [hin, DirectMap.lookup_eq_some_iff.mpr h]
  refine ⟨rfl, ?_⟩
  dsimp only
  rw [rememberInput_inputs]
  by_cases h0 : key = 0
  · simp [h0]
  · -- a known key that missed is stored
    rw [if_neg h0] at hin
    rw [hin, if_neg h0]
    exact if_neg (by simpa using h0)

/-- With neither, the shared map is zeroed. -/
theorem discard_of_neither {key : BitVec 64}
    (hk : key = 0 ∨ ∀ m, s.inputs (inputSlot key) ≠ some (key, m))
    (h : ∀ m, s.cache (cacheSlot cksum) ≠ some (cksum, m)) :
    (discard cksum key s).1 = (fun _ => 0) ∧ (discard cksum key s).2.inputs = s.inputs := by
  have hin := input_miss s hk
  -- neither table answers
  have hc : DirectMap.lookup cacheSlot s.cache cksum = none :=
    Option.eq_none_iff_forall_ne_some.mpr fun m hm => h m (DirectMap.lookup_eq_some_iff.mp hm)
  unfold discard
  rw [hin, hc]
  exact ⟨rfl, rfl⟩

/-- The input table after a discard: a cached map is remembered for the input
unless its slot already holds it. -/
theorem discard_inputs :
    (discard cksum key s).2.inputs =
      match DirectMap.lookup cacheSlot s.cache cksum with
      | some map =>
        if key = 0 ∨ (DirectMap.lookup inputSlot s.inputs key).isSome then s.inputs
        else DirectMap.store inputSlot s.inputs key map
      | none => s.inputs := by
  unfold discard
  split
  · next m hm =>
    -- the input's own map was shown, so the slot already holds the key
    by_cases h0 : key = 0
    · simp [h0] at hm
    · rw [if_neg h0] at hm
      cases DirectMap.lookup cacheSlot s.cache cksum <;> simp [hm]
  · cases DirectMap.lookup cacheSlot s.cache cksum with
    | none => rfl
    | some map => exact rememberInput_inputs key map s

/-- `discard()` reads the two tables only. -/
theorem discard_congr {s s' : State n} (hi : s'.inputs = s.inputs) (hc : s'.cache = s.cache) :
    (discard cksum key s').1 = (discard cksum key s).1 ∧
      (discard cksum key s').2.inputs = (discard cksum key s).2.inputs := by
  unfold discard
  rw [hi, hc]
  split
  · exact ⟨rfl, rfl⟩
  · split
    · -- what is remembered depends on the input table alone
      exact ⟨rfl, by dsimp only; rw [rememberInput_inputs, rememberInput_inputs, hi]⟩
    · exact ⟨rfl, rfl⟩

end Discard

/-! ### The path pass -/

section AfterPath

variable (π : PurgePolicy n) (map : CovMap n) (overflowed : Bool) (key : BitVec 64) (s : State n)

/-- Whether the purge check of a path pass entered in `s` rewrites
`virgin_atom`. -/
def pathPurges (π : PurgePolicy n) (s : State n) : Bool :=
  purges π { s with pathExecs := s.pathExecs + 1 }

/-- `virgin_atom` as a path pass entered in `s` finds it after its purge
check. -/
def atomAtTest (π : PurgePolicy n) (s : State n) : CovMap n :=
  if pathPurges π s then s.virginAtomReal else s.virginAtom

theorem purgeCheck_atomAtTest :
    (purgeCheck π { s with pathExecs := s.pathExecs + 1 }).virginAtom = atomAtTest π s :=
  purgeCheck_virginAtom π _

@[simp] theorem hybridAfterPath_virginAtomReal :
    (hybridAfterPath π map overflowed key s).st.virginAtomReal = s.virginAtomReal := by
  unfold hybridAfterPath
  dsimp only
  split_ifs <;> simp

@[simp] theorem hybridAfterPath_virginEdge :
    (hybridAfterPath π map overflowed key s).st.virginEdge = s.virginEdge := by
  unfold hybridAfterPath
  dsimp only
  split_ifs <;> simp

@[simp] theorem hybridAfterPath_cache :
    (hybridAfterPath π map overflowed key s).st.cache = s.cache := by
  unfold hybridAfterPath
  dsimp only
  split_ifs <;> simp

@[simp] theorem hybridAfterPath_atomCheckUp :
    (hybridAfterPath π map overflowed key s).st.atomCheckUp = s.atomCheckUp := by
  unfold hybridAfterPath
  dsimp only
  split_ifs <;> simp

@[simp] theorem hybridAfterPath_atomCheckDown :
    (hybridAfterPath π map overflowed key s).st.atomCheckDown = s.atomCheckDown := by
  unfold hybridAfterPath
  dsimp only
  split_ifs <;> simp

/-! The purge counters are the purge check's. -/

@[simp] theorem hybridAfterPath_realExecs :
    (hybridAfterPath π map overflowed key s).st.realExecs =
      (purgeCheck π { s with pathExecs := s.pathExecs + 1 }).realExecs := by
  unfold hybridAfterPath
  dsimp only
  split_ifs <;> simp

@[simp] theorem hybridAfterPath_preRealExecs :
    (hybridAfterPath π map overflowed key s).st.preRealExecs =
      (purgeCheck π { s with pathExecs := s.pathExecs + 1 }).preRealExecs := by
  unfold hybridAfterPath
  dsimp only
  split_ifs <;> simp

@[simp] theorem hybridAfterPath_preVirginBits :
    (hybridAfterPath π map overflowed key s).st.preVirginBits =
      (purgeCheck π { s with pathExecs := s.pathExecs + 1 }).preVirginBits := by
  unfold hybridAfterPath
  dsimp only
  split_ifs <;> simp

@[simp] theorem hybridAfterPath_purgeInterval :
    (hybridAfterPath π map overflowed key s).st.purgeInterval =
      (purgeCheck π { s with pathExecs := s.pathExecs + 1 }).purgeInterval := by
  unfold hybridAfterPath
  dsimp only
  split_ifs <;> simp

/-- **The path pass's verdict.** Confirm exactly when the checksum filter lets
the path through and `virgin_atom` has a bit of it. -/
theorem hybridAfterPath_verdict :
    (hybridAfterPath π map overflowed key s).verdict =
      if filtered s (checksum map) ∨ newBitsLevel (atomAtTest π s) (classify map) = 0 then
        .discard
      else .confirm := by
  unfold hybridAfterPath
  -- the test reads the filter's tables and `virgin_atom` after the purge check
  simp only [hasNewBits_ret, purgeCheck_atomAtTest, filtered, purgeCheck_atomCheckUp,
    purgeCheck_atomCheckDown]
  split_ifs <;> simp_all

/-- `virgin_atom` loses the path's bits unless the filter stops it first. -/
theorem hybridAfterPath_virginAtom :
    (hybridAfterPath π map overflowed key s).st.virginAtom =
      if filtered s (checksum map) then atomAtTest π s
      else (hasNewBits (atomAtTest π s) (classify map)).2 := by
  unfold hybridAfterPath
  simp only [purgeCheck_atomAtTest, filtered, purgeCheck_atomCheckUp, purgeCheck_atomCheckDown]
  split_ifs <;> simp_all

/-- A discarded path leaves what `discard()` shows and remembers. -/
theorem hybridAfterPath_of_discard
    (h : (hybridAfterPath π map overflowed key s).verdict = .discard) :
    (hybridAfterPath π map overflowed key s).map = (discard (checksum map) key s).1 ∧
      (hybridAfterPath π map overflowed key s).st.inputs =
        (discard (checksum map) key s).2.inputs := by
  unfold hybridAfterPath at h ⊢
  dsimp only at h ⊢
  split_ifs at h ⊢
  -- `discard()` runs on a state that differs from `s` outside its two tables
  all_goals exact discard_congr _ _ (purgeCheck_inputs _ _) (purgeCheck_cache _ _)

/-- A path to confirm is kept aside, and the shared map is left as decoded. -/
theorem hybridAfterPath_of_confirm
    (h : (hybridAfterPath π map overflowed key s).verdict = .confirm) :
    (hybridAfterPath π map overflowed key s).map = map ∧
      (hybridAfterPath π map overflowed key s).st.inputs = s.inputs ∧
      (hybridAfterPath π map overflowed key s).st.pathKept = classify map ∧
      (hybridAfterPath π map overflowed key s).st.pathKeptCksum = checksum map ∧
      (hybridAfterPath π map overflowed key s).st.pathKeptOverflow = overflowed ∧
      (hybridAfterPath π map overflowed key s).st.pathKeptInput = key := by
  unfold hybridAfterPath at h ⊢
  dsimp only at h ⊢
  split_ifs at h ⊢
  exact ⟨rfl, purgeCheck_inputs _ _, rfl, rfl, rfl, rfl⟩

end AfterPath

/-! ### The edge pass -/

section AfterConfirm

variable (π : PurgePolicy n) (map : CovMap n) (overflowed : Bool) (s : State n)

@[simp] theorem noteEdges_pathKeptCksum : (noteEdges s).pathKeptCksum = s.pathKeptCksum := by
  unfold noteEdges; dsimp only; split <;> rfl

@[simp] theorem noteEdges_pathKeptOverflow :
    (noteEdges s).pathKeptOverflow = s.pathKeptOverflow := by
  unfold noteEdges; dsimp only; split <;> rfl

@[simp] theorem noteEdges_pathKeptInput : (noteEdges s).pathKeptInput = s.pathKeptInput := by
  unfold noteEdges; dsimp only; split <;> rfl

@[simp] theorem noteEdges_cache : (noteEdges s).cache = s.cache := by
  unfold noteEdges; dsimp only; split <;> rfl

@[simp] theorem noteEdges_inputs : (noteEdges s).inputs = s.inputs := by
  unfold noteEdges; dsimp only; split <;> rfl

@[simp] theorem keepEdges_virginAtom : (keepEdges map overflowed s).virginAtom = s.virginAtom := by
  unfold keepEdges; split
  · rw [rememberInput_eq]
  · rfl

@[simp] theorem keepEdges_virginAtomReal :
    (keepEdges map overflowed s).virginAtomReal = s.virginAtomReal := by
  unfold keepEdges; split
  · rw [rememberInput_eq]
  · rfl

@[simp] theorem keepEdges_virginEdge : (keepEdges map overflowed s).virginEdge = s.virginEdge := by
  unfold keepEdges; split
  · rw [rememberInput_eq]
  · rfl

@[simp] theorem keepEdges_atomCheckUp :
    (keepEdges map overflowed s).atomCheckUp = s.atomCheckUp := by
  unfold keepEdges; split
  · rw [rememberInput_eq]
  · rfl

@[simp] theorem keepEdges_atomCheckDown :
    (keepEdges map overflowed s).atomCheckDown = s.atomCheckDown := by
  unfold keepEdges; split
  · rw [rememberInput_eq]
  · rfl

@[simp] theorem hybridAfterConfirm_virginAtom :
    (hybridAfterConfirm π map overflowed s).virginAtom =
      if purges π s then s.virginAtomReal else s.virginAtom := by
  unfold hybridAfterConfirm noteEdges
  dsimp only
  split <;> simp [purgeCheck_virginAtom]

theorem hybridAfterConfirm_virginEdge :
    (hybridAfterConfirm π map overflowed s).virginEdge =
      (hasNewBits s.virginEdge (classify map)).2 := by
  unfold hybridAfterConfirm noteEdges
  dsimp only
  split <;> simp

/-- The kept path is recorded when its edges are new. -/
theorem hybridAfterConfirm_virginAtomReal :
    (hybridAfterConfirm π map overflowed s).virginAtomReal =
      if newBitsLevel s.virginEdge (classify map) ≠ 0 then
        (hasNewBits s.virginAtomReal s.pathKept).2
      else s.virginAtomReal := by
  unfold hybridAfterConfirm noteEdges
  simp only [hasNewBits_ret, purgeCheck_virginEdge]
  split <;> simp

/-- The kept path's checksum is marked when its edges are not new. -/
theorem hybridAfterConfirm_atomCheckUp :
    (hybridAfterConfirm π map overflowed s).atomCheckUp =
      if newBitsLevel s.virginEdge (classify map) ≠ 0 then s.atomCheckUp
      else Function.update s.atomCheckUp (upperHalf s.pathKeptCksum) true := by
  unfold hybridAfterConfirm noteEdges
  simp only [hasNewBits_ret, purgeCheck_virginEdge]
  split <;> simp

@[inherit_doc hybridAfterConfirm_atomCheckUp]
theorem hybridAfterConfirm_atomCheckDown :
    (hybridAfterConfirm π map overflowed s).atomCheckDown =
      if newBitsLevel s.virginEdge (classify map) ≠ 0 then s.atomCheckDown
      else Function.update s.atomCheckDown (lowerHalf s.pathKeptCksum) true := by
  unfold hybridAfterConfirm noteEdges
  simp only [hasNewBits_ret, purgeCheck_virginEdge]
  split <;> simp

/-- The path cache after a confirm: taken over unless a pass was truncated. -/
theorem hybridAfterConfirm_cache :
    (hybridAfterConfirm π map overflowed s).cache =
      if !overflowed && !s.pathKeptOverflow then
        DirectMap.store cacheSlot s.cache s.pathKeptCksum map
      else s.cache := by
  unfold hybridAfterConfirm keepEdges
  simp only [noteEdges_pathKeptOverflow, purgeCheck_pathKeptOverflow]
  split
  · rw [rememberInput_eq]
    simp
  · simp

/-- The input table after a confirm: the input takes its slot over unless a
pass was truncated or the slot already holds it. -/
theorem hybridAfterConfirm_inputs :
    (hybridAfterConfirm π map overflowed s).inputs =
      if !overflowed && !s.pathKeptOverflow then
        if s.pathKeptInput = 0 ∨
            (DirectMap.lookup inputSlot s.inputs s.pathKeptInput).isSome then s.inputs
        else DirectMap.store inputSlot s.inputs s.pathKeptInput map
      else s.inputs := by
  unfold hybridAfterConfirm keepEdges
  simp only [noteEdges_pathKeptOverflow, purgeCheck_pathKeptOverflow]
  split
  · rw [rememberInput_inputs]
    simp
  · simp

/-! A sample changes only what it counts, the scratch map and `virgin_missed`. -/

@[simp] theorem hybridAfterSample_virginAtom :
    (hybridAfterSample map overflowed s).virginAtom = s.virginAtom := by
  unfold hybridAfterSample; dsimp only; split_ifs <;> rfl

@[simp] theorem hybridAfterSample_virginAtomReal :
    (hybridAfterSample map overflowed s).virginAtomReal = s.virginAtomReal := by
  unfold hybridAfterSample; dsimp only; split_ifs <;> rfl

@[simp] theorem hybridAfterSample_virginEdge :
    (hybridAfterSample map overflowed s).virginEdge = s.virginEdge := by
  unfold hybridAfterSample; dsimp only; split_ifs <;> rfl

@[simp] theorem hybridAfterSample_pathKept :
    (hybridAfterSample map overflowed s).pathKept = s.pathKept := by
  unfold hybridAfterSample; dsimp only; split_ifs <;> rfl

@[simp] theorem hybridAfterSample_pathKeptCksum :
    (hybridAfterSample map overflowed s).pathKeptCksum = s.pathKeptCksum := by
  unfold hybridAfterSample; dsimp only; split_ifs <;> rfl

@[simp] theorem hybridAfterSample_pathKeptOverflow :
    (hybridAfterSample map overflowed s).pathKeptOverflow = s.pathKeptOverflow := by
  unfold hybridAfterSample; dsimp only; split_ifs <;> rfl

@[simp] theorem hybridAfterSample_pathKeptInput :
    (hybridAfterSample map overflowed s).pathKeptInput = s.pathKeptInput := by
  unfold hybridAfterSample; dsimp only; split_ifs <;> rfl

@[simp] theorem hybridAfterSample_atomCheckUp :
    (hybridAfterSample map overflowed s).atomCheckUp = s.atomCheckUp := by
  unfold hybridAfterSample; dsimp only; split_ifs <;> rfl

@[simp] theorem hybridAfterSample_atomCheckDown :
    (hybridAfterSample map overflowed s).atomCheckDown = s.atomCheckDown := by
  unfold hybridAfterSample; dsimp only; split_ifs <;> rfl

@[simp] theorem hybridAfterSample_cache :
    (hybridAfterSample map overflowed s).cache = s.cache := by
  unfold hybridAfterSample; dsimp only; split_ifs <;> rfl

@[simp] theorem hybridAfterSample_inputs :
    (hybridAfterSample map overflowed s).inputs = s.inputs := by
  unfold hybridAfterSample; dsimp only; split_ifs <;> rfl

end AfterConfirm

end Hybrid
end CsTrace
