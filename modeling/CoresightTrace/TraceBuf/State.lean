import CoresightTrace.Framework.Guarded
import CoresightTrace.Framework.Memory

/-!
# The trace buffer

Each execution's trace is collected in one buffer of `common.c`. `alloc_trace_buf()`
sets it up, `fetch_trace()` appends what the ETR holds, growing the buffer when
there is no room, and `decode_trace()` hands what was not yet decoded to the
decoder. Three pointers describe it: `trace_buf`, where it starts, `trace_buf_ptr`,
where the next chunk goes, and `decoded_trace_buf`, up to where it was decoded.

Pointers and sizes are numbers below 2^64, and sums and differences of them are
taken modulo 2^64 (`addr`, `sub64`), as `size_t` and pointer arithmetic are. The
loop that looks for a new size runs on fuel; `growLoop_complete` shows that the
fuel given is enough whenever the loop ends at all, so that a call with no result
is one that never returns.

What the environment answers is in the labels: the addresses of `mmap()` and
`mremap()`, the number of bytes the ETR holds, and what was read. It is bound by
`Fetch.sane` and the guards: mappings are page-aligned and lie in the user's half
of the address space, and no more bytes are read than were asked for.
-/

namespace CsTrace
namespace TraceBuf

/-! ### Arithmetic -/

/-- A byte of the trace. -/
abbrev Byte := BitVec 8

/-- An integer as an address. -/
def addr (x : ℤ) : ℕ :=
  (x % 2 ^ 64).toNat

/-- The difference of two addresses or sizes. -/
def sub64 (a b : ℕ) : ℕ :=
  addr (a - b)

/-- `ALIGN_UP(v, 0x8)`. -/
def alignUp (v : ℕ) : ℕ :=
  addr (v + 7) / 8 * 8

/-- `DEFAULT_TRACE_SIZE`. -/
def defaultTraceSize : ℕ := 0x800000

/-! ### State -/

/-- The static variables of the trace buffer, with the memory it lies in. -/
structure Buf where
  /-- `trace_buf`, 0 for `NULL`. -/
  traceBuf : ℕ
  traceBufSize : ℕ
  traceBufPtr : ℕ
  decodedTraceBuf : ℕ
  mem : Memory Byte
  /-- History: the chunks of this execution that were fetched, oldest first. -/
  chunks : List (List Byte)
  /-- History: the windows of this execution that were decoded, with where they
  start in the buffer. -/
  windows : List (ℕ × List Byte)
  /-- History: the number of chunks fetched before the last decode. -/
  seen : ℕ

/-- The variables before the first execution. -/
def Buf.static (mem : Memory Byte) : Buf :=
  ⟨0, 0, 0, 0, mem, [], [], 0⟩

/-- What does not change in a process. -/
structure Config where
  /-- `etr_direct_read_enabled()`. -/
  direct : Bool
  etrRamSize : ℕ

/-! ### `alloc_trace_buf()` -/

/-- The size of a new buffer. -/
def Config.initialSize (c : Config) : ℕ :=
  if defaultTraceSize < c.etrRamSize then c.etrRamSize else defaultTraceSize

/-- `alloc_trace_buf()`, with what `mmap()` returns. -/
def allocTraceBuf (c : Config) (s : Buf) (mapped : Option ℕ) : Buf :=
  let s := { s with chunks := [], windows := [], seen := 0 }
  if s.traceBuf ≠ 0 ∧ c.direct then
    { s with traceBufPtr := s.traceBuf, decodedTraceBuf := s.traceBuf }
  else
    match mapped with
    -- the old mapping is gone, and its pointers stay
    | none => { s with traceBuf := 0, traceBufSize := 0 }
    | some base =>
      { s with
        traceBuf := base
        traceBufSize := c.initialSize
        traceBufPtr := base
        decodedTraceBuf := base }

/-! ### `fetch_trace()` -/

/-- What a fetch meets: the bytes the ETR holds, what `mremap()` returns if it is
called, what the read returns, and the bytes it stores. -/
structure Fetch where
  len : ℕ
  moved : Option ℕ
  n : ℤ
  data : List Byte

/-- `trace_buf_ptr` is aligned. -/
def Buf.align (s : Buf) : Buf :=
  { s with traceBufPtr := alignUp s.traceBufPtr }

/-- `buf_used`. -/
def Buf.used (s : Buf) : ℕ :=
  sub64 s.traceBufPtr s.traceBuf

/-- `buf_remain`. -/
def Buf.remain (s : Buf) : ℕ :=
  sub64 s.traceBufSize s.used

/-- The loop that doubles the size until there is room. -/
def growLoop : ℕ → ℕ → ℕ → ℕ → Option ℕ
  | 0, _, _, _ => none
  | fuel + 1, size, used, len =>
    if sub64 size used < len then growLoop fuel (addr (size * 2)) used len else some size

/-- `new_trace_buf_size`, if the loop ends. -/
def Buf.newSize (s : Buf) (len : ℕ) : Option ℕ :=
  growLoop 65 (addr (s.traceBufSize * 2)) s.used len

/-- The buffer is moved to `base` with a new size, its contents with it. -/
def Buf.moveTo (s : Buf) (base size : ℕ) : Buf :=
  { s with
    traceBuf := base
    traceBufSize := size
    traceBufPtr := addr (base + s.used)
    decodedTraceBuf := addr (base + sub64 s.decodedTraceBuf s.traceBuf)
    mem := s.mem.move s.traceBuf base s.traceBufSize }

/-- What the read returns. A direct read is made only if there is room for it. -/
def Config.readResult (c : Config) (s : Buf) (f : Fetch) : ℤ :=
  if c.direct then if f.len ≤ s.remain then f.len else 0 else f.n

/-- The read: the pointer is moved by what it returns, be it an error. -/
def Buf.store (c : Config) (s : Buf) (f : Fetch) : Buf :=
  { s with
    traceBufPtr := addr (s.traceBufPtr + c.readResult s f)
    mem := s.mem.write s.traceBufPtr f.data
    chunks := s.chunks ++ [f.data] }

/-- What became of the buffer before the read. -/
inductive Room where
  /-- There is room, in the buffer as it is now. -/
  | enough (s : Buf)
  /-- `mremap()` has failed. -/
  | failed (s : Buf)
  /-- The loop does not end. -/
  | diverges

/-- `fetch_trace()` up to the read. -/
def Buf.makeRoom (s : Buf) (f : Fetch) : Room :=
  let s := s.align
  if f.len ≤ s.remain then .enough s
  else
    match s.newSize f.len with
    | none => .diverges
    | some size =>
      match f.moved with
      | none => .failed s
      | some base => .enough (s.moveTo base size)

/-- `fetch_trace()`, if it returns. -/
def fetchTrace (c : Config) (s : Buf) (f : Fetch) : Option Buf :=
  match s.makeRoom f with
  | .enough s => some (s.store c f)
  | .failed s => some s
  | .diverges => none

/-! ### `decode_trace()` -/

/-- `decode_trace()`, with whether the decoder succeeds. -/
def decodeTrace (s : Buf) (ok : Bool) : Buf :=
  let size := sub64 s.traceBufPtr s.decodedTraceBuf
  { s with
    decodedTraceBuf := if ok then addr (s.decodedTraceBuf + size) else s.decodedTraceBuf
    windows := s.windows ++
      [(sub64 s.decodedTraceBuf s.traceBuf, s.mem.read s.decodedTraceBuf size)]
    seen := s.chunks.length }

/-! ### The machine -/

/-- A call. -/
inductive Label where
  | alloc (mapped : Option ℕ)
  /-- `fetch_trace()` whose `etr_map_open()` fails. -/
  | fetchFails
  | fetch (f : Fetch)
  | decode (ok : Bool)

/-- The end of the addresses a mapping may have. -/
def addressEnd : ℕ := 2 ^ 62

/-- A mapping the kernel may give. -/
def isMapping (base size : ℕ) : Bool :=
  decide (0 < base) && decide (base % 4096 = 0) && decide (0 < size) &&
    decide (base + size ≤ addressEnd)

/-- What `mremap()` returns is a mapping of the size it was asked for. -/
def Fetch.maps (s : Buf) (f : Fetch) : Bool :=
  match s.align.newSize f.len, f.moved with
  | some size, some base => isMapping base size
  | _, _ => true

/-- What the environment keeps to in a fetch that returns: counts are of type `int`,
mappings are sound, no more is read than there is room for, and the bytes stored
are those the read returns. -/
def Fetch.sane (c : Config) (s : Buf) (f : Fetch) : Bool :=
  decide (f.len < 2 ^ 31) && decide (-2 ^ 31 ≤ f.n) && decide (f.n < 2 ^ 31) && f.maps s &&
    match s.makeRoom f with
    | .enough t =>
      decide (c.readResult t f ≤ t.remain) && decide (f.data.length = (c.readResult t f).toNat)
    | .failed _ => true
    | .diverges => false

/-- Whether the call can be made and returns. -/
def enabled (c : Config) (s : Buf) : Label → Bool
  | .alloc mapped => mapped.all fun base => isMapping base c.initialSize
  | .fetchFails => c.direct
  | .fetch f => f.sane c s
  | .decode _ => true

/-- The state the call leads to. -/
def effect (c : Config) (s : Buf) : Label → Buf
  | .alloc mapped => allocTraceBuf c s mapped
  | .fetchFails => s
  | .fetch f => (fetchTrace c s f).getD s
  | .decode ok => decodeTrace s ok

/-- The trace buffer under any sequence of calls. -/
def bufSystem (c : Config) : Guarded Buf Label where
  init s := ∃ mem, s = .static mem
  enabled := enabled c
  effect := effect c

/-! ### What the arithmetic comes to -/

theorem addr_add_of_lt {a b : ℕ} (h : a + b < 2 ^ 64) : addr (a + b) = a + b := by
  unfold addr
  omega

theorem addr_double_of_lt {a : ℕ} (h : a * 2 < 2 ^ 64) : addr (a * 2) = a * 2 := by
  unfold addr
  omega

theorem sub64_of_le {a b : ℕ} (h : b ≤ a) (ha : a < 2 ^ 64) : sub64 a b = a - b := by
  unfold sub64 addr
  omega

/-- Aligning moves a pointer up by less than 8. -/
theorem alignUp_spec {v : ℕ} (h : v + 7 < 2 ^ 64) :
    v ≤ alignUp v ∧ alignUp v < v + 8 ∧ 8 ∣ alignUp v := by
  have haddr : addr (v + 7) = v + 7 := addr_add_of_lt h
  unfold alignUp
  rw [haddr]
  omega

/-! ### The growth loop -/

/-- **The loop ends without wrapping.** The size it ends with is the old one doubled
some number of times, leaves the room asked for, and is less than twice what is
needed unless it was enough from the start. -/
theorem growLoop_ends {k fuel size used len : ℕ} (hk : k < fuel) (hused : used ≤ size)
    (hsize : size < 2 ^ 64) (hlen : used + len ≤ 2 ^ 63) (hroom : used + len ≤ size * 2 ^ k) :
    ∃ j, growLoop fuel size used len = some (size * 2 ^ j) ∧ used + len ≤ size * 2 ^ j ∧
      (j = 0 ∨ size * 2 ^ j < 2 * (used + len)) := by
  induction k generalizing fuel size with
  | zero =>
    obtain ⟨fuel, rfl⟩ : ∃ n, fuel = n + 1 := ⟨fuel - 1, by omega⟩
    refine ⟨0, ?_, hroom, .inl rfl⟩
    rw [growLoop, sub64_of_le hused hsize, if_neg (by omega), pow_zero, mul_one]
  | succ k ih =>
    obtain ⟨fuel, rfl⟩ : ∃ n, fuel = n + 1 := ⟨fuel - 1, by omega⟩
    rw [growLoop, sub64_of_le hused hsize]
    by_cases hsmall : size - used < len
    · -- what is needed is more than the size, so doubling it does not wrap
      rw [if_pos hsmall, addr_double_of_lt (by omega)]
      have hroom' : used + len ≤ size * 2 * 2 ^ k := by
        rw [mul_assoc, ← pow_succ']
        exact hroom
      obtain ⟨j, heq, hle, hlt⟩ := ih (by omega : k < fuel) (by omega) (by omega) hroom'
      have hpow : size * 2 * 2 ^ j = size * 2 ^ (j + 1) := by ring
      rw [hpow] at heq hle hlt
      refine ⟨j + 1, heq, hle, .inr ?_⟩
      rcases hlt with rfl | hlt
      · rw [zero_add, pow_one]
        omega
      · exact hlt
    · refine ⟨0, ?_, ?_, .inl rfl⟩
      · rw [if_neg hsmall, pow_zero, mul_one]
      · rw [pow_zero, mul_one]
        omega

/-- A loop that has not ended goes on from where it is. -/
theorem growLoop_add {a b size used len : ℕ} (hsize : size < 2 ^ 64)
    (h : growLoop a size used len = none) :
    growLoop (a + b) size used len = growLoop b (size * 2 ^ a % 2 ^ 64) used len := by
  induction a generalizing size with
  | zero => rw [Nat.zero_add, pow_zero, mul_one, Nat.mod_eq_of_lt hsize]
  | succ a ih =>
    have hdouble : addr (size * 2) = size * 2 % 2 ^ 64 := by
      unfold addr
      omega
    rw [growLoop] at h
    rw [Nat.add_right_comm, growLoop]
    split at h
    · next hsmall =>
      rw [hdouble] at h
      rw [if_pos hsmall, hdouble, ih (Nat.mod_lt _ (by norm_num)) h, Nat.mod_mul_mod]
      congr 2
      ring
    · cases h

/-- **The fuel is enough.** After 64 rounds the size has become 0 and stays so: a
loop that has not ended by then never ends. -/
theorem growLoop_complete {fuel size used len m : ℕ} (hsize : size < 2 ^ 64)
    (h : growLoop fuel size used len = some m) : growLoop 65 size used len = some m := by
  -- a loop that ends does so with any fuel from there on
  have hmono (a b size : ℕ) (m : ℕ) (h : growLoop a size used len = some m) :
      growLoop (a + b) size used len = some m := by
    induction a generalizing size with
    | zero => cases h
    | succ a ih =>
      rw [growLoop] at h
      rw [Nat.add_right_comm, growLoop]
      split
      · next hsmall =>
        rw [if_pos hsmall] at h
        exact ih _ h
      · next hsmall =>
        rw [if_neg hsmall] at h
        exact h
  by_cases hfuel : fuel ≤ 65
  · obtain ⟨b, hb⟩ := Nat.exists_eq_add_of_le hfuel
    rw [hb]
    exact hmono fuel b size m h
  · obtain ⟨b, rfl⟩ : ∃ b, fuel = 64 + (b + 1) := ⟨fuel - 65, by omega⟩
    cases hrest : growLoop 64 size used len with
    | some m' =>
      rw [hmono 64 (b + 1) size m' hrest] at h
      rw [hmono 64 1 size m' hrest]
      exact h
    | none =>
      have hzero : size * 2 ^ 64 % 2 ^ 64 = 0 := Nat.mul_mod_left _ _
      rw [growLoop_add hsize hrest, hzero, growLoop] at h
      rw [show 65 = 64 + 1 from rfl, growLoop_add hsize hrest, hzero, growLoop]
      split at h
      · -- nothing changes any more
        exfalso
        next hsmall =>
        have hstuck (n : ℕ) : growLoop n (addr (0 * 2)) used len = none := by
          induction n with
          | zero => rfl
          | succ n ih =>
            rw [growLoop]
            have haddr : addr (0 * 2) = 0 := rfl
            rw [haddr] at ih ⊢
            rw [if_pos hsmall]
            exact ih
        rw [Nat.cast_zero, hstuck] at h
        cases h
      · next hsmall =>
        rw [if_neg hsmall]
        exact h

end TraceBuf
end CsTrace
