import CoresightTrace.Framework.RingBuffer
import CoresightTrace.TraceBuf.State

/-!
# Reading the ETR directly

The ETR writes the trace into a u-dma-buf that the process has mapped, as a ring
that is overwritten. `fetch_trace()` may copy the trace from the mapping instead of
having CSAL read it word by word: `etr_pending()` works out from the write pointer,
the read pointer and the wrapped flag how many bytes there are and where they start,
and `etr_direct_read()` copies them in at most two parts.

The pointers are bus addresses, as the registers hold them. The mapping and the
destination are memories indexed by the offset from `etr_map` and from `buf`.

`Ready` is what the two functions agree on: a length that fits the buffer, and a
start within it. Whatever the registers hold, `etr_pending()` leaves a request of
this kind (`etrPending_ready`), and `etr_direct_read()` then copies a window of the
ring (`etrDirectRead_spec`). For the registers of a ring that was written since its
setup the window is what was written last (`direct_read_newest`).
-/

namespace CsTrace
namespace TraceBuf

/-! ### The model -/

/-- `etr_ram_addr` and `etr_ram_size`: the u-dma-buf on the bus. -/
structure EtrRam where
  etrRamAddr : ℕ
  etrRamSize : ℕ
deriving DecidableEq, Repr

/-- What is read of the ETR's registers: the pointers `RWP` and `RRP`, and
`cs_buffer_has_wrapped()`. -/
structure EtrRegs where
  rwp : ℕ
  rrp : ℕ
  hasWrapped : Bool
deriving DecidableEq, Repr

/-- The test both pointers are put to. -/
def EtrRam.outside (c : EtrRam) (p : ℕ) : Bool :=
  decide (p < c.etrRamAddr ∨ addr (c.etrRamAddr + c.etrRamSize) ≤ p)

/-- `etr_pending()`: its result, and what it leaves in `*start`. -/
def etrPending (c : EtrRam) (r : EtrRegs) (start : ℕ) : ℕ × ℕ :=
  if c.outside r.rwp then (0, start)
  else if r.hasWrapped then (c.etrRamSize, sub64 r.rwp c.etrRamAddr)
  else if c.outside r.rrp then (0, start)
  else
    (if r.rrp ≤ r.rwp then sub64 r.rwp r.rrp else sub64 c.etrRamSize (sub64 r.rrp r.rwp),
      sub64 r.rrp c.etrRamAddr)

/-- A `memcpy()` of `n` bytes from offset `src` of `etr_map` to offset `dst` of `buf`. -/
structure Memcpy where
  dst : ℕ
  src : ℕ
  n : ℕ
deriving DecidableEq, Repr

/-- The destination after a `memcpy()`. -/
def Memcpy.run (etrMap : Memory Byte) (buf : Memory Byte) (c : Memcpy) : Memory Byte :=
  buf.write c.dst (etrMap.read c.src c.n)

/-- `first` of `etr_direct_read()`. -/
def EtrRam.first (c : EtrRam) (len start : ℕ) : ℕ :=
  if len < sub64 c.etrRamSize start then len else sub64 c.etrRamSize start

/-- The copies of `etr_direct_read()`, in order. -/
def EtrRam.copies (c : EtrRam) (len start : ℕ) : List Memcpy :=
  [⟨0, start, c.first len start⟩, ⟨c.first len start, 0, sub64 len (c.first len start)⟩]

/-- `(int)v`. -/
def toInt (v : ℕ) : ℤ :=
  (BitVec.ofNat 32 v).toInt

/-- `etr_direct_read()`: the destination it leaves, and its result. -/
def etrDirectRead (c : EtrRam) (etrMap buf : Memory Byte) (len start : ℕ) : Memory Byte × ℤ :=
  ((c.copies len start).foldl (Memcpy.run etrMap) buf, toInt len)

/-- The request of `fetch_trace()`: the number of bytes, which it holds in an `int`,
and their start. -/
def EtrRam.request (c : EtrRam) (r : EtrRegs) : ℕ × ℕ :=
  let pending := etrPending c r 0
  (addr (toInt pending.1), pending.2)

/-- The direct read of `fetch_trace()`, with room for it in the trace buffer. -/
def EtrRam.fetch (c : EtrRam) (r : EtrRegs) (etrMap buf : Memory Byte) : Memory Byte × ℤ :=
  etrDirectRead c etrMap buf (c.request r).1 (c.request r).2

/-- The registers over a ring that was set up with both pointers at its base. -/
def EtrRam.regs (c : EtrRam) (r : RingBuffer Byte) : EtrRegs :=
  ⟨c.etrRamAddr + r.next, c.etrRamAddr, r.wrapped⟩

/-- The buffers the direct read is for: not empty, an `int` holds every length, and the
end of the buffer is an address. -/
structure EtrRam.Proper (c : EtrRam) : Prop where
  pos : 0 < c.etrRamSize
  int : c.etrRamSize < 2 ^ 31
  space : c.etrRamAddr + c.etrRamSize < 2 ^ 64

/-! ### What a request may be -/

/-- A length that fits the buffer, and a start within it. -/
def EtrRam.Ready (c : EtrRam) (request : ℕ × ℕ) : Prop :=
  request.1 ≤ c.etrRamSize ∧ request.2 < c.etrRamSize

section Request

variable {c : EtrRam} (hc : c.Proper)

include hc

theorem EtrRam.Proper.outside_iff (p : ℕ) :
    c.outside p = true ↔ p < c.etrRamAddr ∨ c.etrRamAddr + c.etrRamSize ≤ p := by
  unfold outside
  rw [decide_eq_true_iff, addr_add_of_lt hc.space]

/-- **Every request is for a window of the buffer**, whatever the registers hold. -/
theorem etrPending_ready (r : EtrRegs) : c.Ready (etrPending c r 0) := by
  have hspace := hc.space
  have hpos := hc.pos
  unfold etrPending
  split
  · exact ⟨Nat.zero_le _, hpos⟩
  · next hrwp =>
    rw [hc.outside_iff, not_or] at hrwp
    split
    · refine ⟨le_rfl, ?_⟩
      dsimp only
      rw [sub64_of_le (by omega) (by omega)]
      omega
    · split
      · exact ⟨Nat.zero_le _, hpos⟩
      · next hrrp =>
        rw [hc.outside_iff, not_or] at hrrp
        refine ⟨?_, ?_⟩
        · -- the two pointers are less than the size apart
          dsimp only
          split
          · rw [sub64_of_le (by omega) (by omega)]
            omega
          · rw [sub64_of_le (a := r.rrp) (by omega) (by omega), sub64_of_le (by omega) (by omega)]
            omega
        · dsimp only
          rw [sub64_of_le (by omega) (by omega)]
          omega

/-- The `int` holds the length. -/
theorem EtrRam.Proper.toInt_eq {len : ℕ} (h : len ≤ c.etrRamSize) : toInt len = len := by
  have hint := hc.int
  unfold toInt
  rw [BitVec.toInt_eq_toNat_cond, BitVec.toNat_ofNat, Nat.mod_eq_of_lt (by omega),
    if_pos (by omega)]

theorem EtrRam.Proper.request_eq (r : EtrRegs) : c.request r = etrPending c r 0 := by
  have hle := (etrPending_ready hc r).1
  have hint := hc.int
  unfold request
  dsimp only
  rw [hc.toInt_eq hle]
  unfold addr
  rw [Int.emod_eq_of_lt (by omega) (by omega), Int.toNat_natCast]

/-! ### The copies -/

theorem EtrRam.Proper.first_eq {len start : ℕ} (h : c.Ready (len, start)) :
    c.first len start = min len (c.etrRamSize - start) := by
  obtain ⟨-, hstart⟩ := h
  dsimp only at hstart
  have hint := hc.int
  unfold first
  rw [sub64_of_le (by omega) (by omega)]
  split <;> omega

/-- The copies read within the buffer and write within the first `len` bytes. -/
theorem EtrRam.Proper.copies_bounds {len start : ℕ} (h : c.Ready (len, start)) {k : Memcpy}
    (hk : k ∈ c.copies len start) : k.src + k.n ≤ c.etrRamSize ∧ k.dst + k.n ≤ len := by
  obtain ⟨hlen, hstart⟩ := h
  dsimp only at hlen hstart
  have hint := hc.int
  unfold copies at hk
  rw [hc.first_eq ⟨hlen, hstart⟩, sub64_of_le (min_le_left _ _) (by omega)] at hk
  rcases List.mem_pair.mp hk with rfl | rfl
  · dsimp only
    omega
  · dsimp only
    omega

/-- **The two copies make one window of the ring**, and leave the rest of the
destination alone. -/
theorem etrDirectRead_spec (etrMap buf : Memory Byte) {len start : ℕ}
    (h : c.Ready (len, start)) :
    (etrDirectRead c etrMap buf len start).1.read 0 len =
        RingBuffer.window c.etrRamSize etrMap start len ∧
      (∀ x, len ≤ x → (etrDirectRead c etrMap buf len start).1 x = buf x) ∧
      (etrDirectRead c etrMap buf len start).2 = len := by
  have hfirst := hc.first_eq h
  have hle : c.first len start ≤ len := by omega
  have hint := hc.int
  have hlen := h.1
  dsimp only at hlen
  -- the destination after each copy
  have hrest : sub64 len (c.first len start) = len - c.first len start :=
    sub64_of_le hle (by omega)
  let part := etrMap.read start (c.first len start)
  let rest := etrMap.read 0 (len - c.first len start)
  have hresult : (etrDirectRead c etrMap buf len start).1 =
      (buf.write 0 part).write (c.first len start) rest := by
    unfold etrDirectRead EtrRam.copies Memcpy.run
    rw [List.foldl_cons, List.foldl_cons, List.foldl_nil, hrest]
  have hpart : part.length = c.first len start := Memory.length_read _ _ _
  have hlast : rest.length = len - c.first len start := Memory.length_read _ _ _
  refine ⟨?_, ?_, hc.toInt_eq hlen⟩
  · have hread : ((buf.write 0 part).write (c.first len start) rest).read 0 len = part ++ rest :=
      Memory.read_write_append _ (by omega) (by omega)
    rw [hresult, hread, ← RingBuffer.read_append_read etrMap h.2 h.1]
    dsimp only
    rw [← hfirst]
  · intro x hx
    rw [hresult, Memory.write_of_le _ (by omega), Memory.write_of_le _ (by omega)]

/-! ### The ring's registers -/

/-- For a ring that was written since its setup, all that is left of it is pending,
from the oldest byte on. -/
theorem etrPending_regs (m : Memory Byte) (w : List Byte) :
    etrPending c (c.regs ((RingBuffer.fresh m).pushAll c.etrRamSize w)) 0 =
      (min w.length c.etrRamSize, ((RingBuffer.fresh m).pushAll c.etrRamSize w).oldest) := by
  have hpos := hc.pos
  have hspace := hc.space
  have hnext : ((RingBuffer.fresh m).pushAll c.etrRamSize w).next = w.length % c.etrRamSize :=
    RingBuffer.pushAll_next m w
  have hlt := Nat.mod_lt w.length hpos
  have hrwp : ¬ c.outside (c.etrRamAddr + w.length % c.etrRamSize) = true := by
    rw [hc.outside_iff]
    omega
  have hrrp : ¬ c.outside c.etrRamAddr = true := by
    rw [hc.outside_iff]
    omega
  unfold etrPending EtrRam.regs RingBuffer.oldest
  dsimp only
  rw [RingBuffer.pushAll_wrapped m hpos, hnext, if_neg hrwp]
  by_cases hfull : c.etrRamSize ≤ w.length
  · rw [if_pos (decide_eq_true hfull), if_pos (decide_eq_true hfull),
      sub64_of_le (by omega) (by omega), min_eq_right hfull, Nat.add_sub_cancel_left]
  · -- before the first wrap the bytes lie between the two pointers
    have hlinear : ¬ decide (c.etrRamSize ≤ w.length) = true := by simpa using hfull
    rw [if_neg hlinear, if_neg hrrp, if_neg hlinear, if_pos (Nat.le_add_right _ _),
      sub64_of_le (by omega) (by omega), sub64_of_le le_rfl (by omega), Nat.add_sub_cancel_left,
      Nat.sub_self, Nat.mod_eq_of_lt (by omega), min_eq_left (by omega)]

end Request

/-- Nothing is pending while a pointer that is looked at is outside the buffer. -/
theorem etrPending_outside {c : EtrRam} {r : EtrRegs}
    (h : c.outside r.rwp = true ∨ r.hasWrapped = false ∧ c.outside r.rrp = true) :
    (etrPending c r 0).1 = 0 := by
  unfold etrPending
  split
  · rfl
  · next hrwp =>
    obtain ⟨hwrapped, hrrp⟩ := h.resolve_left hrwp
    rw [if_neg (by simp [hwrapped]), if_pos hrrp]

/-- **A direct read returns the newest bytes in order.** For a ring of any size and
any bytes `w` written to it since its setup, the read copies the last of them, as
many as the ring holds, and these are the bytes of the ring one at a time from the
start on. Whatever the registers hold, it reads offsets of the mapping below its
size and writes the first bytes of the destination, and it copies nothing when the
write pointer is outside the buffer, or the read pointer is and nothing has wrapped. -/
theorem direct_read_newest (c : EtrRam) (hc : c.Proper) (buf : Memory Byte) :
    (∀ (m : Memory Byte) (w : List Byte),
      let ring := (RingBuffer.fresh m).pushAll c.etrRamSize w
      let len := min w.length c.etrRamSize
      let copied := c.fetch (c.regs ring) ring.cells buf
      copied.2 = len ∧ copied.1.read 0 len = w.drop (w.length - len) ∧
        ∃ start < c.etrRamSize, c.request (c.regs ring) = (len, start) ∧
          copied.1.read 0 len =
            (List.range len).map fun k => ring.cells ((start + k) % c.etrRamSize)) ∧
      ∀ (r : EtrRegs) (etrMap : Memory Byte),
        let request := c.request r
        ((r.rwp < c.etrRamAddr ∨ c.etrRamAddr + c.etrRamSize ≤ r.rwp) ∨
            r.hasWrapped = false ∧
              (r.rrp < c.etrRamAddr ∨ c.etrRamAddr + c.etrRamSize ≤ r.rrp) →
          (c.fetch r etrMap buf).1 = buf) ∧
        request.1 ≤ c.etrRamSize ∧
        (∀ k ∈ c.copies request.1 request.2,
          k.src + k.n ≤ c.etrRamSize ∧ k.dst + k.n ≤ request.1) ∧
        ∀ x, request.1 ≤ x → (c.fetch r etrMap buf).1 x = buf x := by
  refine ⟨fun m w => ?_, fun r etrMap => ?_⟩
  · -- what is pending in the ring is its whole content, from the oldest byte on
    intro ring len copied
    have hrequest : c.request (c.regs ring) = (len, ring.oldest) :=
      (hc.request_eq _).trans (etrPending_regs hc m w)
    have hready : c.Ready (len, ring.oldest) := by
      rw [← hrequest, hc.request_eq]
      exact etrPending_ready hc _
    obtain ⟨hread, -, hn⟩ := etrDirectRead_spec hc ring.cells buf hready
    have hcopied : copied = etrDirectRead c ring.cells buf len ring.oldest := by
      change etrDirectRead c ring.cells buf (c.request (c.regs ring)).1 _ = _
      rw [hrequest]
    rw [hcopied]
    refine ⟨hn, hread.trans ?_, ring.oldest, hready.2, hrequest, hread⟩
    exact RingBuffer.window_newest m hc.pos w
  · -- the bounds need nothing of the registers
    intro request
    have hready : c.Ready (request.1, request.2) := by
      change c.Ready (c.request r)
      rw [hc.request_eq]
      exact etrPending_ready hc r
    obtain ⟨-, hframe, -⟩ := etrDirectRead_spec hc etrMap buf hready
    refine ⟨fun hout => ?_, hready.1, fun k hk => hc.copies_bounds hready hk, hframe⟩
    rw [← hc.outside_iff, ← hc.outside_iff] at hout
    have hnone : request.1 = 0 := by
      change (c.request r).1 = 0
      rw [hc.request_eq]
      exact etrPending_outside hout
    funext x
    exact hframe x (by omega)

/-- Five bytes in a ring of four, at an address above 4 GiB: the last four are read. -/
theorem direct_read_newest_wrapped :
    let c : EtrRam := ⟨0x100000000, 4⟩
    let ring := (RingBuffer.fresh fun _ => 0).pushAll 4 [1, 2, 3, 4, 5]
    (c.fetch (c.regs ring) ring.cells fun _ => 0).1.read 0 4 = [2, 3, 4, 5] := by
  have hc : (⟨0x100000000, 4⟩ : EtrRam).Proper := ⟨by decide, by decide, by decide⟩
  exact ((direct_read_newest _ hc fun _ => 0).1 (fun _ => 0) [1, 2, 3, 4, 5]).2.1

end TraceBuf
end CsTrace
