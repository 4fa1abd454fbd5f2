import CoresightTrace.TraceBuf.State

/-!
# The order of the buffer's pointers

`decode_trace()` and `export_trace()` subtract pointers, which is sound as long as
`trace_buf`, `decoded_trace_buf`, `trace_buf_ptr` and the end of the buffer come in
this order (`Ordered`). Three calls can break it.

* `fetch_trace()` moves `trace_buf_ptr` by what the read has returned, also when that
  is an error. A negative result takes the pointer back, and past
  `decoded_trace_buf` if it exceeds what is not yet decoded
  (`error_result_misplaces`).
* `alloc_trace_buf()` that fails has given up the old buffer, and leaves the two
  pointers into it. `start_trace()` ignores that it has failed.
* The pointer is aligned before the room is computed. In a buffer whose size is no
  multiple of 8 it may be aligned to beyond the end.

`KeepsOrder` says when none of this happens, in terms of the state before the call
and what the environment answers, and `pointers_ordered_iff` that it says so exactly.
-/

namespace CsTrace
namespace TraceBuf

variable {c : Config} {s : Buf} {f : Fetch} {l : Label}

/-! ### The order -/

/-- The pointers are in order. -/
structure Ordered (s : Buf) : Prop where
  decoded : s.traceBuf ≤ s.decodedTraceBuf
  ptr : s.decodedTraceBuf ≤ s.traceBufPtr
  size : s.traceBufPtr ≤ s.traceBuf + s.traceBufSize

/-- The buffer is a mapping, if there is one. -/
structure Backed (s : Buf) : Prop where
  aligned : s.traceBuf % 4096 = 0
  mapped : s.traceBuf + s.traceBufSize ≤ addressEnd
  sized : s.traceBuf = 0 ∧ s.traceBufSize = 0 ∨ 0 < s.traceBuf ∧ 0 < s.traceBufSize

/-- The pointers are in order in a buffer that is a mapping. -/
structure Placed (s : Buf) : Prop extends Backed s where
  ordered : Ordered s

/-- The fetch gets to its read: there is room, or `mremap()` makes some. -/
def Fetch.reads (s : Buf) (f : Fetch) : Bool :=
  decide (f.len ≤ s.align.remain) || f.moved.isSome

/-- The call keeps the pointers in order. A new mapping fails only if there was none
before, the aligned pointer is within the buffer, and what the read returns does
not take it below what was decoded. -/
def KeepsOrder (c : Config) (s : Buf) : Label → Bool
  | .alloc none => (s.traceBuf != 0 && c.direct) || s.traceBufPtr == 0
  | .fetch f =>
    (decide (alignUp s.traceBufPtr ≤ s.traceBuf + s.traceBufSize) ||
      (!c.direct && decide (alignUp s.traceBufPtr + f.n ≤ s.traceBuf + s.traceBufSize))) &&
      (c.direct || !f.reads s || decide (s.decodedTraceBuf ≤ alignUp s.traceBufPtr + f.n))
  | _ => true

theorem addressEnd_eq : addressEnd = 2 ^ 62 :=
  rfl

theorem isMapping_iff {base size : ℕ} :
    isMapping base size = true ↔
      0 < base ∧ base % 4096 = 0 ∧ 0 < size ∧ base + size ≤ addressEnd := by
  simp [isMapping, and_assoc]

/-! ### Room -/

section Room

/-- The pointers in order, from the start of the buffer to the end of the addresses. -/
theorem Placed.bounds (h : Placed s) :
    s.traceBuf ≤ s.decodedTraceBuf ∧ s.decodedTraceBuf ≤ s.traceBufPtr ∧
      s.traceBufPtr ≤ s.traceBuf + s.traceBufSize ∧ s.traceBuf + s.traceBufSize ≤ 2 ^ 62 :=
  ⟨h.ordered.decoded, h.ordered.ptr, h.ordered.size, h.mapped⟩

/-- The pointer that the fetch aligns. -/
theorem Placed.align_spec (h : Placed s) :
    s.traceBufPtr ≤ alignUp s.traceBufPtr ∧ alignUp s.traceBufPtr < s.traceBufPtr + 8 ∧
      8 ∣ alignUp s.traceBufPtr := by
  obtain ⟨-, -, hsize, hend⟩ := h.bounds
  exact alignUp_spec (by omega)

theorem Placed.used_align (h : Placed s) :
    s.align.used = alignUp s.traceBufPtr - s.traceBuf := by
  obtain ⟨hd, hp, hs, hend⟩ := h.bounds
  obtain ⟨hle, hlt, -⟩ := h.align_spec
  refine sub64_of_le (hd.trans (hp.trans hle)) ?_
  change alignUp s.traceBufPtr < 2 ^ 64
  omega

/-- The room left in the buffer. -/
theorem Placed.remain_align (h : Placed s)
    (hin : alignUp s.traceBufPtr ≤ s.traceBuf + s.traceBufSize) :
    s.align.remain = s.traceBuf + s.traceBufSize - alignUp s.traceBufPtr := by
  obtain ⟨hd, hp, hs, hend⟩ := h.bounds
  obtain ⟨hle, -⟩ := h.align_spec
  unfold Buf.remain
  rw [h.used_align, sub64_of_le (by change _ ≤ s.traceBufSize; omega)
    (by change s.traceBufSize < _; omega)]
  change s.traceBufSize - _ = _
  omega

/-- Beyond the end the room has wrapped, and is taken to be enough for anything. -/
theorem Placed.remain_align_of_gt (h : Placed s)
    (hout : s.traceBuf + s.traceBufSize < alignUp s.traceBufPtr) (hlen : f.len < 2 ^ 31) :
    f.len ≤ s.align.remain := by
  obtain ⟨hd, hp, hs, hend⟩ := h.bounds
  obtain ⟨hle, hlt, -⟩ := h.align_spec
  unfold Buf.remain
  rw [h.used_align]
  change f.len ≤ sub64 s.traceBufSize _
  unfold sub64 addr
  omega

/-- **The growth loop leaves the room asked for.** -/
theorem Placed.newSize (h : Placed s) (hlen : f.len < 2 ^ 31)
    (hin : alignUp s.traceBufPtr ≤ s.traceBuf + s.traceBufSize) (hpos : 0 < s.traceBufSize) :
    ∃ j, s.align.newSize f.len = some (s.traceBufSize * 2 ^ (j + 1)) ∧
      s.align.used + f.len ≤ s.traceBufSize * 2 ^ (j + 1) ∧
      s.traceBufSize * 2 ^ (j + 1) < 2 ^ 64 := by
  have hmapped : s.traceBuf + s.traceBufSize ≤ 2 ^ 62 := h.mapped
  have hused : s.align.used ≤ s.traceBufSize := by
    rw [h.used_align]
    omega
  have hdouble : addr (s.align.traceBufSize * 2) = s.traceBufSize * 2 :=
    addr_double_of_lt (show s.traceBufSize * 2 < 2 ^ 64 by omega)
  -- 63 doublings are enough for any request
  have hroom : s.align.used + f.len ≤ s.traceBufSize * 2 * 2 ^ 63 := by
    calc s.align.used + f.len ≤ 2 ^ 62 + 2 ^ 31 := by omega
      _ ≤ 1 * 2 * 2 ^ 63 := by omega
      _ ≤ s.traceBufSize * 2 * 2 ^ 63 := by gcongr; exact hpos
  obtain ⟨j, heq, hle, hlt⟩ := growLoop_ends (k := 63) (by omega : 63 < 65)
    (hused.trans (Nat.le_mul_of_pos_right _ two_pos)) (by omega) (by omega) hroom
  have hpow : s.traceBufSize * 2 * 2 ^ j = s.traceBufSize * 2 ^ (j + 1) := by ring
  rw [hpow] at heq hle hlt
  refine ⟨j, ?_, hle, ?_⟩
  · unfold Buf.newSize
    rw [hdouble]
    exact heq
  · rcases hlt with rfl | hlt
    · rw [zero_add, pow_one]
      omega
    · omega

/-- **Where the read leaves the pointer.** -/
theorem store_ordered_iff {t : Buf} (hbuf : t.traceBuf ≤ t.decodedTraceBuf)
    (hend : t.traceBuf + t.traceBufSize ≤ addressEnd) (hptr : t.traceBufPtr < 2 ^ 63)
    (hlo : -2 ^ 31 ≤ c.readResult t f) (hhi : c.readResult t f < 2 ^ 31) :
    Ordered (t.store c f) ↔
      t.decodedTraceBuf ≤ t.traceBufPtr + c.readResult t f ∧
        t.traceBufPtr + c.readResult t f ≤ (t.traceBuf + t.traceBufSize : ℕ) := by
  have hlt := addressEnd_eq
  have hstore : (t.store c f).traceBufPtr = addr (t.traceBufPtr + c.readResult t f) := rfl
  -- a pointer that falls below 0 comes out above every address
  have haddr : (0 ≤ t.traceBufPtr + c.readResult t f ∧
      (addr (t.traceBufPtr + c.readResult t f) : ℤ) = t.traceBufPtr + c.readResult t f) ∨
      (t.traceBufPtr + c.readResult t f < 0 ∧
        2 ^ 63 ≤ addr (t.traceBufPtr + c.readResult t f)) := by
    unfold addr
    omega
  constructor
  · rintro ⟨-, hd, he⟩
    rw [hstore] at hd he
    change t.decodedTraceBuf ≤ _ at hd
    change _ ≤ t.traceBuf + t.traceBufSize at he
    omega
  · rintro ⟨hd, he⟩
    refine ⟨hbuf, ?_, ?_⟩ <;> rw [hstore]
    · change t.decodedTraceBuf ≤ _
      omega
    · change _ ≤ t.traceBuf + t.traceBufSize
      omega

/-- What the environment keeps to, read off the guard. -/
theorem sane_iff : f.sane c s = true ↔
    f.len < 2 ^ 31 ∧ -2 ^ 31 ≤ f.n ∧ f.n < 2 ^ 31 ∧ f.maps s = true ∧
      match s.makeRoom f with
      | .enough t =>
        c.readResult t f ≤ t.remain ∧ f.data.length = (c.readResult t f).toNat
      | .failed _ => True
      | .diverges => False := by
  unfold Fetch.sane
  cases s.makeRoom f <;> simp [and_assoc]

/-- What the read returns is an `int`. -/
theorem readResult_bounds (hlen : f.len < 2 ^ 31) (hlo : -2 ^ 31 ≤ f.n) (hhi : f.n < 2 ^ 31)
    (t : Buf) : -2 ^ 31 ≤ c.readResult t f ∧ c.readResult t f < 2 ^ 31 := by
  unfold Config.readResult
  split
  · split <;> omega
  · exact ⟨hlo, hhi⟩

/-- The buffer `t` that a fetch reads into holds what `s` held, where it was or moved,
with the pointer aligned. -/
structure Kept (s t : Buf) : Prop where
  ptr : t.traceBufPtr = t.traceBuf + (alignUp s.traceBufPtr - s.traceBuf)
  decoded : t.decodedTraceBuf = t.traceBuf + (s.decodedTraceBuf - s.traceBuf)
  within : t.traceBufPtr ≤ t.traceBuf + t.traceBufSize
  mapped : t.traceBuf + t.traceBufSize ≤ addressEnd
  multiple : s.traceBufSize ∣ t.traceBufSize
  size_le : s.traceBufSize ≤ t.traceBufSize
  contents : ∀ k ≤ s.traceBufSize, t.mem.read t.traceBuf k = s.mem.read s.traceBuf k
  chunks : t.chunks = s.chunks
  windows : t.windows = s.windows
  seen : t.seen = s.seen

theorem Kept.remain {t : Buf} (h : Kept s t) :
    t.remain = t.traceBuf + t.traceBufSize - t.traceBufPtr := by
  have hend := addressEnd_eq
  have hptr := h.ptr
  have hwithin := h.within
  have hmapped := h.mapped
  have hused : t.used = t.traceBufPtr - t.traceBuf := sub64_of_le (by omega) (by omega)
  unfold Buf.remain
  rw [hused, sub64_of_le (by omega) (by omega)]
  omega

/-- A buffer with room stays where it is. -/
theorem Placed.kept_align (h : Placed s)
    (hin : alignUp s.traceBufPtr ≤ s.traceBuf + s.traceBufSize) : Kept s s.align := by
  obtain ⟨hd, hp, -, -⟩ := h.bounds
  obtain ⟨hle, -⟩ := h.align_spec
  have hge : s.traceBuf ≤ alignUp s.traceBufPtr := hd.trans (hp.trans hle)
  exact ⟨(Nat.add_sub_cancel' hge).symm, (Nat.add_sub_cancel' hd).symm, hin,
    h.mapped, dvd_rfl, le_rfl, fun _ _ => rfl, rfl, rfl, rfl⟩

/-- **A buffer that is moved keeps its contents and the offsets into it.** -/
theorem Placed.kept_moveTo (h : Placed s) {base size : ℕ} (hmap : isMapping base size = true)
    (hused : s.align.used ≤ size) (hdvd : s.traceBufSize ∣ size) :
    Kept s (s.align.moveTo base size) := by
  have hlast := addressEnd_eq
  obtain ⟨-, -, hpos, hbase⟩ := isMapping_iff.mp hmap
  obtain ⟨hd, hp, hs, hend⟩ := h.bounds
  obtain ⟨hle, -⟩ := h.align_spec
  rw [h.used_align] at hused
  have hptr : (s.align.moveTo base size).traceBufPtr =
      base + (alignUp s.traceBufPtr - s.traceBuf) := by
    change addr (base + s.align.used) = _
    rw [h.used_align, addr_add_of_lt (by omega)]
  refine ⟨hptr, ?_, ?_, hbase, hdvd, Nat.le_of_dvd hpos hdvd, ?_, rfl, rfl, rfl⟩
  · change addr (base + sub64 s.decodedTraceBuf s.traceBuf) = _
    rw [sub64_of_le hd (by omega)]
    exact addr_add_of_lt (by omega)
  · rw [hptr]
    exact Nat.add_le_add_left hused base
  · intro k hk
    exact s.mem.read_move hk

/-- **What becomes of the buffer before the read.** There is no new room and no read,
or the buffer is kept and has room. The loop ends because the buffer is not empty. -/
theorem Placed.makeRoom_cases (h : Placed s) (hlen : f.len < 2 ^ 31) (hmaps : f.maps s = true)
    (hin : alignUp s.traceBufPtr ≤ s.traceBuf + s.traceBufSize)
    (hpos : f.len ≤ s.align.remain ∨ 0 < s.traceBufSize) :
    (f.reads s = false ∧ s.makeRoom f = .failed s.align) ∨
      ∃ t, f.reads s = true ∧ s.makeRoom f = .enough t ∧ f.len ≤ t.remain ∧ Kept s t := by
  by_cases hfits : f.len ≤ s.align.remain
  · exact .inr ⟨s.align, by simp [Fetch.reads, hfits], by simp [Buf.makeRoom, hfits], hfits,
      h.kept_align hin⟩
  · -- the buffer is grown, and moved if `mremap()` succeeds
    obtain ⟨j, hnew, hused, -⟩ := h.newSize hlen hin (hpos.resolve_left hfits)
    cases hmoved : f.moved with
    | none =>
      exact .inl ⟨by simp [Fetch.reads, hfits, hmoved],
        by simp [Buf.makeRoom, hfits, hnew, hmoved]⟩
    | some base =>
      have hmap : isMapping base (s.traceBufSize * 2 ^ (j + 1)) = true := by
        unfold Fetch.maps at hmaps
        rw [hnew, hmoved] at hmaps
        exact hmaps
      have hkept := h.kept_moveTo hmap (by omega) (Dvd.intro _ rfl)
      refine .inr ⟨_, by simp [Fetch.reads, hmoved], by simp [Buf.makeRoom, hfits, hnew, hmoved],
        ?_, hkept⟩
      rw [hkept.remain, hkept.ptr, ← h.used_align]
      change f.len ≤ base + s.traceBufSize * 2 ^ (j + 1) - (base + s.align.used)
      omega

/-- An empty buffer is doubled forever, so a fetch that returns found room in it. -/
theorem Placed.room_or_sized (h : Placed s) (hsane : f.sane c s = true) :
    f.len ≤ s.align.remain ∨ 0 < s.traceBufSize := by
  obtain ⟨hlen, -, -, -, hroom⟩ := sane_iff.mp hsane
  by_cases hfits : f.len ≤ s.align.remain
  · exact .inl hfits
  refine .inr (Nat.pos_of_ne_zero ?_)
  intro hzero
  -- beyond the end the remaining room wraps and would have fitted
  have hin : alignUp s.traceBufPtr ≤ s.traceBuf + s.traceBufSize := by
    by_contra hout
    exact hfits (h.remain_align_of_gt (by omega) hlen)
  have hused : s.align.used = 0 := by
    rw [h.used_align]
    omega
  have hrem : s.align.remain = 0 := by
    rw [h.remain_align hin]
    obtain ⟨hd, hp, -, -⟩ := h.bounds
    obtain ⟨hle, -⟩ := h.align_spec
    omega
  -- twice nothing is nothing
  have hstuck (n : ℕ) : growLoop n 0 0 f.len = none := by
    induction n with
    | zero => rfl
    | succ n ih =>
      have hsub : sub64 0 0 = 0 := rfl
      have hdouble : addr ((0 : ℕ) * 2) = 0 := rfl
      rw [growLoop, hsub, if_pos (by omega), hdouble, ih]
  have hdiv : s.align.newSize f.len = none := by
    unfold Buf.newSize
    rw [hused]
    change growLoop 65 (addr (s.traceBufSize * 2)) 0 f.len = none
    rw [hzero]
    exact hstuck 65
  have hroom' : s.makeRoom f = .diverges := by simp [Buf.makeRoom, hfits, hdiv]
  rw [hroom'] at hroom
  exact hroom

end Room

/-! ### Calls -/

/-- A fetch whose pointer is aligned within the buffer. -/
theorem Placed.fetch_within (h : Placed s) (hsane : f.sane c s = true)
    (hin : alignUp s.traceBufPtr ≤ s.traceBuf + s.traceBufSize) :
    Ordered (effect c s (.fetch f)) ↔ KeepsOrder c s (.fetch f) = true := by
  obtain ⟨hlen, hlo, hhi, hmaps, hread⟩ := sane_iff.mp hsane
  have hend := addressEnd_eq
  obtain ⟨hd, hp, hs, -⟩ := h.bounds
  obtain ⟨hle, -⟩ := h.align_spec
  rcases h.makeRoom_cases hlen hmaps hin (h.room_or_sized hsane) with
    ⟨hreads, hroom⟩ | ⟨t, hreads, hroom, hfits, hkept⟩
  · -- `mremap()` has failed: the pointer is aligned, and nothing else
    have heffect : effect c s (.fetch f) = s.align := by
      simp [effect, fetchTrace, hroom]
    have hkeeps : KeepsOrder c s (.fetch f) = true := by
      simp [KeepsOrder, hin, hreads]
    rw [heffect]
    exact ⟨fun _ => hkeeps, fun _ => ⟨hd, hp.trans hle, hin⟩⟩
  · rw [hroom] at hread
    have hbound := hread.1
    have hptr := hkept.ptr
    have hdec := hkept.decoded
    have hwithin := hkept.within
    have hmapped := hkept.mapped
    have hresult : c.readResult t f = if c.direct then (f.len : ℤ) else f.n := by
      simp [Config.readResult, hfits]
    obtain ⟨hrlo, hrhi⟩ := readResult_bounds (c := c) hlen hlo hhi t
    have heffect : effect c s (.fetch f) = t.store c f := by
      simp [effect, fetchTrace, hroom]
    rw [heffect, store_ordered_iff (by omega) hmapped (by omega) hrlo hrhi]
    rw [hkept.remain, hresult] at hbound
    rw [hresult]
    cases hdir : c.direct with
    | true =>
      simp only [hdir, if_true] at hbound
      simp only [KeepsOrder, hdir, if_true, hin]
      refine ⟨fun _ => rfl, fun _ => ?_⟩
      omega
    | false =>
      simp only [hdir, Bool.false_eq_true, if_false] at hbound ⊢
      simp only [KeepsOrder, hdir, hin, hreads, decide_true, Bool.true_or, Bool.true_and,
        Bool.not_true, Bool.false_or, decide_eq_true_eq]
      omega

/-- A fetch whose pointer is aligned to beyond the end takes the buffer for large
enough. -/
theorem Placed.fetch_beyond (h : Placed s) (hsane : f.sane c s = true)
    (hout : ¬ alignUp s.traceBufPtr ≤ s.traceBuf + s.traceBufSize) :
    Ordered (effect c s (.fetch f)) ↔ KeepsOrder c s (.fetch f) = true := by
  obtain ⟨hlen, hlo, hhi, -, -⟩ := sane_iff.mp hsane
  obtain ⟨hd, hp, hs, hend⟩ := h.bounds
  obtain ⟨-, hlt, -⟩ := h.align_spec
  -- the remaining room is a difference that wraps
  have hfits : f.len ≤ s.align.remain := h.remain_align_of_gt (by omega) hlen
  have hreads : f.reads s = true := by simp [Fetch.reads, hfits]
  have hresult : c.readResult s.align f = if c.direct then (f.len : ℤ) else f.n := by
    simp [Config.readResult, hfits]
  obtain ⟨hrlo, hrhi⟩ := readResult_bounds (c := c) hlen hlo hhi s.align
  have heffect : effect c s (.fetch f) = s.align.store c f := by
    simp [effect, fetchTrace, Buf.makeRoom, hfits]
  rw [heffect, store_ordered_iff (t := s.align) hd h.mapped
    (show alignUp s.traceBufPtr < 2 ^ 63 by omega) hrlo hrhi, hresult]
  change (s.decodedTraceBuf : ℤ) ≤ alignUp s.traceBufPtr + (if c.direct then (f.len : ℤ) else f.n) ∧
    alignUp s.traceBufPtr + (if c.direct then (f.len : ℤ) else f.n) ≤
      (s.traceBuf + s.traceBufSize : ℕ) ↔ _
  cases hdir : c.direct with
  | true =>
    simp only [KeepsOrder, hdir, if_true, hout, decide_false, Bool.not_true, Bool.false_and,
      Bool.or_false, Bool.false_eq_true, iff_false]
    omega
  | false =>
    simp only [KeepsOrder, hdir, Bool.false_eq_true, if_false, hout, hreads, decide_false,
      Bool.not_false, Bool.true_and, Bool.false_or, Bool.not_true, Bool.and_eq_true,
      decide_eq_true_eq]
    omega

/-- The window `decode_trace()` computes is what lies between the two pointers. -/
theorem Placed.window (h : Placed s) :
    sub64 s.traceBufPtr s.decodedTraceBuf = s.traceBufPtr - s.decodedTraceBuf ∧
      s.used = s.traceBufPtr - s.traceBuf := by
  obtain ⟨hd, hp, hs, hend⟩ := h.bounds
  have hlt : s.traceBufPtr < 2 ^ 64 := by omega
  exact ⟨sub64_of_le hp hlt, sub64_of_le (hd.trans hp) hlt⟩

/-- A successful decode leaves nothing undecoded. -/
theorem Placed.decoded_of_ok (h : Placed s) :
    (decodeTrace s true).decodedTraceBuf = s.traceBufPtr := by
  obtain ⟨-, hp, hs, hend⟩ := h.bounds
  change addr (s.decodedTraceBuf + sub64 s.traceBufPtr s.decodedTraceBuf) = _
  rw [h.window.1]
  unfold addr
  omega

/-- **A call keeps the order exactly if its condition holds.** -/
theorem Placed.ordered_iff (h : Placed s) (hen : enabled c s l = true) :
    Ordered (effect c s l) ↔ KeepsOrder c s l = true := by
  have hord := h.ordered
  cases l with
  | alloc mapped =>
    simp only [effect, allocTraceBuf]
    by_cases hreuse : s.traceBuf ≠ 0 ∧ c.direct = true
    · have hkeeps : KeepsOrder c s (.alloc mapped) = true := by
        cases mapped with
        | none => simp [KeepsOrder, hreuse]
        | some base => rfl
      rw [if_pos hreuse]
      exact ⟨fun _ => hkeeps, fun _ => ⟨le_rfl, le_rfl, Nat.le_add_right _ _⟩⟩
    · rw [if_neg hreuse]
      cases mapped with
      | none =>
        -- the pointers are left where they were, and the buffer is `NULL`
        have hno : (s.traceBuf != 0 && c.direct) = false := by
          by_contra hyes
          exact hreuse (by simpa using hyes)
        simp only [KeepsOrder, hno, Bool.false_or, beq_iff_eq]
        constructor
        · rintro ⟨-, -, hsize⟩
          exact Nat.le_zero.mp hsize
        · intro hzero
          exact ⟨Nat.zero_le _, hord.ptr, le_of_eq hzero⟩
      | some base => exact ⟨fun _ => rfl, fun _ => ⟨le_rfl, le_rfl, Nat.le_add_right _ _⟩⟩
  | fetchFails => exact ⟨fun _ => rfl, fun _ => hord⟩
  | fetch f =>
    by_cases hin : alignUp s.traceBufPtr ≤ s.traceBuf + s.traceBufSize
    · exact h.fetch_within hen hin
    · exact h.fetch_beyond hen hin
  | decode ok =>
    refine ⟨fun _ => rfl, fun _ => ?_⟩
    cases ok with
    | false => exact ⟨hord.decoded, hord.ptr, hord.size⟩
    | true =>
      have hdec := h.decoded_of_ok
      refine ⟨?_, ?_, hord.size⟩ <;> simp only [effect, hdec]
      · exact hord.decoded.trans hord.ptr
      · exact le_rfl

theorem Backed.static (mem : Memory Byte) : Backed (.static mem) :=
  ⟨rfl, Nat.zero_le _, .inl ⟨rfl, rfl⟩⟩

theorem Backed.of_mapping {base size : ℕ} {t : Buf} (h : isMapping base size = true)
    (hbuf : t.traceBuf = base) (hsize : t.traceBufSize = size) : Backed t := by
  obtain ⟨hpos, halign, hsz, hend⟩ := isMapping_iff.mp h
  refine ⟨?_, ?_, .inr ⟨?_, ?_⟩⟩ <;> simp only [hbuf, hsize]
  · exact halign
  · exact hend
  · exact hpos
  · exact hsz

/-- **The buffer is a mapping after every call, if there is one.** This needs no
order. -/
theorem Backed.step (h : Backed s) (hen : enabled c s l = true) : Backed (effect c s l) := by
  cases l with
  | alloc mapped =>
    simp only [effect, allocTraceBuf]
    split
    · exact ⟨h.aligned, h.mapped, h.sized⟩
    · cases mapped with
      | none => exact ⟨rfl, Nat.zero_le _, .inl ⟨rfl, rfl⟩⟩
      | some base => exact .of_mapping hen rfl rfl
  | fetchFails => exact h
  | fetch f =>
    obtain ⟨-, -, -, hmaps, -⟩ := sane_iff.mp hen
    simp only [effect, fetchTrace, Buf.makeRoom]
    split
    · next t ht =>
      -- the buffer is where it was, or where it was moved to
      split at ht
      · cases ht
        exact ⟨h.aligned, h.mapped, h.sized⟩
      · cases hnew : s.align.newSize f.len with
        | none => simp [hnew] at ht
        | some size =>
          cases hmoved : f.moved with
          | none => simp [hnew, hmoved] at ht
          | some base =>
            rw [hnew, hmoved] at ht
            cases ht
            rw [Fetch.maps, hnew, hmoved] at hmaps
            exact .of_mapping hmaps rfl rfl
    · next t ht =>
      split at ht
      · cases ht
      · cases hnew : s.align.newSize f.len with
        | none => simp [hnew] at ht
        | some size =>
          cases hmoved : f.moved with
          | none =>
            rw [hnew, hmoved] at ht
            cases ht
            exact ⟨h.aligned, h.mapped, h.sized⟩
          | some base => simp [hnew, hmoved] at ht
    · exact h
  | decode ok => exact ⟨h.aligned, h.mapped, h.sized⟩

theorem Placed.step (h : Placed s) (hen : enabled c s l = true)
    (hc : KeepsOrder c s l = true) : Placed (effect c s l) :=
  ⟨h.toBacked.step hen, (h.ordered_iff hen).mpr hc⟩

/-! ### Runs -/

/-- **The pointers stay in order, and exactly when.** In every run whose calls meet
their condition the pointers are in order, so that neither the window of
`decode_trace()` nor the length of `export_trace()` underflows; and from there a call
keeps them in order if and only if it meets its condition. -/
theorem pointers_ordered_iff (c : Config) (s : Buf)
    (hs : ((bufSystem c).restrict (KeepsOrder c)).machine.Reachable s) :
    Ordered s ∧ sub64 s.traceBufPtr s.decodedTraceBuf = s.traceBufPtr - s.decodedTraceBuf ∧
      s.used = s.traceBufPtr - s.traceBuf ∧
      ∀ l, enabled c s l = true → (Ordered (effect c s l) ↔ KeepsOrder c s l = true) := by
  have h : Placed s := by
    refine Guarded.invariant_restrict hs ?_ fun s l h hen hc => h.step hen hc
    rintro _ ⟨mem, rfl⟩
    exact ⟨.static mem, ⟨le_rfl, le_rfl, le_rfl⟩⟩
  exact ⟨h.ordered, h.window.1, h.window.2, fun l hen => h.ordered_iff hen⟩

/-- CSAL reads from an ETR of the default size. -/
def csalConfig : Config :=
  ⟨false, defaultTraceSize⟩

/-- A fetch of eight bytes. -/
def eightBytes : Fetch :=
  ⟨8, none, 8, [1, 2, 3, 4, 5, 6, 7, 8]⟩

/-- After a fetch and a decode, a read may return no error. -/
theorem pointers_ordered_iff_decoded :
    let s := (bufSystem csalConfig).run (.static fun _ => 0)
      [.alloc (some 0x10000), .fetch eightBytes, .decode true]
    Ordered s ∧ ¬ Ordered (effect csalConfig s (.fetch ⟨8, none, -1, []⟩)) := by
  intro s
  have hs : ((bufSystem csalConfig).restrict (KeepsOrder csalConfig)).machine.Reachable s :=
    Guarded.reachable_of_applicable (.of_init ⟨_, rfl⟩) (by decide +kernel)
  obtain ⟨hord, -, -, hiff⟩ := pointers_ordered_iff csalConfig s hs
  refine ⟨hord, ?_⟩
  rw [hiff (.fetch ⟨8, none, -1, []⟩) (by decide +kernel)]
  decide +kernel

/-- **A failed read misplaces the pointer.** The first read of an execution returns
-1, and `trace_buf_ptr` is below the start of the buffer. -/
theorem error_result_misplaces :
    ∃ s, (bufSystem csalConfig).machine.Reachable s ∧ s.traceBuf = 0x10000 ∧
      s.decodedTraceBuf = 0x10000 ∧ s.traceBufPtr = 0xffff ∧ ¬ Ordered s := by
  have hrun : (bufSystem csalConfig).machine.Reachable
      ((bufSystem csalConfig).run (.static fun _ => 0)
        [.alloc (some 0x10000), .fetch ⟨8, none, -1, []⟩]) :=
    Guarded.reachable_of_applicable (.of_init ⟨_, rfl⟩) (by decide +kernel)
  refine ⟨_, hrun, by decide +kernel, by decide +kernel, by decide +kernel, ?_⟩
  rintro ⟨-, hptr, -⟩
  exact absurd hptr (by decide +kernel)

end TraceBuf
end CsTrace
