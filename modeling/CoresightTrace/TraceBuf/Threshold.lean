import CoresightTrace.TraceBuf.Etr

/-!
# The threshold of a drain

While the target runs, `trace_sink_polling()` compares how far the ETR's write pointer
is from where it was sampled with a threshold that `decoder_worker()` has chosen, and
drains the buffer when it is farther. By default the threshold is the size of the
ETR: "upstream drains at the ETR size".

The distance is the difference of two positions in a ring, as an `unsigned long`.
Before the pointer has passed the end of the ring the difference is the number of
bytes written, which is less than the size. Once it has passed the end the difference
wraps, and is close to 2^64 until the pointer is past the sampled position again. So a
backlog is noticed only within these two stretches of every round
(`backlog_seen_iff`). A drain leaves the pointer at the base, where the second stretch
is empty, and with the default threshold the first is empty as well
(`drain_never_due`).
-/

namespace CsTrace
namespace TraceBuf

/-! ### The model -/

/-- The threshold `decoder_worker()` selects. `drainAt2xEtf` is whether
`AFLCS_DRAIN_AT_2XETF` is set and there is a trace sink. -/
def decodingThreshold (drainAt2xEtf : Bool) (etfRamSize etrRamSize : ℕ) : ℕ :=
  if drainAt2xEtf then
    if etfRamSize < etrRamSize then addr (etfRamSize * 2) else etrRamSize
  else etrRamSize

/-- `cs_get_buffer_rwp()` after `written` bytes. -/
def EtrRam.bufferRwp (c : EtrRam) (written : ℕ) : ℕ :=
  addr (c.etrRamAddr + written % c.etrRamSize : ℕ)

/-- The comparison of `trace_sink_polling()`. -/
def drainDue (decodingThreshold initPos rwp : ℕ) : Bool :=
  decide (decodingThreshold < sub64 rwp initPos)

/-- The comparison `w` bytes after `init_pos` was sampled at offset `p`. -/
def EtrRam.dueAfter (c : EtrRam) (threshold p w : ℕ) : Bool :=
  drainDue threshold (c.bufferRwp p) (c.bufferRwp (p + w))

/-- A backlog of `w` bytes is noticed if it is above the threshold, and there is one
that is noticed before bytes are overwritten. -/
def EtrRam.BacklogSeen (c : EtrRam) (threshold p w : ℕ) : Prop :=
  (threshold < w → c.dueAfter threshold p w = true) ∧
    ∃ w' < c.etrRamSize, c.dueAfter threshold p w' = true

/-! ### The distance in the ring -/

section Distance

variable {c : EtrRam} (hsize : c.etrRamSize < 2 ^ 64) {p : ℕ} (hp : p < c.etrRamSize)

/-- The offset `r` bytes of a round after offset `p`. -/
theorem add_mod_eq {size p : ℕ} (hp : p < size) (w : ℕ) :
    (p + w) % size = if p + w % size < size then p + w % size else p + w % size - size := by
  have hlt := Nat.mod_lt w (Nat.zero_lt_of_lt hp)
  rw [← Nat.add_mod_mod]
  split
  · next h => exact Nat.mod_eq_of_lt h
  · next h =>
    rw [Nat.mod_eq_sub_mod (by omega), Nat.mod_eq_of_lt (by omega)]

include hsize hp

/-- **The comparison.** Up to the end of the ring it sees the bytes of the round, and
past the end a distance that has wrapped. -/
theorem dueAfter_iff (threshold w : ℕ) :
    c.dueAfter threshold p w = true ↔
      if p + w % c.etrRamSize < c.etrRamSize then threshold < w % c.etrRamSize
      else threshold + (c.etrRamSize - w % c.etrRamSize) < 2 ^ 64 := by
  have hlt := Nat.mod_lt w (Nat.zero_lt_of_lt hp)
  unfold EtrRam.dueAfter drainDue EtrRam.bufferRwp sub64 addr
  rw [decide_eq_true_iff, add_mod_eq hp, Nat.mod_eq_of_lt hp]
  split <;> omega

/-- Some backlog of less than a round is noticed, unless `init_pos` is the base and
the threshold is at least the size less one. -/
theorem exists_dueAfter_iff (threshold : ℕ) :
    (∃ w' < c.etrRamSize, c.dueAfter threshold p w' = true) ↔
      if p = 0 then threshold + 1 < c.etrRamSize else threshold + 1 < 2 ^ 64 := by
  constructor
  · rintro ⟨w', hlt, hdue⟩
    rw [dueAfter_iff hsize hp, Nat.mod_eq_of_lt hlt] at hdue
    split at hdue <;> split <;> omega
  · -- the last byte of the round is the farthest, on either side of the end
    intro h
    refine ⟨c.etrRamSize - 1, by omega, ?_⟩
    rw [dueAfter_iff hsize hp, Nat.mod_eq_of_lt (by omega)]
    split at h <;> split <;> omega

end Distance

/-- **When a backlog is noticed.** For the sizes of both sinks, the threshold selected
from them, `init_pos` at offset `p` of the buffer and `w` bytes written since. -/
theorem backlog_seen_iff (c : EtrRam) (hsize : c.etrRamSize < 2 ^ 64) (drainAt2xEtf : Bool)
    (etfRamSize p : ℕ) (hp : p < c.etrRamSize) (w : ℕ) :
    let threshold := decodingThreshold drainAt2xEtf etfRamSize c.etrRamSize
    c.BacklogSeen threshold p w ↔
      (w ≤ threshold ∨
        if p + w % c.etrRamSize < c.etrRamSize then threshold < w % c.etrRamSize
        else threshold + (c.etrRamSize - w % c.etrRamSize) < 2 ^ 64) ∧
      if p = 0 then threshold + 1 < c.etrRamSize else threshold + 1 < 2 ^ 64 := by
  intro threshold
  unfold EtrRam.BacklogSeen
  refine and_congr ?_ (exists_dueAfter_iff hsize hp threshold)
  rw [dueAfter_iff hsize hp, ← not_lt]
  exact imp_iff_not_or

/-- A backlog of 1100 bytes above twice an ETF of 512 is noticed. -/
theorem backlog_seen_iff_tuned :
    (⟨0x100000000, 4096⟩ : EtrRam).BacklogSeen (decodingThreshold true 512 4096) 0 1100 :=
  (backlog_seen_iff ⟨0x100000000, 4096⟩ (by decide) true 512 0 (by decide) 1100).mpr
    ⟨.inr (by decide), by decide⟩

/-- **Two rounds go unnoticed.** At the default threshold, the size of the ETR, and from
the base of the buffer, a backlog of twice the size is above the threshold and the
comparison is false. -/
theorem two_rounds_unseen :
    ¬ (⟨0x100000000, 4096⟩ : EtrRam).BacklogSeen (decodingThreshold false 512 4096) 0 8192 := by
  intro h
  exact absurd (h.1 (by decide)) (by decide)

/-- **By default no drain is due after a drain**, which leaves the write pointer at the
base, whatever is written. -/
theorem drain_never_due (c : EtrRam) (hsize : c.etrRamSize < 2 ^ 64) (hpos : 0 < c.etrRamSize)
    (etfRamSize w : ℕ) :
    c.dueAfter (decodingThreshold false etfRamSize c.etrRamSize) 0 w = false := by
  have hlt := Nat.mod_lt w hpos
  have hthreshold : decodingThreshold false etfRamSize c.etrRamSize = c.etrRamSize := rfl
  rw [← Bool.not_eq_true, dueAfter_iff hsize hpos, hthreshold, if_pos (by omega)]
  omega

end TraceBuf
end CsTrace
