import CoresightTrace.TraceBuf.Order

/-!
# The trace stream

What the decoder is given in an execution is what was fetched in it. The windows of
`decode_trace()` follow each other in the buffer from its start on (`Consecutive`),
and together hold the chunks fetched before the last decode, in the order they were
fetched. `fetch_trace()` aligns the pointer first, so up to 7 bytes that are no trace
stand before a chunk when what precedes it does not end at a multiple of 8 (`Padded`).

The invariant (`Streamed`) is stated on the buffer's contents: up to `trace_buf_ptr`
it is the stream of all chunks, up to `decoded_trace_buf` that of the chunks decoded.
A buffer that is grown may be moved, and takes both along.
-/

namespace CsTrace
namespace TraceBuf

/-! ### Streams of chunks -/

section Stream

variable {β : Type*}

/-- The bytes that are missing to the next multiple of 8. -/
def padding (n : ℕ) : ℕ :=
  (8 - n % 8) % 8

/-- `Padded cs st`: the stream `st` is the chunks `cs` in order, each at a multiple of
8 with as little between them as this takes. -/
inductive Padded : List (List β) → List β → Prop where
  | nil : Padded [] []
  | snoc {cs : List (List β)} {st pad chunk : List β} :
      Padded cs st → pad.length = padding st.length →
      Padded (cs ++ [chunk]) (st ++ (pad ++ chunk))

/-- **Nothing is inserted between chunks of whole words.** -/
theorem Padded.eq_flatten {cs : List (List β)} {st : List β} (h : Padded cs st)
    (hwords : ∀ c ∈ cs, 8 ∣ c.length) : st = cs.flatten ∧ 8 ∣ st.length := by
  induction h with
  | nil => exact ⟨rfl, dvd_zero 8⟩
  | @snoc cs st pad chunk _ hpad ih =>
    obtain ⟨hst, hdvd⟩ := ih fun c hc => hwords c (List.mem_append_left _ hc)
    have hchunk : 8 ∣ chunk.length := hwords chunk (by simp)
    have hnil : pad = [] := by
      refine List.length_eq_zero_iff.mp ?_
      rw [hpad, padding]
      omega
    subst hnil
    constructor
    · rw [List.flatten_concat, ← hst]
      rfl
    · rw [List.nil_append, List.length_append]
      exact Nat.dvd_add hdvd hchunk

/-- Each window starts where the one before it ends, the first at `o`. -/
def Consecutive : ℕ → List (ℕ × List β) → Prop
  | _, [] => True
  | o, w :: ws => w.1 = o ∧ Consecutive (o + w.2.length) ws

theorem consecutive_snoc {o : ℕ} {ws : List (ℕ × List β)} {w : ℕ × List β} :
    Consecutive o (ws ++ [w]) ↔
      Consecutive o ws ∧ w.1 = o + (ws.flatMap Prod.snd).length := by
  induction ws generalizing o with
  | nil => simp [Consecutive]
  | cons v ws ih =>
    rw [List.cons_append, Consecutive, Consecutive, ih, List.flatMap_cons, List.length_append,
      Nat.add_assoc, and_assoc]

/-- **Consecutive windows are disjoint**, and lie where their concatenation does. -/
theorem Consecutive.disjoint {o : ℕ} {ws : List (ℕ × List β)} (h : Consecutive o ws) :
    ws.Pairwise (fun v w => v.1 + v.2.length ≤ w.1) ∧
      ∀ w ∈ ws, o ≤ w.1 ∧ w.1 + w.2.length ≤ o + (ws.flatMap Prod.snd).length := by
  induction ws generalizing o with
  | nil => exact ⟨.nil, by simp⟩
  | cons v ws ih =>
    obtain ⟨rfl, hrest⟩ := h
    obtain ⟨hpair, hall⟩ := ih hrest
    refine ⟨.cons (fun w hw => (hall w hw).1) hpair, ?_⟩
    intro w hw
    rw [List.flatMap_cons, List.length_append]
    rcases List.mem_cons.mp hw with rfl | hw
    · omega
    · have hw' := hall w hw
      omega

end Stream

variable {c : Config} {s t : Buf} {f : Fetch} {l : Label}

/-! ### The stream in the buffer -/

/-- The calls of an execution in which nothing fails that the buffer depends on:
`mremap()` makes room, no read returns an error, and every decode succeeds. -/
def Smooth (c : Config) (s : Buf) : Label → Bool
  | .alloc _ => false
  | .fetchFails => true
  | .fetch f => (c.direct || decide (0 ≤ f.n)) && f.reads s
  | .decode ok => ok

/-- The buffer holds the stream of the chunks that were fetched, and was decoded up to
the end of one of them. -/
structure Streamed (s : Buf) : Prop extends Placed s where
  words : 8 ∣ s.traceBufSize
  pos : 0 < s.traceBufSize
  fetched : Padded s.chunks (s.mem.read s.traceBuf (s.traceBufPtr - s.traceBuf))
  seen_le : s.seen ≤ s.chunks.length
  decoded : Padded (s.chunks.take s.seen)
    (s.mem.read s.traceBuf (s.decodedTraceBuf - s.traceBuf))
  consecutive : Consecutive 0 s.windows
  shown : s.windows.flatMap Prod.snd =
    s.mem.read s.traceBuf (s.decodedTraceBuf - s.traceBuf)

/-- In a buffer of whole words the pointer is aligned within it. -/
theorem Streamed.align_le (h : Streamed s) :
    alignUp s.traceBufPtr ≤ s.traceBuf + s.traceBufSize := by
  obtain ⟨-, -, hs, -⟩ := h.bounds
  obtain ⟨hle, hlt, hdvd⟩ := h.align_spec
  have haligned := h.aligned
  have hwords := h.words
  omega

/-- Aligning the pointer inserts what is missing to a multiple of 8. -/
theorem Streamed.align_sub (h : Streamed s) :
    alignUp s.traceBufPtr - s.traceBuf =
      s.traceBufPtr - s.traceBuf + padding (s.traceBufPtr - s.traceBuf) := by
  obtain ⟨hd, hp, -, -⟩ := h.bounds
  obtain ⟨hle, hlt, hdvd⟩ := h.align_spec
  have haligned := h.aligned
  unfold padding
  omega

theorem Streamed.keepsOrder (h : Streamed s) (hc : Smooth c s l = true) :
    KeepsOrder c s l = true := by
  obtain ⟨-, hp, -, -⟩ := h.bounds
  obtain ⟨hle, -⟩ := h.align_spec
  cases l with
  | alloc mapped => cases hc
  | fetchFails | decode => rfl
  | fetch f =>
    have hin := h.align_le
    obtain ⟨hn, hreads⟩ := Bool.and_eq_true_iff.mp hc
    cases hdir : c.direct with
    | true => simp [KeepsOrder, hdir, hin]
    | false =>
      rw [hdir, Bool.false_or, decide_eq_true_eq] at hn
      have hkeep : (s.decodedTraceBuf : ℤ) ≤ alignUp s.traceBufPtr + f.n := by omega
      simp [KeepsOrder, hdir, hin, hkeep]

/-- The read returns the number of bytes it has stored. -/
theorem store_ptr (hptr : t.traceBufPtr < 2 ^ 63) (hpos : 0 ≤ c.readResult t f)
    (hhi : c.readResult t f < 2 ^ 31) (hdata : f.data.length = (c.readResult t f).toNat) :
    (t.store c f).traceBufPtr = t.traceBufPtr + f.data.length := by
  change addr (t.traceBufPtr + c.readResult t f) = _
  rw [hdata]
  unfold addr
  omega

/-- The fetch of a smooth execution gets to its read, in a buffer that was kept. -/
theorem Streamed.fetch_cases (h : Streamed s) (hsane : f.sane c s = true)
    (hc : Smooth c s (.fetch f) = true) :
    ∃ t, effect c s (.fetch f) = t.store c f ∧ Kept s t ∧
      (t.store c f).traceBufPtr = t.traceBufPtr + f.data.length := by
  obtain ⟨hlen, hlo, hhi, hmaps, hread⟩ := sane_iff.mp hsane
  obtain ⟨hn, hreads⟩ := Bool.and_eq_true_iff.mp hc
  rcases h.makeRoom_cases hlen hmaps h.align_le (.inr h.pos) with
    ⟨hnot, -⟩ | ⟨t, -, hroom, -, hkept⟩
  · rw [hreads] at hnot
    cases hnot
  rw [hroom] at hread
  have hend := addressEnd_eq
  have hwithin := hkept.within
  have hmapped := hkept.mapped
  -- a direct read returns what was asked for, CSAL what the condition says
  have hres : 0 ≤ c.readResult t f := by
    unfold Config.readResult
    cases hdir : c.direct with
    | true =>
      rw [if_pos rfl]
      split <;> omega
    | false =>
      rw [hdir, Bool.false_or, decide_eq_true_eq] at hn
      exact hn
  refine ⟨t, by simp [effect, fetchTrace, hroom], hkept, ?_⟩
  exact store_ptr (by omega) hres (readResult_bounds hlen hlo hhi t).2 hread.2

/-- **A fetch appends its chunk to the stream.** -/
theorem Streamed.fetch (h : Streamed s) (hsane : f.sane c s = true)
    (hc : Smooth c s (.fetch f) = true) : Streamed (effect c s (.fetch f)) := by
  have hplaced : Placed (effect c s (.fetch f)) := h.toPlaced.step hsane (h.keepsOrder hc)
  obtain ⟨t, heffect, hkept, hptr⟩ := h.fetch_cases hsane hc
  rw [heffect] at hplaced ⊢
  obtain ⟨hd, hp, hs, -⟩ := h.bounds
  -- up to the old pointer the buffer is what it was
  have hold (k : ℕ) (hk : k ≤ s.traceBufPtr - s.traceBuf) :
      (t.store c f).mem.read t.traceBuf k = s.mem.read s.traceBuf k := by
    have halign := h.align_sub
    rw [← hkept.contents k (by omega)]
    refine t.mem.read_write_of_le f.data ?_
    rw [hkept.ptr]
    omega
  have hdecoded : (t.store c f).decodedTraceBuf - (t.store c f).traceBuf =
      s.decodedTraceBuf - s.traceBuf := by
    change t.decodedTraceBuf - t.traceBuf = _
    rw [hkept.decoded, Nat.add_sub_cancel_left]
  have hsame : (t.store c f).mem.read (t.store c f).traceBuf
      ((t.store c f).decodedTraceBuf - (t.store c f).traceBuf) =
      s.mem.read s.traceBuf (s.decodedTraceBuf - s.traceBuf) := by
    rw [hdecoded]
    exact hold _ (by omega)
  refine ⟨hplaced, ?_, ?_, ?_, ?_, ?_, ?_, ?_⟩
  · exact h.words.trans hkept.multiple
  · exact lt_of_lt_of_le h.pos hkept.size_le
  · -- the stream so far, what aligning inserts, and the chunk
    have hlast : (t.store c f).traceBufPtr - (t.store c f).traceBuf =
        s.traceBufPtr - s.traceBuf + (padding (s.traceBufPtr - s.traceBuf) + f.data.length) := by
      change (t.store c f).traceBufPtr - t.traceBuf = _
      rw [hptr, hkept.ptr, h.align_sub]
      omega
    have hchunk : (t.store c f).mem.read (t.traceBuf + (s.traceBufPtr - s.traceBuf) +
        padding (s.traceBufPtr - s.traceBuf)) f.data.length = f.data := by
      have hat : t.traceBuf + (s.traceBufPtr - s.traceBuf) +
          padding (s.traceBufPtr - s.traceBuf) = t.traceBufPtr := by
        rw [hkept.ptr, h.align_sub, Nat.add_assoc]
      rw [hat]
      exact t.mem.read_write_self t.traceBufPtr f.data
    change Padded (t.chunks ++ [f.data]) ((t.store c f).mem.read t.traceBuf _)
    rw [hlast, Memory.read_add, Memory.read_add, hold _ le_rfl, hchunk, hkept.chunks]
    refine h.fetched.snoc ?_
    rw [Memory.length_read, Memory.length_read]
  · change t.seen ≤ (t.chunks ++ [f.data]).length
    rw [hkept.seen, hkept.chunks, List.length_append]
    exact h.seen_le.trans (Nat.le_add_right _ _)
  · rw [hsame]
    change Padded ((t.chunks ++ [f.data]).take t.seen) _
    rw [hkept.seen, hkept.chunks, List.take_append_of_le_length h.seen_le]
    exact h.decoded
  · change Consecutive 0 t.windows
    rw [hkept.windows]
    exact h.consecutive
  · rw [hsame]
    change t.windows.flatMap Prod.snd = _
    rw [hkept.windows]
    exact h.shown

/-- **A decode takes the stream up to its end.** -/
theorem Streamed.decode (h : Streamed s) : Streamed (decodeTrace s true) := by
  obtain ⟨hd, hp, hs, hend⟩ := h.bounds
  have hdec := h.toPlaced.decoded_of_ok
  have hplaced : Placed (decodeTrace s true) :=
    h.toPlaced.step (c := ⟨true, 0⟩) (l := .decode true) rfl rfl
  -- what was not yet decoded follows what was
  have hsplit : s.mem.read s.traceBuf (s.traceBufPtr - s.traceBuf) =
      s.mem.read s.traceBuf (s.decodedTraceBuf - s.traceBuf) ++
        s.mem.read s.decodedTraceBuf (s.traceBufPtr - s.decodedTraceBuf) := by
    have hlen : s.traceBufPtr - s.traceBuf =
        s.decodedTraceBuf - s.traceBuf + (s.traceBufPtr - s.decodedTraceBuf) := by omega
    rw [hlen, Memory.read_add, Nat.add_sub_cancel' hd]
  have hwindows : (decodeTrace s true).windows = s.windows ++
      [(s.decodedTraceBuf - s.traceBuf,
        s.mem.read s.decodedTraceBuf (s.traceBufPtr - s.decodedTraceBuf))] := by
    have hoff : sub64 s.decodedTraceBuf s.traceBuf = s.decodedTraceBuf - s.traceBuf :=
      sub64_of_le hd (by omega)
    simp only [decodeTrace, h.toPlaced.window.1, hoff]
  refine ⟨hplaced, h.words, h.pos, h.fetched, le_rfl, ?_, ?_, ?_⟩
  · rw [hdec]
    change Padded (s.chunks.take s.chunks.length) _
    rw [List.take_length]
    exact h.fetched
  · rw [hwindows, consecutive_snoc, h.shown, Memory.length_read, Nat.zero_add]
    exact ⟨h.consecutive, rfl⟩
  · rw [hwindows, hdec, List.flatMap_append, h.shown]
    change _ ++ List.flatMap Prod.snd [_] = s.mem.read s.traceBuf (s.traceBufPtr - s.traceBuf)
    rw [List.flatMap_singleton]
    exact hsplit.symm

theorem Streamed.step (h : Streamed s) (hen : enabled c s l = true)
    (hc : Smooth c s l = true) : Streamed (effect c s l) := by
  cases l with
  | alloc mapped => cases hc
  | fetchFails => exact h
  | fetch f => exact h.fetch hen hc
  | decode ok =>
    have hok : ok = true := hc
    rw [hok]
    exact h.decode

/-- The chunk a call fetches. -/
def Label.chunk : Label → Option (List Byte)
  | .fetch f => some f.data
  | _ => none

theorem Streamed.chunks_step (h : Streamed s) (hen : enabled c s l = true)
    (hc : Smooth c s l = true) : (effect c s l).chunks = s.chunks ++ l.chunk.toList := by
  cases l with
  | alloc mapped => cases hc
  | fetchFails | decode => exact (List.append_nil _).symm
  | fetch f =>
    obtain ⟨t, heffect, hkept, -⟩ := h.fetch_cases hen hc
    rw [heffect]
    change t.chunks ++ [f.data] = _
    rw [hkept.chunks]
    rfl

/-- A buffer just set up holds the empty stream. -/
theorem Streamed.alloc {mapped : Option ℕ} (h : Backed s)
    (hen : enabled c s (.alloc mapped) = true)
    (hok : mapped.isSome = true ∨ s.traceBuf ≠ 0 ∧ c.direct = true)
    (hwords : 8 ∣ (allocTraceBuf c s mapped).traceBufSize) :
    Streamed (allocTraceBuf c s mapped) := by
  have hbacked : Backed (allocTraceBuf c s mapped) := h.step hen
  have hset : (allocTraceBuf c s mapped).traceBufPtr = (allocTraceBuf c s mapped).traceBuf ∧
      (allocTraceBuf c s mapped).decodedTraceBuf = (allocTraceBuf c s mapped).traceBuf ∧
      0 < (allocTraceBuf c s mapped).traceBuf ∧
      (allocTraceBuf c s mapped).chunks = [] ∧ (allocTraceBuf c s mapped).windows = [] ∧
      (allocTraceBuf c s mapped).seen = 0 := by
    -- reused or mapped anew, the pointers are at its start and nothing is recorded
    unfold allocTraceBuf
    dsimp only
    split
    · next hreuse => exact ⟨rfl, rfl, Nat.pos_of_ne_zero hreuse.1, rfl, rfl, rfl⟩
    · next hnew =>
      cases mapped with
      | none => exact absurd (hok.resolve_left (by simp)) hnew
      | some base =>
        obtain ⟨hpos, -⟩ := isMapping_iff.mp hen
        exact ⟨rfl, rfl, hpos, rfl, rfl, rfl⟩
  obtain ⟨hptr, hdec, hpos, hchunks, hwindows, hseen⟩ := hset
  have hsized : 0 < (allocTraceBuf c s mapped).traceBufSize := by
    rcases hbacked.sized with ⟨hnull, -⟩ | ⟨-, hsized⟩
    · omega
    · exact hsized
  -- each part speaks of an empty stretch of the buffer
  refine ⟨⟨hbacked, ?_⟩, hwords, hsized, ?_, ?_, ?_, ?_, ?_⟩
  · constructor
    · rw [hdec]
    · rw [hdec, hptr]
    · rw [hptr]
      exact Nat.le_add_right _ _
  · rw [hptr, Nat.sub_self, hchunks]
    exact .nil
  · rw [hseen]
    exact Nat.zero_le _
  · rw [hdec, Nat.sub_self, hchunks, hseen]
    exact .nil
  · rw [hwindows]
    trivial
  · rw [hdec, Nat.sub_self, hwindows]
    rfl

/-! ### Executions -/

/-- **An execution keeps the stream.** The induction is on its calls. -/
theorem Streamed.run {ls : List Label} (h : Streamed s)
    (hrun : ((bufSystem c).restrict (Smooth c)).machine.Run s ls t) :
    Streamed t ∧ t.chunks = s.chunks ++ ls.filterMap Label.chunk := by
  induction hrun with
  | nil => exact ⟨h, (List.append_nil _).symm⟩
  | @snoc ls t u l _ hstep ih =>
    obtain ⟨ht, hchunks⟩ := ih
    obtain ⟨hen, rfl⟩ := hstep
    obtain ⟨hen, hc⟩ := Bool.and_eq_true_iff.mp hen
    refine ⟨ht.step hen hc, ?_⟩
    calc (effect c t l).chunks = t.chunks ++ l.chunk.toList := ht.chunks_step hen hc
      _ = s.chunks ++ (ls.filterMap Label.chunk ++ l.chunk.toList) := by
        rw [hchunks, List.append_assoc]
      _ = s.chunks ++ (ls ++ [l]).filterMap Label.chunk := by
        cases hl : l.chunk <;> simp [hl]

/-- **The trace reaches the decoder as it was fetched.** Whatever came before, after a
successful `alloc_trace_buf()` and any calls that do not fail:

* the windows given to the decoder follow each other in the buffer from its start on;
* their concatenation is the chunks fetched before the last decode, in order and with
  nothing but padding between them, and exactly these if they are of whole words;
* in a fetch of any length the growth loop ends without wrapping, and leaves the room
  asked for. -/
theorem trace_stream_intact (c : Config) {s t : Buf} {mapped : Option ℕ} {ls : List Label}
    (hs : (bufSystem c).machine.Reachable s) (hen : enabled c s (.alloc mapped) = true)
    (hok : mapped.isSome = true ∨ s.traceBuf ≠ 0 ∧ c.direct = true)
    (hwords : 8 ∣ (allocTraceBuf c s mapped).traceBufSize)
    (hrun : ((bufSystem c).restrict (Smooth c)).machine.Run (allocTraceBuf c s mapped) ls t) :
    t.chunks = ls.filterMap Label.chunk ∧
      Consecutive 0 t.windows ∧
      t.windows.Pairwise (fun v w => v.1 + v.2.length ≤ w.1) ∧
      (∀ w ∈ t.windows, w.1 + w.2.length ≤ t.traceBufSize) ∧
      Padded (t.chunks.take t.seen) (t.windows.flatMap Prod.snd) ∧
      ((∀ chunk ∈ t.chunks, 8 ∣ chunk.length) →
        t.windows.flatMap Prod.snd = (t.chunks.take t.seen).flatten) ∧
      ∀ f : Fetch, f.len < 2 ^ 31 →
        (∃ j, t.align.newSize f.len = some (t.traceBufSize * 2 ^ (j + 1)) ∧
          t.align.used + f.len ≤ t.traceBufSize * 2 ^ (j + 1) ∧
          t.traceBufSize * 2 ^ (j + 1) < 2 ^ 64) ∧
        (f.reads t = true → f.maps t = true →
          ∃ u, t.makeRoom f = .enough u ∧ f.len ≤ u.remain) := by
  have hbacked : Backed s := by
    refine Guarded.invariant hs ?_ fun s l h hen => h.step hen
    rintro _ ⟨mem, rfl⟩
    exact .static mem
  obtain ⟨h, hchunks⟩ := (Streamed.alloc hbacked hen hok hwords).run hrun
  -- the setup has forgotten what was fetched before it
  have hnone : (allocTraceBuf c s mapped).chunks = [] := by
    unfold allocTraceBuf
    dsimp only
    split
    · rfl
    · cases mapped <;> rfl
  rw [hnone, List.nil_append] at hchunks
  have hdecoded : Padded (t.chunks.take t.seen) (t.windows.flatMap Prod.snd) := by
    rw [h.shown]
    exact h.decoded
  obtain ⟨hpair, hwithin⟩ := h.consecutive.disjoint
  refine ⟨hchunks, h.consecutive, hpair, ?_, hdecoded, ?_, ?_⟩
  · -- the last window ends at the pointer of the decoder
    intro w hw
    have hw' := (hwithin w hw).2
    obtain ⟨hd, hp, hs, -⟩ := h.bounds
    rw [h.shown, Memory.length_read] at hw'
    omega
  · intro hchunk
    exact (hdecoded.eq_flatten fun c hc => hchunk c (List.mem_of_mem_take hc)).1
  · -- the fetch asked about need not be one of the run
    intro f hlen
    refine ⟨h.newSize hlen h.align_le h.pos, ?_⟩
    intro hreads hmaps
    rcases h.makeRoom_cases hlen hmaps h.align_le (.inr h.pos) with
      ⟨hnot, -⟩ | ⟨u, -, hroom, hfits, -⟩
    · rw [hreads] at hnot
      cases hnot
    · exact ⟨u, hroom, hfits⟩

/-- CSAL has more than the buffer holds, and returns three bytes of it. -/
def threeOfMany : Fetch :=
  ⟨0x900000, some 0x40000000, 3, [1, 2, 3]⟩

/-- The buffer is moved, a chunk is decoded, and the next one is padded. -/
theorem trace_stream_intact_moved :
    let s := Buf.static fun _ => 0
    let t := (bufSystem csalConfig).run (allocTraceBuf csalConfig s (some 0x10000))
      [.fetch threeOfMany, .decode true, .fetch eightBytes, .decode true]
    t.traceBuf = 0x40000000 ∧ t.traceBufSize = 0x1000000 ∧
      t.windows = [(0, [1, 2, 3]), (3, [0, 0, 0, 0, 0, 1, 2, 3, 4, 5, 6, 7, 8])] ∧
      t.seen = 2 ∧ Padded (t.chunks.take t.seen) (t.windows.flatMap Prod.snd) := by
  intro s t
  have hrun : ((bufSystem csalConfig).restrict (Smooth csalConfig)).machine.Run
      (allocTraceBuf csalConfig s (some 0x10000))
      [.fetch threeOfMany, .decode true, .fetch eightBytes, .decode true] t :=
    Guarded.run_of_applicable (by decide +kernel)
  obtain ⟨-, -, -, -, hpadded, -⟩ := trace_stream_intact csalConfig
    (.of_init ⟨_, rfl⟩) (by decide +kernel) (.inl rfl) (by decide +kernel) hrun
  exact ⟨by decide +kernel, by decide +kernel, by decide +kernel, by decide +kernel,
    hpadded⟩

end TraceBuf
end CsTrace
