import CoresightTrace.Framework.CWords
import CoresightTrace.Utils.MapInfo

/-!
# The arguments of the decoder

With a trace, `export_trace()` writes a file of the arguments its decoder is to be run with,
and the README runs it with what `cat` prints of that file. `export_decoder_args()` prints a
space in front of each argument and quotes nothing, so the shell cuts a path with a blank in
it, and drops one that is empty. The list is then another, with the numbers out of their
places. `decoder_args_iff` says that the trace, its id and the ranges can be read off it as
they were exported exactly if all the paths are words. That the shell also expands patterns
is left out, and so is what the decoder itself does with the list.
-/

namespace CsTrace
namespace Utils

open CText

/-- What the arguments say. -/
structure DecoderArgs where
  tracePath : List Char
  traceId : ℕ
  ranges : List (List Char × ℕ × ℕ)
deriving DecidableEq, Repr

/-- `0x%x` and `0x%lx`. -/
def hex (n : ℕ) : List Char := '0' :: 'x' :: printed 16 n

/-- The arguments of a range. -/
def rangeWords (m : MapInfo) : List (List Char) := [m.path, hex m.start, hex m.stop]

/-- `export_decoder_args()`: what it writes, if it writes. -/
def exportDecoderArgs (traceId : ℤ) (tracePath : List Char) (mapInfo : List MapInfo) :
    Option (List Char) :=
  if traceId < 0 then none
  else some (spaced ([tracePath, hex traceId.toNat, printed 10 mapInfo.length] ++
    mapInfo.flatMap rangeWords))

/-- The blanks a shell cuts at (`IFS`). -/
def isIfs (c : Char) : Bool := c == ' ' || c == '\t' || c == '\n'

/-- The ranges among the arguments. -/
def readRanges : List (List Char) → Option (List (List Char × ℕ × ℕ))
  | [] => some []
  | path :: start :: stop :: rest => do
    let start ← scanNumber 16 start
    let stop ← scanNumber 16 stop
    let ranges ← readRanges rest
    pure ((path, start.magnitude, stop.magnitude) :: ranges)
  | _ => none

/-- The arguments, read in the order they are written: a trace, its id, and as many ranges
as the next one says. -/
def readArgs : List (List Char) → Option DecoderArgs
  | path :: id :: count :: rest => do
    let id ← scanNumber 16 id
    let count ← scanNumber 10 count
    let ranges ← readRanges rest
    if ranges.length = count.magnitude then pure ⟨path, id.magnitude, ranges⟩ else none
  | _ => none

/-- What was exported. -/
def exported (traceId : ℤ) (tracePath : List Char) (mapInfo : List MapInfo) : DecoderArgs where
  tracePath := tracePath
  traceId := traceId.toNat
  ranges := mapInfo.map fun m => (m.path, m.start, m.stop)

/-! ### Numbers -/

theorem scanNumber_hex (n : ℕ) : scanNumber 16 (hex n) = some ⟨false, n, []⟩ := by
  have hscan : scanNumber 16 ('0' :: 'x' :: (printed 16 n ++ [])) = some ⟨false, n, []⟩ :=
    scanNumber_marked (.inr rfl) n (by simp [Ends])
  rw [List.append_nil] at hscan
  exact hscan

theorem scanNumber_count (n : ℕ) : scanNumber 10 (printed 10 n) = some ⟨false, n, []⟩ := by
  have hscan : scanNumber 10 (printed 10 n ++ []) = some ⟨false, n, []⟩ :=
    scanNumber_printed (by decide) (by decide) n (by simp [Ends])
  rw [List.append_nil] at hscan
  exact hscan

/-- A text of digits and letters is a word to the shell. -/
theorem isWord_digits {w : List Char} (hne : w ≠ []) (hw : ∀ c ∈ w, digitVal c < 36) :
    IsWord isIfs w := by
  refine ⟨hne, fun c hc => ?_⟩
  have hdigit := hw c hc
  unfold isIfs
  rw [Bool.or_eq_false_iff, Bool.or_eq_false_iff]
  refine ⟨⟨?_, ?_⟩, ?_⟩
  all_goals
    refine beq_false_of_ne ?_
    rintro rfl
    exact absurd hdigit (by decide)

theorem isWord_printed {base : ℕ} (h : 1 < base) (hb : base ≤ 16) (n : ℕ) :
    IsWord isIfs (printed base n) :=
  isWord_digits (printed_ne_nil base n)
    fun c hc => (printed_digit h hb n c hc).trans_le (hb.trans (by decide))

theorem isWord_hex (n : ℕ) : IsWord isIfs (hex n) := by
  refine isWord_digits (List.cons_ne_nil _ _) ?_
  unfold hex
  rw [List.forall_mem_cons, List.forall_mem_cons]
  refine ⟨by decide, by decide, fun c hc => ?_⟩
  exact (printed_digit (by decide) le_rfl n c hc).trans (by decide)

theorem isWord_rangeWords {m : MapInfo} (hm : IsWord isIfs m.path) :
    ∀ w ∈ rangeWords m, IsWord isIfs w := by
  simp only [rangeWords, List.forall_mem_cons, List.not_mem_nil, false_imp_iff, implies_true,
    and_true]
  exact ⟨hm, isWord_hex _, isWord_hex _⟩

/-! ### The way back -/

/-- The ranges are read as they were printed. -/
theorem readRanges_rangeWords (mapInfo : List MapInfo) :
    readRanges (mapInfo.flatMap rangeWords) =
      some (mapInfo.map fun m => (m.path, m.start, m.stop)) := by
  induction mapInfo with
  | nil => rfl
  | cons m mapInfo ih =>
    rw [List.flatMap_cons]
    change (do
      let start ← scanNumber 16 (hex m.start)
      let stop ← scanNumber 16 (hex m.stop)
      let ranges ← readRanges (mapInfo.flatMap rangeWords)
      pure ((m.path, start.magnitude, stop.magnitude) :: ranges)) = _
    rw [scanNumber_hex, scanNumber_hex, ih]
    rfl

/-- The paths that are read stand among the arguments. -/
theorem mem_of_readRanges {ws : List (List Char)} {rs : List (List Char × ℕ × ℕ)}
    (h : readRanges ws = some rs) : ∀ r ∈ rs, r.1 ∈ ws := by
  induction ws using readRanges.induct generalizing rs with
  | case1 =>
    obtain rfl := Option.some.inj h
    simp
  | case2 path start stop rest ih =>
    simp only [readRanges, Option.bind_eq_bind, Option.bind_eq_some_iff, Option.pure_def,
      Option.some.injEq] at h
    obtain ⟨_, -, _, -, ranges, hranges, rfl⟩ := h
    rw [List.forall_mem_cons]
    refine ⟨List.mem_cons_self, fun r hr => ?_⟩
    have hmem := ih hranges r hr
    simp [hmem]
  | case3 ws hnil hcons =>
    rw [readRanges.eq_3 _ hnil hcons] at h
    cases h

theorem mem_of_readArgs {ws : List (List Char)} {args : DecoderArgs}
    (h : readArgs ws = some args) : args.tracePath ∈ ws ∧ ∀ r ∈ args.ranges, r.1 ∈ ws := by
  rcases ws with _ | ⟨path, _ | ⟨id, _ | ⟨count, rest⟩⟩⟩
  · cases h
  · cases h
  · cases h
  · simp only [readArgs, Option.bind_eq_bind, Option.bind_eq_some_iff] at h
    obtain ⟨_, -, _, -, ranges, hranges, h⟩ := h
    split at h
    · obtain rfl := Option.some.inj h
      refine ⟨List.mem_cons_self, fun r hr => ?_⟩
      have hmem := mem_of_readRanges hranges r hr
      simp [hmem]
    · cases h

/-- **The arguments say what was exported** exactly if there is an id and every path is a
word. -/
theorem decoder_args_iff (traceId : ℤ) (tracePath : List Char) (mapInfo : List MapInfo) :
    (exportDecoderArgs traceId tracePath mapInfo).bind (fun text => readArgs (words isIfs text)) =
        some (exported traceId tracePath mapInfo) ↔
      0 ≤ traceId ∧ IsWord isIfs tracePath ∧ ∀ m ∈ mapInfo, IsWord isIfs m.path := by
  unfold exportDecoderArgs
  constructor
  · intro h
    split at h
    · cases h
    · next hid =>
      -- what is read is among the words of the text, and so a word
      obtain ⟨hpath, hranges⟩ := mem_of_readArgs h
      refine ⟨by omega, isWord_of_mem_words hpath, fun m hm => ?_⟩
      exact isWord_of_mem_words (hranges (m.path, m.start, m.stop) (List.mem_map_of_mem hm))
  · rintro ⟨hid, hpath, hmaps⟩
    have hall : ∀ w ∈ [tracePath, hex traceId.toNat, printed 10 mapInfo.length] ++
        mapInfo.flatMap rangeWords, IsWord isIfs w := by
      rw [List.forall_mem_append]
      constructor
      · simp only [List.forall_mem_cons, List.not_mem_nil, false_imp_iff, implies_true, and_true]
        exact ⟨hpath, isWord_hex _, isWord_printed (by decide) (by decide) _⟩
      · intro w hw
        obtain ⟨m, hm, hw⟩ := List.mem_flatMap.mp hw
        exact isWord_rangeWords (hmaps m hm) w hw
    rw [if_neg (by omega), Option.bind_some, (words_spaced_iff rfl _).mpr hall]
    simp only [List.cons_append, List.nil_append, readArgs, scanNumber_hex, scanNumber_count,
      readRanges_rangeWords, Option.bind_eq_bind, Option.bind_some, List.length_map, if_true]
    rfl

end Utils
end CsTrace
