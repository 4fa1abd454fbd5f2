import CoresightTrace.Framework.CPrint
import CoresightTrace.Framework.Publish
import CoresightTrace.Hybrid.Books
import CoresightTrace.Proxy.Measured

/-!
# The statistics file

The proxy is killed, not asked to exit, so the file of `AFLCS_STATS_FILE` is all that is
left of its counts. `write_stats()` prints them to a second file and renames it over the
first. Whoever reads the file is to find a whole report.

* `Report` — the figures, with the lines they are printed on and how they are read;
  `Report.read_text` is the round trip;
* `tmpName` — the name of the second file, cut off at the size of its buffer;
* `statsPublisher` — a campaign of hybrid mode with the writer of `Framework/Publish.lean`;
* `stats_file_whole_iff` — in every run the file is what it was, or a report of the
  campaign whose figures are read back and balance (`Report.Balanced`), exactly if the
  name of the file is not 4095 characters long. At that length there is room for nothing
  of `.tmp`, and the report is written over the file that is read.
-/

namespace CsTrace
namespace CsProxy

open Governor Hybrid CText

variable {n : ℕ}

/-! ### The report -/

/-- What `write_stats()` prints. -/
structure Report where
  execs : ℕ
  overflowExecs : ℕ
  overflowPackets : ℕ
  /-- The figures of the filter, in hybrid mode. -/
  hybrid : Option HybridStats
deriving DecidableEq

/-- The lines of `hybrid_write_stats()`. Those of the samples are printed only if there
was one. -/
def hybridEntries (h : HybridStats) : List Entry :=
  [⟨"hybrid_path_execs  ", [h.pathExecs]⟩,
    ⟨"hybrid_filtered    ", [h.filtered]⟩,
    ⟨"hybrid_old_path    ", [h.oldPath]⟩,
    ⟨"hybrid_confirmed   ", [h.confirmed]⟩,
    ⟨"hybrid_new_edges   ", [h.newEdges]⟩,
    ⟨"hybrid_new_tuples  ", [h.newTuples]⟩,
    ⟨"hybrid_input_hits  ", [h.inputHits]⟩,
    ⟨"hybrid_cache_hits  ", [h.cacheHits]⟩,
    ⟨"hybrid_empty       ", [h.empty]⟩,
    ⟨"hybrid_purges      ", [h.purgeReal, h.purgeAttempt]⟩] ++
  if h.sampleExecs = 0 ∧ h.sampleOverflow = 0 then []
  else
    [⟨"sample_execs       ", [h.sampleExecs]⟩,
      ⟨"sample_overflow    ", [h.sampleOverflow]⟩,
      ⟨"sample_new_edges   ", [h.sampleNewEdges]⟩,
      ⟨"sample_new_tuples  ", [h.sampleNewTuples]⟩,
      ⟨"sample_new_filtered", [h.sampleNewFiltered]⟩,
      ⟨"sample_missed_tuples", [h.sampleMissedTuples]⟩]

/-- The lines of the report. -/
def Report.entries (r : Report) : List Entry :=
  [⟨"execs           ", [r.execs]⟩,
    ⟨"overflow_execs  ", [r.overflowExecs]⟩,
    ⟨"overflow_packets", [r.overflowPackets]⟩] ++
  r.hybrid.elim [] hybridEntries

def Report.text (r : Report) : List Char := entriesText r.entries

/-- The first figure after a label, 0 where there is none. -/
def figure (label : String) (text : List Char) : ℕ := (figures label text).headD 0

/-- The figures of the filter in a report, if it has any. -/
def readHybrid (text : List Char) : Option HybridStats :=
  if figures "hybrid_path_execs  " text = [] then none
  else some
    { pathExecs := figure "hybrid_path_execs  " text
      filtered := figure "hybrid_filtered    " text
      oldPath := figure "hybrid_old_path    " text
      confirmed := figure "hybrid_confirmed   " text
      newEdges := figure "hybrid_new_edges   " text
      newTuples := figure "hybrid_new_tuples  " text
      inputHits := figure "hybrid_input_hits  " text
      cacheHits := figure "hybrid_cache_hits  " text
      empty := figure "hybrid_empty       " text
      purgeReal := figure "hybrid_purges      " text
      purgeAttempt := (figures "hybrid_purges      " text).getD 1 0
      sampleExecs := figure "sample_execs       " text
      sampleOverflow := figure "sample_overflow    " text
      sampleNewEdges := figure "sample_new_edges   " text
      sampleNewTuples := figure "sample_new_tuples  " text
      sampleNewFiltered := figure "sample_new_filtered" text
      sampleMissedTuples := figure "sample_missed_tuples" text }

/-- A text read as a report. -/
def Report.read (text : List Char) : Option Report :=
  if figures "execs           " text = [] then none
  else some
    { execs := figure "execs           " text
      overflowExecs := figure "overflow_execs  " text
      overflowPackets := figure "overflow_packets" text
      hybrid := readHybrid text }

theorem Report.entries_plain (r : Report) : ∀ e ∈ r.entries, e.Plain := by
  have hhybrid (h : HybridStats) : ∀ e ∈ hybridEntries h, e.Plain := by
    unfold hybridEntries
    split <;> simp [Entry.Plain]
  unfold Report.entries
  rw [List.forall_mem_append]
  refine ⟨by simp [Entry.Plain], ?_⟩
  cases r.hybrid with
  | none => simp
  | some h => exact hhybrid h

/-- **A report is read back**, if it has no figures of samples where there was none. -/
theorem Report.read_text (r : Report)
    (hsamples : ∀ h, r.hybrid = some h → h.sampleExecs = 0 → h.sampleOverflow = 0 →
      h.sampleNewEdges = 0 ∧ h.sampleNewTuples = 0 ∧ h.sampleNewFiltered = 0 ∧
        h.sampleMissedTuples = 0) :
    Report.read r.text = some r := by
  have hfigures (label : String) (hl : ':' ∉ label.toList) :
      figures label r.text = ((r.entries.find? (·.label = label)).map (·.values)).getD [] :=
    figures_entriesText r.entries_plain hl
  unfold Report.read readHybrid figure
  obtain ⟨execs, overflowExecs, overflowPackets, hybrid⟩ := r
  cases hybrid with
  | none => simp [hfigures, Report.entries]
  | some h =>
    by_cases hnone : h.sampleExecs = 0 ∧ h.sampleOverflow = 0
    · obtain ⟨hedges, htuples, hfiltered, hmissed⟩ := hsamples h rfl hnone.1 hnone.2
      have hh : h = { h with
          sampleExecs := 0, sampleOverflow := 0, sampleNewEdges := 0, sampleNewTuples := 0
          sampleNewFiltered := 0, sampleMissedTuples := 0 } := by
        cases h
        simp_all
      simp [hfigures, Report.entries, hybridEntries, hnone, ← hh]
    · simp [hfigures, Report.entries, hybridEntries, hnone]

theorem Report.text_take_one (r : Report) : r.text.take 1 = ['e'] := by
  simp [Report.text, entriesText, Report.entries, Entry.text]

/-! ### The session -/

/-- The report on a session. Stalker's decoder counts no overflow packets. -/
def Session.report (cfg : Config) (s : Session n) : Report where
  execs := s.proxy.totalExecCount
  overflowExecs := s.proxy.overflowExecCount
  overflowPackets := 0
  hybrid := if cfg.covType = .hybrid then some s.hybrid.stats else none

/-- A report that balances, for a map of `n` bytes. -/
structure Report.Balanced (r : Report) (n : ℕ) : Prop where
  /-- It is made when a period is full. -/
  period : r.execs % statsPeriod = 0
  overflows : r.overflowExecs ≤ r.execs
  hybrid : ∀ h, r.hybrid = some h → h.Balanced n ∧
    h.pathExecs + h.confirmed + h.sampleExecs + h.sampleOverflow ≤ r.execs

/-- The books of a session with `owed` confirms still to be run. -/
structure Session.Booked (owed : ℕ) (s : Session n) : Prop where
  books : Hybrid.Balanced owed 0 s.hybrid
  execs : s.hybrid.runs ≤ s.proxy.totalExecCount + owed
  overflows : s.proxy.overflowExecCount ≤ s.proxy.totalExecCount

section Booked

variable {cfg : Config} {s : Session n}

/-- One more run keeps the overflows below the runs. -/
theorem overflowed_le {a b : ℕ} (h : a ≤ b) (o : Bool) : (if o then a + 1 else a) ≤ b + 1 := by
  cases o
  · exact Nat.le_succ_of_le h
  · exact Nat.succ_le_succ h

theorem Session.Booked.confirm (h : s.Booked 1) (A : PurgeArith) (cfg : Config)
    (run : CpuPolicy → RunResult n) : (s.confirmWithBranchBroadcast A cfg run).Booked 0 := by
  unfold Session.confirmWithBranchBroadcast Session.childRun
  dsimp only
  rw [finish_edge (.inl rfl)]
  refine ⟨h.books.afterConfirm _ _ _, ?_, overflowed_le h.overflows _⟩
  dsimp only
  rw [hybridAfterConfirm_runs]
  exact h.execs

theorem Session.Booked.sample (h : s.Booked 0) (cfg : Config) (run : CpuPolicy → RunResult n) :
    (s.sampleWithBranchBroadcast cfg run).Booked 0 := by
  unfold Session.sampleWithBranchBroadcast Session.childRun
  dsimp only
  rw [finish_edge (.inr rfl)]
  refine ⟨h.books.afterSample _ _, ?_, overflowed_le h.overflows _⟩
  dsimp only
  rw [hybridAfterSample_runs]
  exact Nat.succ_le_succ h.execs

/-- The hybrid branch is entered with the path pass run and not yet booked. -/
theorem Session.Booked.hybridBranch (h : s.Booked 0)
    (hrun : s.hybrid.runs + 1 ≤ s.proxy.totalExecCount) (A : PurgeArith) (cfg : Config)
    (tc : Testcase n) (overflowed : Bool) : (s.hybridBranch A cfg tc overflowed).1.Booked 0 := by
  have hpath := h.books.afterPath (sourcePolicy A) s.traceBitmap overflowed tc.inputKey
  have hruns := hybridAfterPath_runs (sourcePolicy A) s.traceBitmap overflowed s.hybrid tc.inputKey
  unfold Session.hybridBranch
  dsimp only
  generalize hybridAfterPath (sourcePolicy A) s.traceBitmap overflowed tc.inputKey s.hybrid = r
    at hpath hruns ⊢
  cases hv : r.verdict with
  | confirm =>
    rw [if_pos hv] at hpath hruns
    have hjudged : (s.judged cfg r).Booked 1 ∧ (s.judged cfg r).proxy.pc = .fork .confirm := by
      unfold Session.judged
      rw [decide_eq_true hv, (verdict_cases cfg s.proxy).1]
      refine ⟨⟨hpath, ?_, h.overflows⟩, rfl⟩
      dsimp only
      omega
    rw [if_pos hjudged.2]
    exact hjudged.1.confirm A cfg tc.confirm
  | discard =>
    have hne : r.verdict ≠ .confirm := by simp [hv]
    rw [if_neg hne] at hpath hruns
    have hjudged : (s.judged cfg r).Booked 0 ∧ (s.judged cfg r).proxy.pc ≠ .fork .confirm := by
      unfold Session.judged
      rw [decide_eq_false hne, (verdict_cases cfg s.proxy).2]
      refine ⟨⟨hpath, ?_, h.overflows⟩, ?_⟩
      · dsimp only
        omega
      · dsimp only
        split <;> simp
    rw [if_neg hjudged.2]
    split
    · exact hjudged.1.sample cfg tc.sample
    · exact hjudged.1

/-- **A test case keeps the books.** -/
theorem Session.Booked.testcase (h : s.Booked 0) (hs : s.Sound) (A : PurgeArith)
    (hcov : cfg.covType = .hybrid) (hdec : cfg.decodingOn = true) (reads : InitReads)
    (tc : Testcase n) : (s.testcase A cfg reads tc).1.Booked 0 := by
  unfold Session.testcase
  dsimp only
  generalize (s.handed cfg reads tc).policyOf cfg (.attempt true) = policy
  generalize tc.path policy = r
  obtain ⟨-, -, heq⟩ := hs.path hcov hdec reads tc r
  generalize (s.handed cfg reads tc).childRun cfg (.attempt true) r = t at heq ⊢
  have hrun : t.hybrid.runs + 1 ≤ t.proxy.totalExecCount := by
    rw [heq]
    exact Nat.succ_le_succ h.execs
  have hpath : t.Booked 0 := by
    refine ⟨?_, Nat.le_of_succ_le hrun, ?_⟩
    · rw [heq]
      exact h.books
    · rw [heq]
      exact overflowed_le h.overflows _
  split
  · have hb := hpath.hybridBranch hrun A cfg tc (cfg.decodingOn && r.overflowed)
    exact ⟨hb.books, hb.execs, hb.overflows⟩
  · exact ⟨hpath.books, hpath.execs, hpath.overflows⟩

/-- A session whose books balance reports balanced figures, and they are read back. -/
theorem Session.Booked.report (h : s.Booked 0) (hdue : s.proxy.totalExecCount % statsPeriod = 0)
    (cfg : Config) :
    (s.report cfg).Balanced n ∧ Report.read (s.report cfg).text = some (s.report cfg) := by
  have hhybrid (hs : HybridStats) (heq : (s.report cfg).hybrid = some hs) :
      hs = s.hybrid.stats := by
    unfold Session.report at heq
    dsimp only at heq
    split at heq
    · exact (Option.some.inj heq).symm
    · cases heq
  refine ⟨⟨hdue, h.overflows, ?_⟩, Report.read_text _ ?_⟩
  · intro hs heq
    obtain rfl := hhybrid hs heq
    exact ⟨h.books.stats, h.execs⟩
  · intro hs heq hnone _
    obtain rfl := hhybrid hs heq
    have hb := h.books.stats
    have hedges : s.hybrid.stats.sampleNewEdges = 0 :=
      Nat.le_zero.mp (hnone ▸ hb.sampleEdges)
    exact ⟨hedges, Nat.le_zero.mp (hedges ▸ hb.sampleTuples),
      Nat.le_zero.mp (hedges ▸ hb.sampleFiltered), hb.unsampled hnone⟩

end Booked

/-! ### The campaign -/

/-- Campaigns of hybrid mode, a test case at a time. -/
def campaign (n : ℕ) (A : PurgeArith) (cfg : Config) (reads : InitReads) :
    Machine (Session n) (Testcase n) where
  init s := ∃ policy shots pathCls pathKept edgeCls bitmap saved,
    policy.scalingMinFreq ≤ policy.scalingMaxFreq ∧
      s = Session.launch cfg policy reads shots pathCls pathKept edgeCls bitmap saved
  step s tc s' := s' = (s.testcase A cfg reads tc).1

/-- `tmp` of `write_stats()`: a buffer of `PATH_MAX` holds 4095 characters. -/
def tmpName (path : List Char) : List Char := (path ++ ".tmp".toList).take 4095

/-- A campaign with its statistics file. -/
def statsPublisher (n : ℕ) (A : PurgeArith) (cfg : Config) (reads : InitReads) (path : List Char) :
    Publisher (Session n) (Testcase n) (List Char) Char where
  machine := campaign n A cfg reads
  due s := decide (s.proxy.totalExecCount % statsPeriod = 0)
  text s := (s.report cfg).text
  path := path
  fresh := tmpName path

/-- The name of the second file is another one, but for one length. -/
theorem tmpName_eq_iff (path : List Char) : tmpName path = path ↔ path.length = 4095 := by
  unfold tmpName
  constructor
  · intro heq
    have hlen := congrArg List.length heq
    simp at hlen
    omega
  · intro hlen
    rw [← hlen, List.take_left]

section Campaign

variable {A : PurgeArith} {cfg : Config} {reads : InitReads}

/-- Between two test cases of a campaign the session is sound and its books balance. -/
theorem campaign_booked (hcov : cfg.covType = .hybrid) (hdec : cfg.decodingOn = true)
    (hreads : reads.disabled = false →
      0 < reads.cpuinfoMinFreq ∧ reads.cpuinfoMinFreq ≤ reads.cpuinfoMaxFreq)
    {s : Session n} (h : (campaign n A cfg reads).Reachable s) : s.Sound ∧ s.Booked 0 := by
  refine h.invariant (I := fun s => s.Sound ∧ s.Booked 0) ?_ ?_
  · rintro _ ⟨policy, shots, pathCls, pathKept, edgeCls, bitmap, saved, hpolicy, rfl⟩
    refine ⟨.launch hpolicy hreads shots pathCls pathKept edgeCls bitmap saved, ?_, le_rfl, le_rfl⟩
    exact balanced_of_reachable (f := .initial pathCls pathKept edgeCls)
      (.of_init ⟨pathCls, pathKept, edgeCls, rfl⟩)
  · rintro s tc _ ⟨hsound, hbooked⟩ rfl
    exact ⟨hsound.testcase A hcov hdec reads tc, hbooked.testcase hsound A hcov hdec reads tc⟩

/-- A test case that is killed by a signal. -/
def killed (n : ℕ) : Testcase n where
  pid := 100
  prepare map := map
  inputKey := 0
  path _ := ⟨fun map => map, false, 9⟩
  confirm _ := ⟨fun map => map, false, 0⟩
  sample _ := ⟨fun map => map, false, 0⟩

/-- It is one exec. -/
theorem testcase_killed {s : Session n} (hs : s.Sound) (hcov : cfg.covType = .hybrid)
    (hdec : cfg.decodingOn = true) :
    (s.testcase A cfg reads (killed n)).1.proxy.totalExecCount = s.proxy.totalExecCount + 1 := by
  unfold Session.testcase
  dsimp only
  generalize (s.handed cfg reads (killed n)).policyOf cfg (.attempt true) = policy
  obtain ⟨-, -, heq⟩ := hs.path hcov hdec reads (killed n) ((killed n).path policy)
  generalize (s.handed cfg reads (killed n)).childRun cfg (.attempt true)
    ((killed n).path policy) = t at heq ⊢
  have hpc : t.proxy.pc = .endTestcase := by
    rw [heq]
    exact if_pos (by decide : wifsignaled 9 = true)
  rw [if_neg (by simp [hpc])]
  change t.proxy.totalExecCount = _
  rw [heq]

/-- A campaign can make any number of execs. -/
theorem exists_run (hcov : cfg.covType = .hybrid) (hdec : cfg.decodingOn = true)
    (hreads : reads.disabled = false →
      0 < reads.cpuinfoMinFreq ∧ reads.cpuinfoMinFreq ≤ reads.cpuinfoMaxFreq) (k : ℕ) :
    ∃ s₀ ls s, (campaign n A cfg reads).init s₀ ∧ (campaign n A cfg reads).Run s₀ ls s ∧
      s.proxy.totalExecCount = k := by
  induction k with
  | zero =>
    refine ⟨_, [], _, ⟨⟨0, 0, 0, ""⟩, none, fun _ => 0, fun _ => 0, fun _ => 0, fun _ => 0,
      fun _ => 0, le_rfl, rfl⟩, .nil, rfl⟩
  | succ k ih =>
    obtain ⟨s₀, ls, s, hinit, hrun, hk⟩ := ih
    obtain ⟨hs, -⟩ := campaign_booked hcov hdec hreads ⟨s₀, ls, hinit, hrun⟩
    refine ⟨s₀, _, _, hinit, hrun.snoc (l := killed n) rfl, ?_⟩
    rw [testcase_killed hs hcov hdec, hk]

end Campaign

/-- **The statistics file is whole.** Whatever was at its name before, in every run of a
campaign in which no report is cut short by a full disk, and at every moment of the
writing, the file at `path` is what it was, or a report on the campaign: its figures are
those of a session at the end of a test case, they are read back from the text, and they
balance. This is so exactly if `path` is not 4095 characters long. -/
theorem stats_file_whole_iff (A : PurgeArith) (cfg : Config) (hcov : cfg.covType = .hybrid)
    (hdec : cfg.decodingOn = true) (reads : InitReads)
    (hreads : reads.disabled = false →
      0 < reads.cpuinfoMinFreq ∧ reads.cpuinfoMinFreq ≤ reads.cpuinfoMaxFreq)
    (path : List Char) (disk : Disk (List Char) Char) :
    (∀ t, (((statsPublisher n A cfg reads path).system disk).restrict Publisher.Full).Reachable t →
      t.disk path = disk path ∨
        ∃ s text, (campaign n A cfg reads).Reachable s ∧ t.disk path = some text ∧
          Report.read text = some (s.report cfg) ∧ (s.report cfg).Balanced n) ↔
      path.length ≠ 4095 := by
  constructor
  · intro hwhole hlen
    have hname : tmpName path = path := (tmpName_eq_iff path).mpr hlen
    obtain ⟨s₀, ls, s, hinit, hrun, hk⟩ :=
      exists_run (n := n) (A := A) hcov hdec hreads (statsPeriod - 1)
    obtain ⟨hs, -⟩ := campaign_booked hcov hdec hreads ⟨s₀, ls, hinit, hrun⟩
    have hdue : (statsPublisher n A cfg reads path).due
        (s.testcase A cfg reads (killed n)).1 = true := by
      change decide (_ % statsPeriod = 0) = true
      rw [testcase_killed hs hcov hdec, hk]
      decide
    -- the report is caught when nothing, or one character, has been written of it
    have htorn := Publisher.torn (p := statsPublisher n A cfg reads path) hname hinit hrun
      (l := killed n) rfl hdue disk
    have hnot (text : List Char) (hnone : Report.read text = none) (hold : disk path ≠ some text)
        (k : ℕ) (htext : ((s.testcase A cfg reads (killed n)).1.report cfg).text.take k = text) :
        False := by
      obtain ⟨t, ht, hfile⟩ := htorn k
      replace hfile : t.disk path = some text := hfile.trans (congrArg some htext)
      rcases hwhole t ht with heq | ⟨s', text', -, htext', hread, -⟩
      · exact hold (heq.symm.trans hfile)
      · rw [Option.some.inj (hfile.symm.trans htext'), hread] at hnone
        cases hnone
    by_cases hempty : disk path = some []
    · refine hnot ['e'] (by decide) ?_ 1 (Report.text_take_one _)
      rw [hempty]
      decide
    · exact hnot [] (by decide) hempty 0 (List.take_zero)
  · intro hlen t ht
    have hname : tmpName path ≠ path := fun h => hlen ((tmpName_eq_iff path).mp h)
    rcases Publisher.whole hname ht with hold | ⟨s, hs, hdue, hfile⟩
    · exact .inl hold
    · obtain ⟨-, hbooked⟩ := campaign_booked hcov hdec hreads hs
      obtain ⟨hbalanced, hread⟩ := hbooked.report (of_decide_eq_true hdue) cfg
      exact .inr ⟨s, _, hs, hfile, hread, hbalanced⟩

/-- A file in `/tmp`, on a disk that has none. -/
theorem stats_file_whole_iff_tmp :
    "/tmp/aflcs_stats".toList.length ≠ 4095 ∧
      ∀ t, (((statsPublisher 1 .exact sampleAll unlistedReads "/tmp/aflcs_stats".toList).system
          fun _ => none).restrict Publisher.Full).Reachable t →
        t.disk "/tmp/aflcs_stats".toList = none ∨
          ∃ s text, (campaign 1 .exact sampleAll unlistedReads).Reachable s ∧
            t.disk "/tmp/aflcs_stats".toList = some text ∧
            Report.read text = some (s.report sampleAll) ∧ (s.report sampleAll).Balanced 1 :=
  ⟨by decide, (stats_file_whole_iff .exact sampleAll rfl rfl unlistedReads (fun _ => by decide)
    "/tmp/aflcs_stats".toList fun _ => none).mpr (by decide)⟩

end CsProxy
end CsTrace
