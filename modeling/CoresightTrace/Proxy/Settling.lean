import CoresightTrace.Governor.Climb
import CoresightTrace.Proxy.Frequency

/-!
# Where the governor settles

The governor knows nothing of the board but the overflows it sees. Here the board is
given: a child's trace overflows exactly when it ran above a limit, one limit for
the runs without branch broadcast and one for those with it (`Board`), and the
frequency it ran at is the speed the policy holds when the trace is stopped. In
every run of AFL++, the proxy and the forkserver in which no call fails, each search
is then a search of a ladder (`Governor/Climb.lean`).

What connects them is that a result is a trial of the search's own rung, or of the
floor for the forced attempt (`Tracked.trial`):

* from the `SIGCONT` of a child to the end of its trace the frequency is the one
  that was meant (`Tracked.runs`);
* a forced attempt follows an overflow, so no clean exec is counted for its rung
  when it starts (`Tracked.fresh`);
* a ramp is made before the first result, and ends at the last rung below the limit
  (`OnRamp`). In edge mode this is the second ramp, since the first is made without
  branch broadcast.

`overflow_budget` bounds the overflows of both modes from the first test case on,
and `search_settles` says where the positions come to rest.
-/

namespace CsTrace
namespace CsProxy

open Governor

variable {cfg : Config} {s : FSys} {p q : Proxy} {forced : Bool}

/-! ### The board -/

/-- The highest frequencies at which a child's trace is complete. -/
structure Board where
  /-- Without branch broadcast. -/
  plain : ℕ
  /-- With branch broadcast. -/
  broadcast : ℕ

/-- Branch broadcast is on in the runs of a task. -/
def Task.broadcasts (cfg : Config) : Task → Bool
  | .calibrate _ _ again =>
    match cfg.covType with
    | .hybrid => true
    | .edge => again
    | .path => false
  | .attempt _ => cfg.covType == .edge
  | .confirm | .sample => true

/-- The limit of a run. -/
def Board.limit (b : Board) (broadcasts : Bool) : ℕ :=
  if broadcasts then b.broadcast else b.plain

/-- The limit of a mode's runs: the addr pass is the one with branch broadcast. -/
def Board.limitOf (b : Board) : FreqMode → ℕ
  | .atom => b.plain
  | .addr => b.broadcast

/-- The run conditions: the governor is enabled, no call fails, and a trace overflows
exactly above the limit. -/
def Steady (cfg : Config) (b : Board) (s : FSys) (l : FLabel) : Bool :=
  Governed s l &&
    match l with
    | .inl (.finish t o) =>
      o == decide (b.limit (t.broadcasts cfg) < s.sys.proxy.gov.policy.scalingSetspeed)
    | .inl (.forked _ w) => decide (0 ≤ w.val.toInt)
    | .inl _ => true
    | .inr _ => false

/-- The mode whose search a task's result goes to. -/
def Task.mode (cfg : Config) : Task → FreqMode
  | .calibrate mode _ _ => mode
  | .attempt _ => cfg.currentFreqMode
  | .confirm | .sample => .addr

/-- A result goes to the search with the limit it was made under, except in a ramp
without branch broadcast. -/
theorem limit_broadcasts (b : Board) {t : Task} (ht : ∀ mode i again, t ≠ .calibrate mode i again) :
    b.limit (t.broadcasts cfg) = b.limitOf (t.mode cfg) := by
  cases t with
  | calibrate mode i again => exact absurd rfl (ht mode i again)
  | attempt first => cases hcov : cfg.covType <;>
      simp [Task.broadcasts, Task.mode, Config.currentFreqMode, Board.limit, Board.limitOf, hcov]
  | confirm | sample => rfl

/-- A ramp has the limit of its mode, except edge mode's first. -/
theorem limit_ramp (b : Board) {i : ℕ} {again : Bool} (h : cfg.covType = .edge → again = true) :
    b.limit ((Task.calibrate cfg.rampMode i again).broadcasts cfg) = b.limitOf cfg.rampMode := by
  cases hcov : cfg.covType with
  | edge => simp [Task.broadcasts, Config.rampMode, Config.currentFreqMode, Board.limit,
      Board.limitOf, hcov, h hcov]
  | path | hybrid => simp [Task.broadcasts, Config.rampMode, Config.currentFreqMode, Board.limit,
      Board.limitOf, hcov]

/-! ### Places -/

/-- The task a child is forked, run or waited for. -/
def Pc.task? : Pc → Option Task
  | .fork t | .forked t | .start t | .cont t | .wait t | .finish t => some t
  | .report => some (.attempt true)
  | _ => none

/-- The task whose child runs, or has run and not been judged. -/
def Pc.running? : Pc → Option Task
  | .wait t | .finish t => some t
  | _ => none

/-- The proxy makes a ramp. -/
def Pc.calibrates (pc : Pc) : Bool :=
  match pc.task? with
  | some (.calibrate _ _ _) => true
  | _ => false

/-- The proxy makes an attempt that is not the first. -/
def Pc.repeats (pc : Pc) : Bool :=
  pc.task? == some (.attempt false)

/-- A request is awaited or handed on. -/
def Pc.opening : Pc → Bool
  | .request | .forward | .handed => true
  | _ => false

/-! ### The invariant -/

/-- The proxy is about to make, or makes, rung `i` of a ramp. -/
structure OnRamp (cfg : Config) (b : Board) (p : Proxy) (mode : FreqMode) (i : ℕ) (again : Bool) :
    Prop where
  ofMode : mode = cfg.rampMode
  untried : Untried p.gov
  idx : p.gov.curIdx mode = i - 1
  /-- The rungs before it ran clean. -/
  clean : (cfg.covType = .edge → again = true) → i ≤ cleanRungs p.gov (b.limitOf mode)
  first : again = false → cfg.covType = .edge → p.needsBbEnable = true
  second : again = true → cfg.covType = .edge

/-- The search at the limit that the calibration has found. -/
def Calibrated (cfg : Config) (b : Board) (g : FreqGov) : Prop :=
  cfg.calibrate = true → AtLimit (b.limitOf cfg.rampMode) g cfg.rampMode

/-- The searches between two child runs. -/
structure Primed (cfg : Config) (b : Board) (p : Proxy) : Prop where
  ascending : Ascending p.gov
  climbs : ∀ m, Climbs (b.limitOf m) p.gov m
  calibrated : p.needsCalibration = false

/-- The searches once the governor is initialized. -/
structure Tracked (cfg : Config) (b : Board) (p : Proxy) (forced : Bool) : Prop where
  primed : Primed cfg b p
  ramp : ∀ mode i again, p.pc.task? = some (.calibrate mode i again) →
    OnRamp cfg b p mode i again
  settled : p.pc.calibrates = false → Calibrated cfg b p.gov
  /-- The child that runs does so at the frequency that was meant. -/
  runs : ∀ t, p.pc.running? = some t → p.gov.lastSetFreq = aim cfg p.gov forced t
  /-- A forced attempt starts with nothing counted. -/
  fresh : forced = true → p.pc.repeats = true → (p.gov.ladder cfg.currentFreqMode).holds = 0

/-- The governor in either case. -/
structure Settling (cfg : Config) (b : Board) (p : Proxy) (forced : Bool) : Prop where
  regulated : Regulated cfg p forced
  before : p.firstRun = true →
    p.needsCalibration = cfg.calibrate ∧ p.needsBbEnable = true ∧ p.pc.opening = true
  after : p.firstRun = false → Tracked cfg b p forced

/-! ### Steps that leave the searches alone -/

/-- The searches and what they depend on are the same. -/
structure SameSearch (g g' : FreqGov) : Prop where
  search : ∀ m, g'.search m = g.search m
  table : g'.freqTable = g.freqTable
  window : g'.freqInterval = g.freqInterval

theorem SameSearch.refl (g : FreqGov) : SameSearch g g :=
  ⟨fun _ => rfl, rfl, rfl⟩

theorem sameSearch_setFreq (g : FreqGov) (target : ℕ) : SameSearch g (setFreq g target) :=
  ⟨setFreq_search g target, setFreq_freqTable g target, (setFreq_tallied g target).window⟩

theorem sameSearch_restoreMax (g : FreqGov) : SameSearch g (freqGovRestoreMax g) :=
  ⟨freqGovRestoreMax_search g, (freqGovRestoreMax_fixed g).table,
    (freqGovRestoreMax_tallied g).window⟩

theorem sameSearch_apply (g : FreqGov) (mode : FreqMode) : SameSearch g (freqGovApply g mode) := by
  refine ⟨freqGovApply_search g mode, (freqGovApply_fixed g mode).table, ?_⟩
  rcases Call.tallied g (.apply mode) with ⟨_, _, h⟩ | h
  · cases h
  · exact h.window

theorem SameSearch.untried {g g' : FreqGov} (h : SameSearch g g') (hu : Untried g) :
    Untried g' := by
  intro m
  rw [ladder_of_search (h.search m)]
  exact hu m

variable {b : Board}

theorem Primed.same (h : Primed cfg b p) (hgov : SameSearch p.gov q.gov)
    (hcal : q.needsCalibration = p.needsCalibration) : Primed cfg b q :=
  ⟨h.ascending.of_tallied hgov.table hgov.window,
    fun m => (h.climbs m).keep (hgov.search m) hgov.table, hcal.trans h.calibrated⟩

theorem OnRamp.same {mode : FreqMode} {i : ℕ} {again : Bool} (h : OnRamp cfg b p mode i again)
    (hgov : SameSearch p.gov q.gov) (hbb : q.needsBbEnable = p.needsBbEnable) :
    OnRamp cfg b q mode i again := by
  refine ⟨h.ofMode, hgov.untried h.untried, ?_, ?_, ?_, h.second⟩
  · exact (congrArg ModeSearch.curIdx (hgov.search mode)).trans h.idx
  · rw [cleanRungs_congr hgov.table]
    exact h.clean
  · rw [hbb]
    exact h.first

theorem Calibrated.same {g g' : FreqGov} (h : Calibrated cfg b g) (hgov : SameSearch g g') :
    Calibrated cfg b g' :=
  fun hc => (h hc).keep (hgov.search _) hgov.table

/-- A place without a ramp or a running child. -/
theorem Tracked.of_primed (h : Primed cfg b p) (hcal : Calibrated cfg b p.gov)
    (hramp : p.pc.calibrates = false) (hrun : p.pc.running? = none)
    (hfresh : forced = true → p.pc.repeats = true →
      (p.gov.ladder cfg.currentFreqMode).holds = 0) : Tracked cfg b p forced := by
  refine ⟨h, ?_, fun _ => hcal, ?_, hfresh⟩
  · intro mode i again htask
    simp [Pc.calibrates, htask] at hramp
  · intro t ht
    simp [hrun] at ht

/-- A step that leaves the searches alone and stays with its task. -/
theorem Tracked.move (h : Tracked cfg b p forced) (hgov : SameSearch p.gov q.gov)
    (hcal : q.needsCalibration = p.needsCalibration) (hbb : q.needsBbEnable = p.needsBbEnable)
    (htask : q.pc.task? = p.pc.task?)
    (hruns : ∀ t, q.pc.running? = some t → q.gov.lastSetFreq = aim cfg q.gov forced t) :
    Tracked cfg b q forced := by
  refine ⟨h.primed.same hgov hcal, ?_, ?_, hruns, ?_⟩
  · intro mode i again hq
    exact (h.ramp mode i again (htask ▸ hq)).same hgov hbb
  · intro hq
    refine (h.settled ?_).same hgov
    unfold Pc.calibrates at hq ⊢
    rw [← htask]
    exact hq
  · intro hforced hq
    rw [ladder_of_search (hgov.search _)]
    refine h.fresh hforced ?_
    unfold Pc.repeats at hq ⊢
    rw [← htask]
    exact hq

/-! ### The ramps -/

theorem Primed.launch (h : Primed cfg b p) (hcal : Calibrated cfg b p.gov) :
    Tracked cfg b p.launch forced := by
  have hpc : p.launch.pc = .fork (.attempt true) ∨ p.launch.pc = .start (.attempt true) := by
    unfold Proxy.launch
    dsimp only
    split
    · exact .inl rfl
    · exact .inr rfl
  refine .of_primed ⟨h.ascending, h.climbs, h.calibrated⟩ hcal ?_ ?_ ?_
  · rcases hpc with hpc | hpc <;> rw [hpc] <;> rfl
  · rcases hpc with hpc | hpc <;> rw [hpc] <;> rfl
  · intro _ hrep
    rcases hpc with hpc | hpc <;> rw [hpc] at hrep <;> cases hrep

/-- A rung is started. -/
theorem OnRamp.rungOr {mode : FreqMode} {i : ℕ} {again : Bool} {ended : Proxy}
    (h : OnRamp cfg b p mode i again) (hp : Primed cfg b p)
    (hended : ¬ i < p.gov.freqTable.length → Tracked cfg b ended forced) :
    Tracked cfg b (p.rungOr mode again i ended) forced := by
  unfold Proxy.rungOr
  split
  · have hsame := sameSearch_setFreq p.gov (p.gov.freqAt i)
    -- whether the child was handed over or is forked, the place is one of the rung
    have hplace : ∀ pc : Pc, pc.task? = some (.calibrate mode i again) → pc.running? = none →
        Tracked cfg b { p with
          gov := setFreq p.gov (p.gov.freqAt i), haveChild := false, pc := pc } forced := by
      intro pc htask hrun
      refine ⟨hp.same hsame rfl, ?_, ?_, ?_, ?_⟩
      · intro mode' i' again' ht
        obtain ⟨rfl, rfl, rfl⟩ : mode' = mode ∧ i' = i ∧ again' = again := by
          simpa [htask, eq_comm] using ht
        exact h.same hsame rfl
      · intro hpc
        simp [Pc.calibrates, htask] at hpc
      · intro t ht
        simp [hrun] at ht
      · intro _ hrep
        simp [Pc.repeats, htask] at hrep
    split
    · exact hplace _ rfl rfl
    · exact hplace _ rfl rfl
  · next hend => exact hended hend

/-- The position of a mode is set while nothing has been counted. -/
theorem Primed.setIdx (h : Primed cfg b p) (hu : Untried p.gov) (ht : Tabled p.gov)
    (mode : FreqMode) {i : ℕ} (hi : i < p.gov.freqTable.length) :
    Primed cfg b (p.setIdx mode i) ∧ Untried (p.setIdx mode i).gov := by
  have huntried : Untried (p.setIdx mode i).gov := fun m => hu m
  refine ⟨⟨h.ascending.of_tallied rfl rfl, ?_, h.calibrated⟩, huntried⟩
  intro m
  exact .of_untried huntried _ ((ht.setIdx mode hi).curIdx m)

/-- A ramp starts at the floor. -/
theorem Primed.ramp (h : Primed cfg b p) (hu : Untried p.gov) (hs : Steered p.gov) {again : Bool}
    {ended : Proxy → Proxy} (hfirst : again = false → cfg.covType = .edge → p.needsBbEnable = true)
    (hsecond : again = true → cfg.covType = .edge) :
    Tracked cfg b (p.ramp cfg.rampMode again ended) forced := by
  have hpos : 0 < p.gov.freqTable.length := Nat.zero_lt_of_lt (hs.tabled.curIdx .addr)
  obtain ⟨hprimed, huntried⟩ := h.setIdx hu hs.tabled cfg.rampMode hpos
  have honramp : OnRamp cfg b (p.setIdx cfg.rampMode 0) cfg.rampMode 0 again :=
    ⟨rfl, huntried, setMode_self _ _ _, fun _ => Nat.zero_le _, hfirst, hsecond⟩
  unfold Proxy.ramp
  rw [if_neg (by simp [hs.enabled])]
  refine honramp.rungOr hprimed ?_
  intro hend
  exact absurd hpos hend

/-- The first ramp is over: the second follows in edge mode. -/
theorem Primed.endFirstRamp (h : Primed cfg b p) (hu : Untried p.gov) (hs : Steered p.gov) {n : ℕ}
    (hn : 0 < n) (hbb : cfg.covType = .edge → p.needsBbEnable = true)
    (hcal : cfg.covType ≠ .edge → Calibrated cfg b p.gov) :
    Tracked cfg b (p.endFirstRamp cfg n) forced := by
  unfold Proxy.endFirstRamp
  by_cases hhyb : cfg.covType = .hybrid
  · -- the path pass starts where the addr pass settled, which is not calibrated itself
    have hne : cfg.covType ≠ .edge := by simp [hhyb]
    have hcopy : Untried (freqGovCopyStart p.gov .atom .addr) := fun m => hu m
    have hprimed : Primed cfg b { p with
        didCalibrate := decide (0 < n), gov := freqGovCopyStart p.gov .atom .addr } := by
      refine ⟨h.ascending.of_tallied rfl rfl, ?_, h.calibrated⟩
      intro m
      exact .of_untried hcopy _ ((hs.tabled.copyStart .atom .addr).curIdx m)
    unfold Proxy.bbEnable
    rw [if_pos hhyb, if_neg (by simp [hne])]
    refine hprimed.launch ?_
    intro hc
    refine (hcal hne hc).keep ?_ rfl
    have hmode : cfg.rampMode = .addr := by simp [Config.rampMode, hhyb]
    rw [hmode]
    simp [FreqGov.search, freqGovCopyStart, setMode]
  · rw [if_neg hhyb]
    unfold Proxy.bbEnable
    by_cases hedge : cfg.covType = .edge
    · rw [if_pos ⟨hbb hedge, hedge⟩, if_pos (by simpa using hn)]
      have hmode : cfg.currentFreqMode = cfg.rampMode := by simp [Config.rampMode, hhyb]
      rw [hmode]
      refine Primed.ramp (p := { p with
        didCalibrate := decide (0 < n), needsBbEnable := false, haveChild := false })
        ⟨h.ascending, h.climbs, h.calibrated⟩ hu hs (fun hf => absurd hf (by simp)) (fun _ => hedge)
    · rw [if_neg (by simp [hedge])]
      exact Primed.launch ⟨h.ascending, h.climbs, h.calibrated⟩ (hcal hedge)

/-- **A ramp ends at the limit.** The rung that overflowed is the first above it, and a
ramp without an overflow goes to the top. -/
theorem OnRamp.endRamp {mode : FreqMode} {i n : ℕ} {again : Bool} (h : OnRamp cfg b p mode i again)
    (hp : Primed cfg b p) (hs : Steered p.gov) (hn : 0 < n)
    (hend : (cfg.covType = .edge → again = true) → cleanRungs p.gov (b.limitOf mode) = i) :
    Tracked cfg b (p.endRamp cfg again n) forced := by
  have hcal : (cfg.covType = .edge → again = true) → Calibrated cfg b p.gov := by
    intro hc _
    refine .of_untried h.untried ?_
    rw [← h.ofMode, hend hc]
    exact h.idx
  unfold Proxy.endRamp
  cases again with
  | true => exact hp.launch (hcal fun _ => rfl)
  | false =>
    refine hp.endFirstRamp h.untried hs hn (h.first rfl) ?_
    intro hne
    exact hcal fun hedge => absurd hedge hne

/-! ### Results -/

/-- **A result is a trial of the search's rung, or of the floor.** -/
theorem Tracked.trial (h : Tracked cfg b p forced) (hr : Tuned cfg p forced) {t : Task} {o : Bool}
    (hpc : p.pc = .finish t) (ht : ∀ mode i again, t ≠ .calibrate mode i again)
    (ho : o = decide (b.limit (t.broadcasts cfg) < p.gov.policy.scalingSetspeed)) :
    (p.gov.ladder (t.mode cfg)).Trial (cleanRungs p.gov (b.limitOf (t.mode cfg))) o := by
  have hlast := h.runs t (by rw [hpc]; rfl)
  have htab := hr.steered.tabled
  have hpos : 0 < p.gov.freqTable.length := Nat.zero_lt_of_lt (htab.curIdx .addr)
  -- the outcome at a rung of the table
  have hrung (i : ℕ) (hi : i < p.gov.freqTable.length)
      (haim : aim cfg p.gov forced t = p.gov.freqAt i) :
      o = decide (cleanRungs p.gov (b.limitOf (t.mode cfg)) ≤ i) := by
    have hspeed := (hr.steered.mirrors.pinnedAt (hlast.trans haim) (hr.steered.freqAt_pos hi)).speed
    rw [ho, hspeed, limit_broadcasts b ht]
    exact h.primed.ascending.overflows_iff _ hi
  cases t with
  | calibrate mode i again => exact absurd rfl (ht mode i again)
  | attempt first =>
    by_cases hforced : first = false ∧ forced = true
    · obtain ⟨rfl, hf⟩ := hforced
      refine .inr ⟨?_, h.fresh hf (by rw [hpc]; rfl)⟩
      rw [hrung 0 hpos (by simp [aim, hf])]
      exact decide_eq_decide.mpr Nat.le_zero
    · refine .inl (hrung (p.gov.curIdx cfg.currentFreqMode) (htab.curIdx _) ?_)
      exact if_neg hforced
  | confirm | sample => exact .inl (hrung _ (htab.curIdx _) rfl)

/-- The searches after a result of `mode`. -/
theorem Primed.onResult (h : Primed cfg b p) (he : p.gov.enabled = true) {mode : FreqMode}
    {o : Bool} (ht : (p.gov.ladder mode).Trial (cleanRungs p.gov (b.limitOf mode)) o)
    (hgov : q.gov.search = (p.gov.attempted mode o).search)
    (htable : q.gov.freqTable = p.gov.freqTable)
    (hwindow : q.gov.freqInterval = (p.gov.attempted mode o).freqInterval)
    (hcal : q.needsCalibration = p.needsCalibration) : Primed cfg b q := by
  have hsame := sameSearch_restoreMax p.gov
  have hmax : (freqGovRestoreMax p.gov).enabled = true :=
    (freqGovRestoreMax_fixed p.gov).enabled.trans he
  have hasc := h.ascending.of_tallied hsame.table hsame.window
  have htable' : q.gov.freqTable = (p.gov.attempted mode o).freqTable :=
    htable.trans (p.gov.attempted_fixed mode o).table.symm
  refine ⟨(hasc.onResult hmax mode o).of_tallied htable' hwindow, ?_, hcal.trans h.calibrated⟩
  intro m
  refine Climbs.keep (g := p.gov.attempted mode o) ?_ (congrFun hgov m) htable'
  have hclimbs := (h.climbs m).keep (hsame.search m) hsame.table
  by_cases hm : m = mode
  · rw [hm] at hclimbs ⊢
    refine hclimbs.onResult hasc hmax ?_
    rw [ladder_of_search (hsame.search mode), cleanRungs_congr hsame.table]
    exact ht
  · exact hclimbs.keep (freqGovOnResult_search_of_ne _ o hm)
      (freqGovOnResult_fixed (freqGovRestoreMax p.gov) mode o).table

/-- The calibrated search after a result of `mode`. -/
theorem Calibrated.onResult (h : Calibrated cfg b p.gov) (hp : Primed cfg b p)
    (he : p.gov.enabled = true) {mode : FreqMode} {o : Bool}
    (ht : (p.gov.ladder mode).Trial (cleanRungs p.gov (b.limitOf mode)) o) :
    Calibrated cfg b (p.gov.attempted mode o) := by
  have hsame := sameSearch_restoreMax p.gov
  have hmax : (freqGovRestoreMax p.gov).enabled = true :=
    (freqGovRestoreMax_fixed p.gov).enabled.trans he
  intro hc
  have hlimit := (h hc).keep (hsame.search _) hsame.table
  by_cases hm : cfg.rampMode = mode
  · rw [hm] at hlimit ⊢
    refine hlimit.onResult (hp.ascending.of_tallied hsame.table hsame.window) hmax ?_
    rw [ladder_of_search (hsame.search mode), cleanRungs_congr hsame.table]
    exact ht
  · exact hlimit.keep (freqGovOnResult_search_of_ne _ o hm)
      (freqGovOnResult_fixed (freqGovRestoreMax p.gov) mode o).table

/-! ### The end of a child run -/

theorem OnRamp.endRung {mode : FreqMode} {i : ℕ} {again o : Bool} (h : OnRamp cfg b p mode i again)
    (hp : Primed cfg b p) (hs : Steered p.gov) (hi : i < p.gov.freqTable.length)
    (ho : (cfg.covType = .edge → again = true) →
      o = decide (cleanRungs p.gov (b.limitOf mode) ≤ i)) :
    Tracked cfg b (p.endRung cfg mode i again o) forced := by
  have hsame := sameSearch_restoreMax p.gov
  have hmax : OnRamp cfg b { p with gov := freqGovRestoreMax p.gov } mode i again :=
    h.same hsame rfl
  have hpmax : Primed cfg b { p with gov := freqGovRestoreMax p.gov } := hp.same hsame rfl
  have hlen : i < (freqGovRestoreMax p.gov).freqTable.length := by
    rw [hsame.table]
    exact hi
  have hclean := cleanRungs_congr hsame.table (b.limitOf mode)
  unfold Proxy.endRung
  dsimp only
  split
  · next hover =>
    refine hmax.endRamp hpmax hs.restoreMax (Nat.succ_pos i) ?_
    intro hc
    have hle : cleanRungs p.gov (b.limitOf mode) ≤ i := by
      rw [ho hc] at hover
      exact of_decide_eq_true hover
    exact hclean.trans (le_antisymm hle (h.clean hc))
  · next hover =>
    obtain ⟨hpset, huntried⟩ := hpmax.setIdx hmax.untried hs.restoreMax.tabled mode hlen
    have hnext : OnRamp cfg b
        (({ p with gov := freqGovRestoreMax p.gov } : Proxy).setIdx mode i) mode (i + 1) again := by
      refine ⟨h.ofMode, huntried, setMode_self _ _ _, ?_, h.first, h.second⟩
      intro hc
      rw [ho hc, decide_eq_true_eq, not_le] at hover
      exact hclean ▸ hover
    refine hnext.rungOr hpset ?_
    intro hend
    refine hnext.endRamp hpset (hs.restoreMax.setIdx mode hlen) (Nat.succ_pos i) ?_
    intro hc
    exact le_antisymm (le_trans (cleanRungs_le _ _) (not_lt.mp hend)) (hnext.clean hc)

/-- The outcome of an attempt. -/
theorem Tracked.finish_attempt (h : Tracked cfg b p forced) (hr : Tuned cfg p forced)
    {first o : Bool} (hpc : p.pc = .finish (.attempt first)) (hdec : cfg.decodingOn = true)
    (ho : o = decide (b.limit ((Task.attempt first).broadcasts cfg) <
      p.gov.policy.scalingSetspeed)) :
    Tracked cfg b (p.finish cfg (.attempt first) o)
      ((endAttempt p.gov cfg.currentFreqMode p.curRepetitionNum p.forcedMinDone
        (cfg.decodingOn && o)).2 == .forceMin) := by
  have he := hr.steered.enabled
  have htrial : (p.gov.ladder cfg.currentFreqMode).Trial
      (cleanRungs p.gov (b.limitOf cfg.currentFreqMode)) o :=
    h.trial hr hpc (fun _ _ _ hne => by cases hne) ho
  have hcal := (h.settled (by rw [hpc]; rfl)).onResult h.primed he htrial
  -- the searches are those of the result, whatever comes next
  have hnext (g : FreqGov) (next : Next)
      (hg : SameSearch (p.gov.attempted cfg.currentFreqMode o) g)
      (hforce : next = .forceMin → o = true) :
      Tracked cfg b
        (({ (({ p with status := p.waitStatus } : Proxy).count o) with gov := g } :
          Proxy).afterAttempt cfg next) (next == .forceMin) := by
    have hprimed (q : Proxy) (hq : q.gov = g) (hn : q.needsCalibration = p.needsCalibration) :
        Primed cfg b q := by
      refine h.primed.onResult he htrial ?_ ?_ ?_ hn <;> rw [hq]
      · exact funext hg.search
      · exact hg.table.trans (p.gov.attempted_fixed _ o).table
      · exact hg.window
    have hplace (q : Proxy) (hq : q.gov = g) (hn : q.needsCalibration = p.needsCalibration)
        (hramp : q.pc.calibrates = false) (hrun : q.pc.running? = none) :
        Tracked cfg b q (next == .forceMin) := by
      refine .of_primed (hprimed q hq hn) (hq ▸ hcal.same hg) hramp hrun ?_
      intro hforced _
      -- the attempt that asked for a forced one has overflowed
      have hover := hforce (beq_iff_eq.mp hforced)
      rw [hq, ladder_of_search (hg.search _)]
      have hmax : (freqGovRestoreMax p.gov).enabled = true :=
        (freqGovRestoreMax_fixed p.gov).enabled.trans he
      unfold FreqGov.attempted
      rw [freqGovOnResult_ladder hmax, hover, Ladder.step_fall]
    cases next with
    | done =>
      rcases afterAttempt_done cfg
        ({ (({ p with status := p.waitStatus } : Proxy).count o) with gov := g } : Proxy) with
        hq | hq <;> exact hplace _ rfl rfl (by rw [hq]; rfl) (by rw [hq]; rfl)
    | retry | forceMin => exact hplace _ rfl rfl rfl rfl
  unfold Proxy.finish
  dsimp only
  rw [hdec, Bool.true_and]
  rcases endAttempt_cases p.gov cfg.currentFreqMode p.curRepetitionNum p.forcedMinDone o with
    ⟨hend, -⟩ | ⟨hend, hover, -⟩ | hend <;> rw [hend]
  · exact hnext _ _ (.refl _) nofun
  · exact hnext _ _ ⟨fun _ => rfl, rfl, rfl⟩ fun _ => hover
  · exact hnext _ _ (.refl _) nofun

/-- The outcome of a child run. -/
theorem Settling.finish (h : Settling cfg b s.sys.proxy s.forced) {t : Task} {o : Bool}
    (hpc : s.sys.proxy.pc = .finish t) (hdec : cfg.decodingOn = true)
    (hf : s.sys.proxy.firstRun = false)
    (ho : o = decide (b.limit (t.broadcasts cfg) < s.sys.proxy.gov.policy.scalingSetspeed)) :
    Tracked cfg b (s.sys.proxy.finish cfg t o) (s.forces cfg t o) := by
  have hr := h.regulated.after hf
  have ht := h.after hf
  cases t with
  | calibrate mode i again =>
    have hramp := ht.ramp mode i again (by rw [hpc]; rfl)
    have hi : i < s.sys.proxy.gov.freqTable.length := hr.rung i (by rw [hpc]; rfl)
    have hlast := ht.runs _ (by rw [hpc]; rfl)
    have hspeed := (hr.steered.mirrors.pinnedAt hlast (hr.steered.freqAt_pos hi)).speed
    change Tracked cfg b (s.sys.proxy.endRung cfg mode i again (cfg.decodingOn && o)) _
    rw [hdec, Bool.true_and]
    refine hramp.endRung ht.primed hr.steered hi ?_
    intro hc
    rw [ho, hspeed, hramp.ofMode, limit_ramp b hc]
    exact ht.primed.ascending.overflows_iff _ hi
  | attempt first => exact ht.finish_attempt hr hpc hdec ho
  | confirm | sample =>
    have htrial := ht.trial hr hpc (fun _ _ _ hne => by cases hne) ho
    have hcal := (ht.settled (by rw [hpc]; rfl)).onResult ht.primed hr.steered.enabled htrial
    refine .of_primed ?_ hcal rfl rfl (fun _ hrep => by cases hrep)
    exact ht.primed.onResult hr.steered.enabled htrial rfl
      (s.sys.proxy.gov.attempted_fixed _ o).table rfl rfl

/-! ### The start of a test case -/

/-- The searches when a child was handed over. -/
theorem Settling.handed (h : Settling cfg b p forced) (hpc : p.pc = .handed) {r : InitReads}
    (hr : p.firstRun = true →
      r.disabled = false ∧ 0 < r.cpuinfoMinFreq ∧ r.cpuinfoMinFreq ≤ r.cpuinfoMaxFreq)
    (pid : Raw) : Tracked cfg b (p.handed cfg r pid) false := by
  -- without a ramp the first attempt is next
  have hlaunch (q : Proxy) (hq : Primed cfg b q) (hcal : Calibrated cfg b q.gov)
      (hdid : q.didCalibrate = false) : Tracked cfg b (q.bbEnable cfg) false := by
    unfold Proxy.bbEnable
    rw [hdid]
    split
    · exact Primed.launch ⟨hq.ascending, hq.climbs, hq.calibrated⟩ hcal
    · exact hq.launch hcal
  unfold Proxy.handed Proxy.initOnce
  dsimp only
  cases hf : p.firstRun with
  | false =>
    have ht := h.after hf
    simp only [ht.primed.calibrated, Bool.false_eq_true, if_false]
    refine hlaunch _ ⟨ht.primed.ascending, ht.primed.climbs, rfl⟩ ?_ rfl
    exact ht.settled (by rw [hpc]; rfl)
  | true =>
    obtain ⟨hneeds, hbb, -⟩ := h.before hf
    obtain ⟨hd, hpos, hle⟩ := hr hf
    obtain ⟨hsteered, -⟩ :=
      (h.regulated.before hf).1.init (decide (cfg.covType = .edge)) hd hpos hle
    have huntried : Untried (freqGovInit p.gov r (decide (cfg.covType = .edge))) := by
      intro m
      unfold freqGovInit
      rw [hd]
      exact ⟨rfl, rfl, rfl⟩
    have hasc := Ascending.init p.gov (decide (cfg.covType = .edge)) hd
    have hclimbs (m : FreqMode) : Climbs (b.limitOf m)
        (freqGovInit p.gov r (decide (cfg.covType = .edge))) m :=
      .of_untried huntried _ (hsteered.tabled.curIdx m)
    simp only [if_true, hneeds]
    split
    · exact Primed.ramp ⟨hasc, hclimbs, rfl⟩ huntried hsteered (fun _ _ => hbb)
        (fun hf => absurd hf (by simp))
    · next hno =>
      exact hlaunch _ ⟨hasc, hclimbs, by simpa using hno⟩ (fun hc => absurd hc hno) rfl

/-! ### Runs -/

section FirstRun

theorem rungOr_firstRun {mode : FreqMode} {again : Bool} {i : ℕ} {ended : Proxy} {f : Bool}
    (hp : p.firstRun = f) (hended : ended.firstRun = f) :
    (p.rungOr mode again i ended).firstRun = f := by
  unfold Proxy.rungOr
  split
  · exact hp
  · exact hended

theorem ramp_firstRun {mode : FreqMode} {again : Bool} {ended : Proxy → Proxy}
    (hended : ∀ q, (ended q).firstRun = q.firstRun) :
    (p.ramp mode again ended).firstRun = p.firstRun := by
  unfold Proxy.ramp
  split
  · exact hended p
  · exact rungOr_firstRun rfl (hended _)

theorem bbEnable_firstRun (cfg : Config) (p : Proxy) :
    (p.bbEnable cfg).firstRun = p.firstRun := by
  unfold Proxy.bbEnable
  split
  · split
    · exact ramp_firstRun fun _ => rfl
    · rfl
  · rfl

theorem endRamp_firstRun (cfg : Config) (again : Bool) (n : ℕ) (p : Proxy) :
    (p.endRamp cfg again n).firstRun = p.firstRun := by
  unfold Proxy.endRamp
  split
  · rfl
  · exact bbEnable_firstRun cfg _

theorem finish_firstRun (cfg : Config) (p : Proxy) (t : Task) (o : Bool) :
    (p.finish cfg t o).firstRun = p.firstRun := by
  cases t with
  | calibrate mode i again =>
    change (p.endRung cfg mode i again (cfg.decodingOn && o)).firstRun = p.firstRun
    unfold Proxy.endRung
    dsimp only
    split
    · exact endRamp_firstRun cfg again _ _
    · exact rungOr_firstRun rfl (endRamp_firstRun cfg again _ _)
  | attempt first =>
    unfold Proxy.finish Proxy.afterAttempt
    dsimp only
    split <;> rfl
  | confirm | sample => rfl

/-- The governor is initialized when the first child was handed over. -/
theorem handed_firstRun (cfg : Config) (p : Proxy) (r : InitReads) (pid : Raw) :
    (p.handed cfg r pid).firstRun = false := by
  unfold Proxy.handed
  dsimp only
  split
  · exact ramp_firstRun fun q => bbEnable_firstRun cfg _
  · exact bbEnable_firstRun cfg _

end FirstRun

/-- A step of the proxy within a test case: the governor is initialized, and stays so. -/
theorem Settling.within (h : Settling cfg b p forced) {forced' : Bool}
    (hreg : Regulated cfg q forced') (hpc : p.pc.opening = false) (hfirst : q.firstRun = p.firstRun)
    (hq : p.firstRun = false → Tracked cfg b q forced') : Settling cfg b q forced' := by
  have hf : p.firstRun = false := by
    by_contra hf
    simp [(h.before (by simpa using hf)).2.2] at hpc
  refine ⟨hreg, ?_, fun _ => hq hf⟩
  intro hf'
  simp [hfirst, hf] at hf'

/-- A step that leaves the governor alone and stays with its task. -/
theorem Settling.move (h : Settling cfg b p forced) (hreg : Regulated cfg q forced)
    (hpc : p.pc.opening = false) (hgov : q.gov = p.gov) (hfirst : q.firstRun = p.firstRun)
    (hcal : q.needsCalibration = p.needsCalibration) (hbb : q.needsBbEnable = p.needsBbEnable)
    (htask : q.pc.task? = p.pc.task?)
    (hruns : p.firstRun = false → ∀ t, q.pc.running? = some t →
      p.gov.lastSetFreq = aim cfg p.gov forced t) : Settling cfg b q forced := by
  refine h.within hreg hpc hfirst ?_
  intro hf
  refine (h.after hf).move ?_ hcal hbb htask ?_
  · rw [hgov]
    exact .refl _
  · rw [hgov]
    exact hruns hf

/-- A step outside the child runs. -/
theorem Tracked.between (h : Tracked cfg b p forced) (hpc : p.pc.calibrates = false)
    (hgov : q.gov = p.gov) (hcal : q.needsCalibration = p.needsCalibration)
    (hramp : q.pc.calibrates = false) (hrun : q.pc.running? = none)
    (hrep : q.pc.repeats = false) : Tracked cfg b q forced := by
  have hsame : SameSearch p.gov q.gov := hgov ▸ .refl _
  refine .of_primed (h.primed.same hsame hcal) ((h.settled hpc).same hsame) hramp hrun ?_
  intro _ hq
  exact absurd hq (by simp [hrep])

/-- **Every step keeps the searches.** -/
theorem Settling.proceed (hdec : cfg.decodingOn = true)
    (h : Settling cfg b s.sys.proxy s.forced) {l : Label} (hen : s.enabled (.inl l) = true)
    (hc : Steady cfg b s (.inl l) = true) :
    Settling cfg b (s.proceed cfg l).sys.proxy (s.proceed cfg l).forced := by
  obtain ⟨hgov, hsteady⟩ := Bool.and_eq_true_iff.mp hc
  have hreg := h.regulated.proceed hen hgov
  cases l with
  | readRequest w =>
    have hpc : s.sys.proxy.pc = .request := FSys.pc_of_enabled hen rfl
    refine ⟨hreg, ?_, ?_⟩
    · intro hf
      exact ⟨(h.before hf).1, (h.before hf).2.1, rfl⟩
    · intro hf
      exact (h.after hf).between (by rw [hpc]; rfl) rfl rfl rfl rfl rfl
  | forward =>
    have hpc : s.sys.proxy.pc = .forward := FSys.pc_of_enabled hen rfl
    refine ⟨hreg, ?_, ?_⟩
    · intro hf
      exact ⟨(h.before hf).1, (h.before hf).2.1, rfl⟩
    · intro hf
      exact (h.after hf).between (by rw [hpc]; rfl) rfl rfl rfl rfl rfl
  | handed r w =>
    have hpc : s.sys.proxy.pc = .handed := FSys.pc_of_enabled hen rfl
    have htracked := h.handed hpc (r := r) (by
      intro hf
      simpa [Governed, hf, and_assoc] using hgov) w.val
    refine ⟨hreg, ?_, fun _ => htracked⟩
    intro hf
    exact absurd hf (by simp [FSys.proceed, CsProxy.effect, handed_firstRun])
  | fork t =>
    have hpc : s.sys.proxy.pc = .fork t := FSys.pc_of_enabled hen rfl
    refine h.move hreg (by rw [hpc]; rfl) rfl rfl rfl rfl (by rw [hpc]; rfl) ?_
    rintro _ _ ⟨⟩
  | forked t w =>
    have hpc : s.sys.proxy.pc = .forked t := FSys.pc_of_enabled hen rfl
    have hpos : ¬ w.val.toInt < 0 := by simpa using hsteady
    simp only [FSys.proceed, if_neg hpos] at hreg ⊢
    refine h.move hreg (by rw [hpc]; rfl) rfl rfl rfl rfl (by rw [hpc]; rfl) ?_
    rintro _ _ ⟨⟩
  | start t =>
    have hpc : s.sys.proxy.pc = .start t := FSys.pc_of_enabled hen rfl
    refine h.within hreg (by rw [hpc]; rfl) rfl ?_
    intro hf
    refine (h.after hf).move ?_ rfl rfl ?_ ?_
    · cases t with
      | calibrate => exact .refl _
      | attempt => exact sameSearch_apply _ _
      | confirm | sample => exact sameSearch_apply _ _
    · rw [hpc]
      change (if t = .attempt true then Pc.report else .cont t).task? = some t
      split
      · next ht => rw [ht]; rfl
      · rfl
    · intro t' ht'
      change (if t = .attempt true then Pc.report else .cont t).running? = some t' at ht'
      split at ht' <;> cases ht'
  | report =>
    have hpc : s.sys.proxy.pc = .report := FSys.pc_of_enabled hen rfl
    refine h.move hreg (by rw [hpc]; rfl) rfl rfl rfl rfl (by rw [hpc]; rfl) ?_
    rintro _ _ ⟨⟩
  | cont t =>
    have hpc : s.sys.proxy.pc = .cont t := FSys.pc_of_enabled hen rfl
    have hwait : Settling cfg b (s.sys.proxy.goto (.wait t)) s.forced := by
      refine h.move (h.regulated.wait hpc) (by rw [hpc]; rfl) rfl rfl rfl rfl (by rw [hpc]; rfl) ?_
      -- the frequency was set for this task
      intro hf t' ht'
      obtain rfl : t = t' := Option.some.inj ht'
      have hpin := (h.regulated.after hf).pinned
      rw [hpc] at hpin
      exact hpin
    cases t with
    | attempt first =>
      cases first with
      | true =>
        unfold FSys.proceed
        dsimp only
        split <;> exact hwait
      | false => exact hwait
    | _ => exact hwait
  | readStatus t w =>
    have hpc : s.sys.proxy.pc = .wait t := FSys.pc_of_enabled hen rfl
    refine h.move hreg (by rw [hpc]; rfl) rfl rfl rfl rfl ?_ ?_
    · rw [hpc]
      change (if sigstopped w.val then Pc.wait t else .finish t).task? = some t
      split <;> rfl
    · intro hf t' ht'
      refine (h.after hf).runs t' ?_
      rw [hpc]
      change (if sigstopped w.val then Pc.wait t else .finish t).running? = some t' at ht'
      split at ht' <;> exact ht'
  | finish t o =>
    have hpc : s.sys.proxy.pc = .finish t := FSys.pc_of_enabled hen rfl
    refine h.within hreg (by rw [hpc]; rfl) (finish_firstRun cfg _ t o) ?_
    intro hf
    exact h.finish hpc hdec hf (beq_iff_eq.mp hsteady)
  | verdict confirm =>
    have hpc : s.sys.proxy.pc = .verdict := FSys.pc_of_enabled hen rfl
    have hkeep : (s.sys.proxy.verdict cfg confirm).gov = s.sys.proxy.gov ∧
        (s.sys.proxy.verdict cfg confirm).firstRun = s.sys.proxy.firstRun ∧
        (s.sys.proxy.verdict cfg confirm).needsCalibration = s.sys.proxy.needsCalibration := by
      unfold Proxy.verdict
      split_ifs <;> exact ⟨rfl, rfl, rfl⟩
    refine h.within hreg (by rw [hpc]; rfl) hkeep.2.1 ?_
    intro hf
    have hplace := (h.after hf).between (q := s.sys.proxy.verdict cfg confirm) (by rw [hpc]; rfl)
      hkeep.1 hkeep.2.2
    rcases verdict_spec cfg s.sys.proxy confirm with hnext | hnext | hnext <;>
      exact hplace (by rw [hnext]; rfl) (by rw [hnext]; rfl) (by rw [hnext]; rfl)
  | endTestcase =>
    have hpc : s.sys.proxy.pc = .endTestcase := FSys.pc_of_enabled hen rfl
    refine h.within hreg (by rw [hpc]; rfl) rfl ?_
    intro hf
    exact (h.after hf).between (by rw [hpc]; rfl) rfl rfl rfl rfl rfl
  | ask | fsFork | fsWritePid | relay => exact h

/-- **What a run keeps.** -/
theorem Settling.of_run {policy : CpuPolicy} {ls : List FLabel} (hdec : cfg.decodingOn = true)
    (hpolicy : policy.scalingMinFreq ≤ policy.scalingMaxFreq)
    (hrun : ((faultSystem cfg).restrict (Steady cfg b)).machine.Run (.initial cfg policy) ls s) :
    Settling cfg b s.sys.proxy s.forced := by
  refine hrun.invariant (I := fun s => Settling cfg b s.sys.proxy s.forced) ?_ ?_
  · rintro s l _ h ⟨hen, rfl⟩
    obtain ⟨hg, hc⟩ := Bool.and_eq_true_iff.mp hen
    rcases l with l | f
    · exact h.proceed hdec hg hc
    · exact absurd (Bool.and_eq_true_iff.mp hc).2 Bool.false_ne_true
  · exact ⟨⟨fun _ => ⟨.static hpolicy, rfl⟩, nofun⟩, fun _ => ⟨rfl, rfl, rfl⟩, nofun⟩

/-- Outside the ramps. -/
theorem calibrates_of_rung {pc : Pc} (h : pc.rung = none) : pc.calibrates = false := by
  cases pc with
  | fork t | forked t | start t | cont t | wait t | finish t =>
    cases t with
    | calibrate => cases h
    | _ => rfl
  | _ => rfl

/-- Path coverage with calibration. -/
def rampedConfig : Config :=
  ⟨.path, true, true, 0, false⟩

/-- A board that traces completely at 600 and not at 1200. -/
def slowBoard : Board :=
  ⟨600, 600⟩

/-- A ramp over both rungs and a first attempt. -/
def rampedRun : List FLabel :=
  [.inl (.ask 0), .inl (.readRequest 0), .inl .forward, .inl (.fsFork 10), .inl .fsWritePid,
    .inl (.handed ⟨false, 1200, 600, [1200, 600], "schedutil", 600, 1200, 0⟩ ⟨10, true, 1⟩),
    .inl (.start (.calibrate .atom 0 false)), .inl (.cont (.calibrate .atom 0 false)),
    .inl (.relay 0), .inl (.readStatus (.calibrate .atom 0 false) ⟨0, false, 1⟩),
    .inl (.finish (.calibrate .atom 0 false) false), .inl (.fork (.calibrate .atom 1 false)),
    .inl (.fsFork 11), .inl .fsWritePid, .inl (.forked (.calibrate .atom 1 false) ⟨11, true, 2⟩),
    .inl (.start (.calibrate .atom 1 false)), .inl (.cont (.calibrate .atom 1 false)),
    .inl (.relay 0), .inl (.readStatus (.calibrate .atom 1 false) ⟨0, false, 2⟩),
    .inl (.finish (.calibrate .atom 1 false) true), .inl (.fork (.attempt true)),
    .inl (.fsFork 12), .inl .fsWritePid, .inl (.forked (.attempt true) ⟨12, true, 3⟩),
    .inl (.start (.attempt true)), .inl .report, .inl (.cont (.attempt true)), .inl (.relay 0),
    .inl (.readStatus (.attempt true) ⟨0, false, 3⟩), .inl (.finish (.attempt true) false)]

/-- Where it leads. -/
def ramped : FSys :=
  (faultSystem rampedConfig).run (.initial rampedConfig ⟨600, 1200, 0, "schedutil"⟩) rampedRun

theorem rampedRun_steady :
    ((faultSystem rampedConfig).restrict (Steady rampedConfig slowBoard)).machine.Run
      (.initial rampedConfig ⟨600, 1200, 0, "schedutil"⟩) rampedRun ramped :=
  Guarded.run_of_applicable
    (G := (faultSystem rampedConfig).restrict (Steady rampedConfig slowBoard)) (by decide +kernel)

/-- **The positions come to rest at the limit.** On a board with limits, in every run
in which no call fails, a mode that has made `MAX_FREQ_INTERVAL` execs for each rung
of the table has its position at the last rung below the limit or at the next one
(at the floor if all are above), and so has the mode that was calibrated from its
first exec on. -/
theorem search_settles (cfg : Config) (b : Board) (policy : CpuPolicy) (ls : List FLabel)
    (s : FSys) (hdec : cfg.decodingOn = true)
    (hpolicy : policy.scalingMinFreq ≤ policy.scalingMaxFreq)
    (hrun : ((faultSystem cfg).restrict (Steady cfg b)).machine.Run (.initial cfg policy) ls s)
    (hinit : s.sys.proxy.firstRun = false) (mode : FreqMode)
    (htried : maxFreqInterval * s.sys.proxy.gov.freqTable.length ≤
        s.sys.proxy.gov.totalExecs mode ∨
      cfg.calibrate = true ∧ mode = cfg.rampMode ∧ s.sys.proxy.pc.rung = none) :
    let g := s.sys.proxy.gov
    (∀ i, i < g.curIdx mode → g.freqAt i ≤ b.limitOf mode) ∧
      ∀ i, g.curIdx mode < i → i < g.freqTable.length → b.limitOf mode < g.freqAt i := by
  intro g
  have hs := Settling.of_run hdec hpolicy hrun
  have htab := (hs.regulated.after hinit).steered.tabled
  have ht := hs.after hinit
  have hnear : (g.ladder mode).Near (cleanRungs g (b.limitOf mode)) := by
    rcases htried with hexecs | ⟨hcal, rfl, hpc⟩
    · exact (ht.primed.climbs mode).approaches.near hexecs
    · exact (ht.settled (calibrates_of_rung hpc) hcal).near
  obtain ⟨hlow, hhigh⟩ := hnear
  refine ⟨?_, ?_⟩
  · intro i hi
    apply (ht.primed.ascending.freqAt_le_iff _ (lt_trans hi (htab.curIdx mode))).mpr
    exact lt_of_lt_of_le hi hhigh
  · intro i hi hlen
    rw [← not_le, ht.primed.ascending.freqAt_le_iff _ hlen, not_lt]
    exact le_trans hlow hi

/-- The ramp leaves the position at the floor, with the limit in front of the rung above. -/
theorem search_settles_ramped :
    ramped.sys.proxy.gov.curIdx .atom = 0 ∧
      slowBoard.limitOf .atom < ramped.sys.proxy.gov.freqAt 1 := by
  have hidx : ramped.sys.proxy.gov.curIdx .atom = 0 := by decide +kernel
  refine ⟨hidx, ?_⟩
  refine (search_settles rampedConfig slowBoard _ rampedRun ramped rfl (by decide) rampedRun_steady
    (by decide +kernel) .atom (.inr ⟨rfl, rfl, by decide +kernel⟩)).2 1 ?_ (by decide +kernel)
  rw [hidx]
  exact Nat.one_pos

end CsProxy
end CsTrace
