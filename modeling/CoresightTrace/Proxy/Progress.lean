import Mathlib.Data.Prod.Lex
import Mathlib.Order.WellFounded
import CoresightTrace.Proxy.Answers

/-!
# Every request is answered

In step, the proxy and the forkserver never wait for each other: while a request
is served one of them can move (`InStep.not_stuck`). And they do not go on
forever: a ramp has a rung for each frequency, the retry loop counts its
repetitions, and a child run is a fixed number of calls, with one more for each
time the child stops. `rank` counts what is left, and every step but a request
of AFL++ and a stop of the child makes it smaller (`rank_lt`).

`proxy_stays_in_step` puts the results on the protocol together.
-/

namespace CsTrace
namespace CsProxy

open Governor (InitReads CpuPolicy endAttempt maxRepetitionNum)

variable {cfg : Config} {s : Sys} {l : Label}

/-! ### Nobody waits forever -/

/-- The step serves the request: it is no new request and no stop of the child. -/
def Label.works : Label → Bool
  | .ask _ => false
  | .relay status => !sigstopped status
  | _ => true

/-- A token is answered: the forkserver can move, or the pid is there. -/
theorem Awaiting.moves (h : Awaiting s) :
    (∃ l : Label, l.works = true ∧ enabled s l = true) ∨ ∃ w, s.st.head? = some w := by
  cases h with
  | token w ctl st fs => exact .inl ⟨.fsFork 1#32, rfl, by simp [enabled, fs, ctl]⟩
  | forked ctl st fs fresh => exact .inl ⟨.fsWritePid, rfl, by simp [enabled, fs]⟩
  | written ctl st fs fresh => exact .inr ⟨_, by rw [st]; rfl⟩

/-- **While a request is served, a step that serves it can be taken.** -/
theorem InStep.not_stuck (h : InStep s) (hpc : s.proxy.pc ≠ .request) :
    ∃ l, l.works = true ∧ enabled s l = true := by
  have hw := h.wired
  cases hmain : s.proxy.pc with
  | request => exact absurd hmain hpc
  | forward => exact ⟨.forward, rfl, by simp [enabled, hmain]⟩
  | fork t => exact ⟨.fork t, rfl, by simp [enabled, hmain]⟩
  | start t => exact ⟨.start t, rfl, by simp [enabled, hmain]⟩
  | report => exact ⟨.report, rfl, by simp [enabled, hmain]⟩
  | cont t => exact ⟨.cont t, rfl, by simp [enabled, hmain]⟩
  | finish t => exact ⟨.finish t false, rfl, by simp [enabled, hmain]⟩
  | verdict => exact ⟨.verdict true, rfl, by simp [enabled, hmain]⟩
  | endTestcase => exact ⟨.endTestcase, rfl, by simp [enabled, hmain]⟩
  | handed =>
    rw [hmain] at hw
    rcases hw.moves with ⟨l, hl, hen⟩ | ⟨w, hhead⟩
    · exact ⟨l, hl, hen⟩
    · exact ⟨.handed ⟨false, 0, 0, [], "", 0, 0, 0⟩ w, rfl, by simp [enabled, hmain, hhead]⟩
  | forked t =>
    rw [hmain] at hw
    rcases hw.moves with ⟨l, hl, hen⟩ | ⟨w, hhead⟩
    · exact ⟨l, hl, hen⟩
    · exact ⟨.forked t w, rfl, by simp [enabled, hmain, hhead]⟩
  | wait t =>
    rw [hmain] at hw
    cases hw with
    | relaying ctl last resumed fs stops =>
      -- the child runs, and may exit
      exact ⟨.relay 0, by decide, by simp [enabled, fs, resumed]⟩
    | ended ws v ctl last fs st stops lastStatus terminal =>
      cases hhead : s.st.head? with
      | none => simp [st] at hhead
      | some w => exact ⟨.readStatus t w, rfl, by simp [enabled, hmain, hhead]⟩

/-! ### What is left to do -/

/-- The words and tokens on their way before a pid is read. -/
def Sys.transit (s : Sys) : ℕ :=
  3 * s.ctl.length + (if s.fs = .writePid then 2 else 0) + s.st.length

/-- The calls left in the current request, each child run that may come counted as
sixteen. -/
def Sys.callsLeft (s : Sys) : ℕ :=
  match s.proxy.pc with
  | .request => 0
  | .forward => 4
  | .handed => s.transit
  | .fork t => 16 * s.proxy.runsLeft t + 12
  | .forked t => 16 * s.proxy.runsLeft t + 8 + s.transit
  | .start t => 16 * s.proxy.runsLeft t + 8
  | .report => 16 * s.proxy.runsLeft (.attempt true) + 7
  | .cont t => 16 * s.proxy.runsLeft t + 6
  | .wait t => 16 * s.proxy.runsLeft t + 3 + s.st.length + (if s.fs = .relay then 2 else 0)
  | .finish t => 16 * s.proxy.runsLeft t + 2
  | .verdict => 17
  | .endTestcase => 1

/-- The request is handed over to the forkserver: the governor's table, which
bounds the ramps, is not known yet. -/
def Pc.handing : Pc → ℕ
  | .forward | .handed => 1
  | _ => 0

/-- What is left to do for the current request. -/
def rank (s : Sys) : ℕ ×ₗ ℕ :=
  toLex (s.proxy.pc.handing, s.callsLeft)

theorem rank_lt_of_callsLeft {t : Sys} (hh : t.proxy.pc.handing ≤ s.proxy.pc.handing)
    (hc : t.callsLeft < s.callsLeft) : rank t < rank s := by
  unfold rank
  rw [Prod.Lex.toLex_lt_toLex]
  rcases Nat.lt_or_eq_of_le hh with hlt | heq
  · exact .inl hlt
  · exact .inr ⟨heq, hc⟩

theorem callsLeft_of_settling (h : s.proxy.pc = .verdict ∨ s.proxy.pc = .endTestcase) :
    s.callsLeft ≤ 17 := by
  unfold Sys.callsLeft
  rcases h with hpc | hpc <;> simp [hpc]

theorem runsLeft_attempt_le (p : Proxy) : p.runsLeft (.attempt true) ≤ maxRepetitionNum + 2 := by
  unfold Proxy.runsLeft
  dsimp only
  split <;> omega

/-- A repetition is spent, or the forced run. -/
theorem endAttempt_spends (g : Governor.FreqGov) (mode : Governor.FreqMode) (rep : ℕ)
    (forced o : Bool) :
    ((endAttempt g mode rep forced o).2 = .retry → rep < maxRepetitionNum) ∧
      ((endAttempt g mode rep forced o).2 = .forceMin → forced = false) := by
  unfold endAttempt
  dsimp only
  split
  · next h =>
    refine ⟨fun _ => ?_, by rintro ⟨⟩⟩
    simp only [Governor.freqGovShouldRetry, Bool.and_eq_true, decide_eq_true_eq] at h
    exact h.2
  · split
    · next h => exact ⟨by rintro ⟨⟩, fun _ => h.2.2.1⟩
    · constructor <;> rintro ⟨⟩

/-- The end of a child run uses it up. -/
theorem InStep.finish_rank_lt (h : InStep s) {t : Task} {o : Bool} (hpc : s.proxy.pc = .finish t) :
    rank (effect cfg s (.finish t o)) < rank s := by
  have hramp : Pc.ramping s.proxy (.finish t) := hpc ▸ h.ramping
  have hbefore : s.callsLeft = 16 * s.proxy.runsLeft t + 2 := by simp [Sys.callsLeft, hpc]
  cases t with
  | calibrate mode i again =>
    -- the ramp goes on with a later rung, or gives way to the attempts
    have hpos : maxRepetitionNum + 3 ≤ s.proxy.runsLeft (.calibrate mode i again) :=
      Nat.le_add_left _ _
    rcases endRung_refork cfg mode i (cfg.decodingOn && o) hramp with
      hnext | ⟨mode', i', again', hnext, -, hruns⟩
    · refine rank_lt_of_callsLeft (by simp [effect, Proxy.finish, hnext, Pc.handing]) ?_
      have hle := runsLeft_attempt_le (s.proxy.endRung cfg mode i again (cfg.decodingOn && o))
      rw [hbefore]
      simp only [Sys.callsLeft, effect, Proxy.finish, hnext]
      omega
    · refine rank_lt_of_callsLeft (by simp [effect, Proxy.finish, hnext, Pc.handing]) ?_
      rw [hbefore]
      simp only [Sys.callsLeft, effect, Proxy.finish, hnext]
      omega
  | attempt first =>
    -- a repetition and the forced run are spent, and the loop may end
    obtain ⟨hretry, hforce⟩ := endAttempt_spends s.proxy.gov cfg.currentFreqMode
      s.proxy.curRepetitionNum s.proxy.forcedMinDone (cfg.decodingOn && o)
    have hpos : 1 ≤ s.proxy.runsLeft (.attempt first) := Nat.le_add_left _ _
    simp only [effect, Proxy.finish]
    generalize (endAttempt _ _ _ _ _) = after at hretry hforce
    obtain ⟨g, next⟩ := after
    cases next with
    | retry =>
      have hrep := hretry rfl
      refine rank_lt_of_callsLeft (Nat.zero_le _) ?_
      rw [hbefore]
      simp only [Sys.callsLeft, Proxy.afterAttempt, Proxy.count, Proxy.runsLeft]
      omega
    | forceMin =>
      have hforced := hforce rfl
      refine rank_lt_of_callsLeft (Nat.zero_le _) ?_
      rw [hbefore]
      simp only [Sys.callsLeft, Proxy.afterAttempt, Proxy.count, Proxy.runsLeft, hforced, if_true,
        if_false, Bool.false_eq_true]
      omega
    | done =>
      have hnext := afterAttempt_done cfg
        ({ ({ s.proxy with status := s.proxy.waitStatus } : Proxy).count (cfg.decodingOn && o) with
          gov := g } : Proxy)
      refine rank_lt_of_callsLeft ?_ (lt_of_le_of_lt (callsLeft_of_settling hnext) ?_)
      · rcases hnext with hnext | hnext <;> simp [hnext, Pc.handing]
      · omega
  | confirm | sample =>
    refine rank_lt_of_callsLeft (Nat.zero_le _) ?_
    rw [hbefore]
    simp [effect, Proxy.finish, Sys.callsLeft]

/-- The calls of the forkserver that bring a pid. -/
theorem callsLeft_of_transit {t : Sys} (hproxy : t.proxy = s.proxy)
    (hstage : s.proxy.pc.stage = .awaiting) (h : t.transit < s.transit) :
    t.callsLeft < s.callsLeft := by
  unfold Sys.callsLeft
  rw [hproxy]
  cases hpc : s.proxy.pc with
  | handed => exact h
  | forked t => exact Nat.add_lt_add_left h _
  | _ => simp [hpc, Pc.stage] at hstage

/-- A child that is started is reported or continued next. -/
theorem start_rank_lt {t : Task} (hpc : s.proxy.pc = .start t) :
    rank (effect cfg s (.start t)) < rank s := by
  have hruns : (s.proxy.start cfg t).runsLeft t = s.proxy.runsLeft t := by
    cases t <;> rfl
  have hbefore : s.callsLeft = 16 * s.proxy.runsLeft t + 8 := by simp [Sys.callsLeft, hpc]
  obtain ⟨-, ⟨hnext, rfl⟩ | ⟨hnext, -⟩⟩ := start_spec cfg s.proxy t
  all_goals
    refine rank_lt_of_callsLeft (by simp [effect, hnext, Pc.handing]) ?_
    rw [hbefore]
    simp [Sys.callsLeft, effect, hnext, hruns]

/-- A status that is read is one less to read, and the last one ends the wait. -/
theorem readStatus_rank_lt {t : Task} {w : Word} (hpc : s.proxy.pc = .wait t) (hw : w ∈ s.st) :
    rank (effect cfg s (.readStatus t w)) < rank s := by
  have hst : 0 < s.st.length := List.length_pos_of_mem hw
  have hbefore : s.callsLeft = 16 * s.proxy.runsLeft t + 3 + s.st.length +
      (if s.fs = .relay then 2 else 0) := by simp [Sys.callsLeft, hpc]
  cases hstop : sigstopped w.val with
  | true =>
    refine rank_lt_of_callsLeft (by simp [effect, hstop, Pc.handing]) ?_
    rw [hbefore]
    simp only [Sys.callsLeft, effect, hstop, if_true, List.length_tail]
    change 16 * s.proxy.runsLeft t + 3 + (s.st.length - 1) + _ < _
    omega
  | false =>
    refine rank_lt_of_callsLeft (by simp [effect, hstop, Pc.handing]) ?_
    rw [hbefore]
    simp only [Sys.callsLeft, effect, hstop, if_false, Bool.false_eq_true]
    change 16 * s.proxy.runsLeft t + 2 < _
    omega

/-- The last status that is relayed is one more word to read, and frees the
forkserver. -/
theorem InStep.relay_rank_lt (h : InStep s) {v : Raw} (hfs : s.fs = .relay)
    (hresumed : s.resumed = true) (hlast : sigstopped v = false) :
    rank (effect cfg s (.relay v)) < rank s := by
  obtain ⟨hstage, -⟩ := h.relays hfs hresumed
  refine rank_lt_of_callsLeft le_rfl ?_
  cases hpc : s.proxy.pc with
  | wait t =>
    simp only [effect, Sys.relay, Sys.callsLeft, hpc, hfs, hlast, if_true, if_false,
      Bool.false_eq_true, reduceCtorEq, List.length_append, List.length_singleton]
    omega
  | _ => simp [hpc, Pc.stage] at hstage

/-- **Every step that serves the request leaves less to do.** -/
theorem InStep.rank_lt (h : InStep s) (hen : enabled s l = true) (hl : l.works = true)
    (hreq : s.proxy.pc ≠ .request) : rank (effect cfg s l) < rank s := by
  cases l with
  | ask w => cases hl
  | readRequest w => exact absurd (pc_of_enabled hen rfl) hreq
  | forward =>
    have hpc : s.proxy.pc = .forward := pc_of_enabled hen rfl
    have hw : NoChild s := h.at_stage hpc
    refine rank_lt_of_callsLeft (by simp [effect, Proxy.goto, hpc, Pc.handing]) ?_
    simp [effect, Proxy.goto, Sys.callsLeft, Sys.transit, hpc, hw.ctl, hw.st, hw.fs]
  | handed r w =>
    have hpc : s.proxy.pc = .handed := pc_of_enabled hen rfl
    -- the table is known from here on
    refine Prod.Lex.toLex_lt_toLex.mpr (.inl ?_)
    obtain ⟨-, hnext | ⟨mode, hnext, -⟩⟩ := handed_spec cfg s.proxy r w.val <;>
      simp [effect, hnext, hpc, Pc.handing]
  | fork t =>
    have hpc : s.proxy.pc = .fork t := pc_of_enabled hen rfl
    have hw : NoChild s := h.at_stage hpc
    refine rank_lt_of_callsLeft (Nat.zero_le _) ?_
    have htransit : (effect cfg s (.fork t)).transit = 3 := by
      simp [effect, Sys.transit, hw.ctl, hw.st, hw.fs]
    change 16 * s.proxy.runsLeft t + 8 + (effect cfg s (.fork t)).transit < _
    rw [htransit]
    simp [Sys.callsLeft, hpc]
  | forked t w =>
    have hpc : s.proxy.pc = .forked t := pc_of_enabled hen rfl
    have hw := beq_iff_eq.mp (Bool.and_eq_true_iff.mp hen).2
    have hst : 0 < s.st.length := List.length_pos_of_mem (List.mem_of_head? hw)
    refine rank_lt_of_callsLeft (Nat.zero_le _) ?_
    change 16 * s.proxy.runsLeft t + 8 < _
    simp only [Sys.callsLeft, Sys.transit, hpc]
    omega
  | start t => exact start_rank_lt (pc_of_enabled hen rfl)
  | report =>
    have hpc : s.proxy.pc = .report := pc_of_enabled hen rfl
    refine rank_lt_of_callsLeft (Nat.zero_le _) ?_
    change 16 * s.proxy.runsLeft (.attempt true) + 6 < _
    simp [Sys.callsLeft, hpc]
  | cont t =>
    have hpc : s.proxy.pc = .cont t := pc_of_enabled hen rfl
    have hw : Holding s := h.at_stage hpc
    refine rank_lt_of_callsLeft (Nat.zero_le _) ?_
    change 16 * s.proxy.runsLeft t + 3 + s.st.length + (if s.fs = .relay then 2 else 0) < _
    simp [Sys.callsLeft, hpc, hw.st, hw.fs]
  | readStatus t w =>
    obtain ⟨hpc, hw⟩ := Bool.and_eq_true_iff.mp hen
    exact readStatus_rank_lt (beq_iff_eq.mp hpc) (List.mem_of_head? (beq_iff_eq.mp hw))
  | finish t o => exact h.finish_rank_lt (pc_of_enabled hen rfl)
  | verdict confirm =>
    have hpc : s.proxy.pc = .verdict := pc_of_enabled hen rfl
    have hbefore : s.callsLeft = 17 := by simp [Sys.callsLeft, hpc]
    rcases verdict_spec cfg s.proxy confirm with hnext | hnext | hnext
    all_goals
      refine rank_lt_of_callsLeft (by simp [effect, hnext, Pc.handing]) ?_
      rw [hbefore]
      simp [Sys.callsLeft, effect, hnext, Proxy.runsLeft]
  | endTestcase =>
    have hpc : s.proxy.pc = .endTestcase := pc_of_enabled hen rfl
    refine rank_lt_of_callsLeft (Nat.zero_le _) ?_
    change 0 < _
    simp [Sys.callsLeft, hpc]
  | fsFork pid =>
    simp only [enabled, Bool.and_eq_true, beq_iff_eq, Bool.not_eq_true',
      List.isEmpty_eq_false_iff] at hen
    obtain ⟨hstage, hst, w, hctl⟩ := h.forks hen.1.2
    refine rank_lt_of_callsLeft le_rfl (callsLeft_of_transit rfl hstage ?_)
    simp [effect, Sys.transit, hctl, hst, hen.1.1]
  | fsWritePid =>
    have hfs : s.fs = .writePid := beq_iff_eq.mp hen
    obtain ⟨hstage, hctl, hst, -⟩ := h.writes hfs
    refine rank_lt_of_callsLeft le_rfl (callsLeft_of_transit rfl hstage ?_)
    simp [effect, Sys.transit, hctl, hst, hfs]
  | relay v =>
    obtain ⟨hfs, hresumed⟩ := Bool.and_eq_true_iff.mp hen
    exact h.relay_rank_lt (beq_iff_eq.mp hfs) hresumed (by simpa [Label.works] using hl)

/-! ### The protocol -/

/-- The outer pipe holds a pid and a status for each request that is finished, in
this order: the pid of the first child of its retry loop and the last status of
the last one. A request being served has at most its pid there. -/
def AnsweredInOrder (s : Sys) : Prop :=
  ∃ answers : List (Raw × Raw),
    List.Forall₂ (fun children a => children.head?.map s.pidOf = some a.1 ∧
      children.getLast?.bind s.terminal = some a.2) s.finished answers ∧
    (s.outer = answers.flatMap (fun a => [a.1, a.2]) ∨ s.proxy.pc ≠ .request ∧
      ∃ c, s.current.head? = some c ∧
        s.outer = answers.flatMap (fun a => [a.1, a.2]) ++ [s.pidOf c]) ∧
    s.received = s.finished.length + (if s.proxy.pc = .request then 0 else 1)

/-- A word read as a pid is the pid of the newest child, which was not continued
yet; a word read as a status is a status of the child last continued. -/
def ReadsInStep (s : Sys) : Prop :=
  (∀ r w, enabled s (.handed r w) = true →
    w = ⟨s.pidOf s.forks, true, s.forks⟩ ∧ s.resumed = false) ∧
  (∀ t w, enabled s (.forked t w) = true →
    w = ⟨s.pidOf s.forks, true, s.forks⟩ ∧ s.resumed = false) ∧
  ∀ t w, enabled s (.readStatus t w) = true → w.isPid = false ∧ w.child = s.lastResumed

theorem InStep.reads (h : InStep s) : ReadsInStep s := by
  refine ⟨fun r w hen => ?_, fun t w hen => ?_, fun t w hen => ?_⟩
  all_goals
    obtain ⟨hpc, hw⟩ := Bool.and_eq_true_iff.mp hen
  · have ha : Awaiting s := h.at_stage (beq_iff_eq.mp hpc)
    obtain ⟨⟨hword, -⟩, -, -, hfresh⟩ := ha.head (beq_iff_eq.mp hw)
    exact ⟨hword, hfresh⟩
  · have ha : Awaiting s := h.at_stage (beq_iff_eq.mp hpc)
    obtain ⟨⟨hword, -⟩, -, -, hfresh⟩ := ha.head (beq_iff_eq.mp hw)
    exact ⟨hword, hfresh⟩
  · have hr : Running s := h.at_stage (beq_iff_eq.mp hpc)
    obtain ⟨⟨hpid, hchild, hlast⟩, -⟩ := hr.head (beq_iff_eq.mp hw)
    exact ⟨hpid, hchild.trans hlast.symm⟩

/-- A finished request has both words of its answer. -/
theorem Complete.answer_eq {children : List ℕ} (h : Complete s children) :
    ∃ a : Raw × Raw, (children.head?.map s.pidOf = some a.1 ∧
      children.getLast?.bind s.terminal = some a.2) ∧ answer s children = [a.1, a.2] := by
  obtain ⟨c, v, hlast, hv⟩ := h
  cases children with
  | nil => cases hlast
  | cons c₀ children =>
    refine ⟨(s.pidOf c₀, v), ⟨rfl, by rw [hlast]; exact hv⟩, ?_⟩
    simp [answer, hlast, hv]

theorem Answers.inOrder (h : Answers s) : AnsweredInOrder s := by
  have hall : ∃ answers : List (Raw × Raw),
      List.Forall₂ (fun children a => children.head?.map s.pidOf = some a.1 ∧
        children.getLast?.bind s.terminal = some a.2) s.finished answers ∧
      s.finished.flatMap (answer s) = answers.flatMap fun a => [a.1, a.2] := by
    have hfin := h.finished
    -- by induction on the requests that are finished
    generalize s.finished = finished at hfin
    induction finished with
    | nil => exact ⟨[], .nil, rfl⟩
    | cons children finished ih =>
      obtain ⟨a, ha, heq⟩ := (hfin children (by simp)).answer_eq
      obtain ⟨answers, hans, heqs⟩ := ih fun c hc => hfin c (by simp [hc])
      exact ⟨a :: answers, .cons ha hans, by simp [heq, heqs]⟩
  obtain ⟨answers, hans, heq⟩ := hall
  refine ⟨answers, hans, ?_, h.received⟩
  have houter := h.outer
  rw [heq] at houter
  unfold reported at houter
  split at houter
  · left
    simpa using houter
  · next hpc =>
    right
    have hne : s.proxy.pc ≠ .request := fun hreq => hpc (.inl (by rw [hreq]; rfl))
    have hcur : s.current ≠ [] := h.started (by simpa using fun hu => hpc (.inl hu))
    obtain ⟨c, rest, hcons⟩ := List.exists_cons_of_ne_nil hcur
    refine ⟨hne, c, by rw [hcons]; rfl, ?_⟩
    simpa [hcons] using houter

/-- Away from a request, a step other than a stop of the child does not add work. -/
theorem rank_step {t : Sys} (hs : (proxySystem cfg).machine.Reachable s)
    (hstep : (proxySystem cfg).machine.step s l t) (hreq : ¬ s.proxy.pc = .request)
    (hcalm : ∀ v, l = .relay v → sigstopped v = false) :
    rank t ≤ rank s ∧ (l.works = true → rank t < rank s) := by
  obtain ⟨hen, rfl⟩ := hstep
  cases hl : l.works with
  | true =>
    have hlt : rank (effect cfg s l) < rank s := (InStep.of_reachable hs).rank_lt hen hl hreq
    exact ⟨hlt.le, fun _ => hlt⟩
  | false =>
    refine ⟨le_of_eq ?_, nofun⟩
    cases l with
    | ask w => rfl
    | relay v => simp [Label.works, hcalm v rfl] at hl
    | _ => cases hl

/-- **The proxy stays in step with AFL++ and the forkserver.** In every reachable
state the outer pipe holds the answers of the requests and nothing else, the
inner pipes hold what the proxy reads from them, and a request being served is
served on: some party can move, and an endless run in which the children stop
only finitely often finishes it. -/
theorem proxy_stays_in_step (hs : (proxySystem cfg).machine.Reachable s) :
    AnsweredInOrder s ∧ ReadsInStep s ∧
      (s.proxy.pc ≠ .request → ∃ l : Label, l.works = true ∧ enabled s l = true) ∧
      ∀ states labels, (proxySystem cfg).machine.Endless states labels → states 0 = s →
        (∃ m, ∀ n ≥ m, ∀ v, labels n = .relay v → sigstopped v = false) →
        (∀ n, ∃ k ≥ n, (labels k).works = true) → ∃ n, (states n).proxy.pc = .request := by
  obtain ⟨hstep, hans⟩ := Answers.of_reachable hs
  refine ⟨hans.inOrder, hstep.reads, hstep.not_stuck, ?_⟩
  -- from `m` on every step that serves the request brings its end nearer
  rintro states labels hrun - ⟨m, hcalm⟩ hworks
  obtain ⟨n, -, hgoal⟩ := hrun.eventually (fun _ _ _ => rank_step) hcalm hworks
  exact ⟨n, hgoal⟩

/-- The first request of a calibrating proxy in edge mode. The first ramp ends
on its first rung, whose decode overflows, the second has two rungs, and the retry
loop makes two attempts. The first child stops once before it exits. -/
def calibratedRequest : List Label :=
  let rung := Task.calibrate .addr 0 false
  let rung₀ := Task.calibrate .addr 0 true
  let rung₁ := Task.calibrate .addr 1 true
  [.ask 0, .readRequest 0, .forward, .fsFork 10, .fsWritePid,
    .handed ⟨false, 1200, 600, [1200, 600], "schedutil", 600, 1200, 0⟩ ⟨10, true, 1⟩,
    .start rung, .cont rung, .relay 0x137f, .relay 0, .readStatus rung ⟨0x137f, false, 1⟩,
    .readStatus rung ⟨0, false, 1⟩, .finish rung true,
    .fork rung₀, .fsFork 11, .fsWritePid, .forked rung₀ ⟨11, true, 2⟩, .start rung₀, .cont rung₀,
    .relay 0, .readStatus rung₀ ⟨0, false, 2⟩, .finish rung₀ false,
    .fork rung₁, .fsFork 12, .fsWritePid, .forked rung₁ ⟨12, true, 3⟩, .start rung₁, .cont rung₁,
    .relay 0, .readStatus rung₁ ⟨0, false, 3⟩, .finish rung₁ false,
    .fork (.attempt true), .fsFork 13, .fsWritePid, .forked (.attempt true) ⟨13, true, 4⟩,
    .start (.attempt true), .report, .cont (.attempt true), .relay 0,
    .readStatus (.attempt true) ⟨0, false, 4⟩, .finish (.attempt true) true,
    .fork (.attempt false), .fsFork 14, .fsWritePid, .forked (.attempt false) ⟨14, true, 5⟩,
    .start (.attempt false), .cont (.attempt false), .relay 0x100,
    .readStatus (.attempt false) ⟨0x100, false, 5⟩, .finish (.attempt false) false, .endTestcase]

/-- The answer is the pid of the first attempt and the status of the second. -/
theorem proxy_stays_in_step_calibrated :
    let G := proxySystem ⟨.edge, true, true, 0, false⟩
    let s := G.run (.initial ⟨.edge, true, true, 0, false⟩ ⟨600, 1200, 0, "schedutil"⟩)
      calibratedRequest
    s.outer = [13, 0x100] ∧ s.finished = [[4, 5]] ∧ s.received = 1 ∧
      AnsweredInOrder s ∧ ReadsInStep s := by
  intro G s
  have hs : G.machine.Reachable s :=
    Guarded.reachable_of_applicable (.of_init ⟨_, rfl⟩) (by decide +kernel)
  obtain ⟨houter, hreads, -⟩ := proxy_stays_in_step hs
  exact ⟨by decide +kernel, by decide +kernel, by decide +kernel, houter, hreads⟩

end CsProxy
end CsTrace
