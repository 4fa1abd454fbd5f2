import CoresightTrace.Proxy.Faults
import CoresightTrace.Proxy.InStep

/-!
# A child that ends before its first stop

When a child does not reach its first `SIGSTOP`, the forkserver relays its status
in the place of the pid and waits for the next token. The proxy has three places
where it reads a pid, and none of them can tell: it takes the status for a pid.
What it does with it is `start_trace()`, the report to AFL++ and `SIGCONT`, and
then it waits for a status that the forkserver will not send
(`early_status_waits`). When the first `init_trace()` fails on it, it waits at
once.

`early_exit_taken_for_pid` shows that no early exit is handled in another way. The
first half holds after any other failures: whenever the proxy takes the word, it
starts a trace on it, or waits for a child. The second half is about the runs in
which nothing else has failed: there the word is the next one the proxy reads, and
a proxy that waits is then stalled, with the forkserver waiting for a token.
-/

namespace CsTrace
namespace CsProxy

open Governor (InitReads CpuPolicy)

variable {cfg : Config} {s : FSys} {l : FLabel}

/-! ### Words -/

/-- The words of the pipe are not negative, and neither is the pid of a child that
the forkserver waits for. -/
structure Words (s : FSys) : Prop where
  born : s.sys.fs ≠ .token → 0 < (s.sys.pidOf s.sys.forks).toInt
  st : ∀ w ∈ s.sys.st, 0 ≤ w.val.toInt

theorem toInt_of_isWaitStatus {status : Raw} (h : isWaitStatus status = true) :
    0 ≤ status.toInt := by
  have hlt : status.toNat < 65536 := of_decide_eq_true h
  rw [BitVec.toInt_eq_toNat_of_lt (by omega)]
  omega

/-- A step of the proxy: it reads words and writes none. -/
theorem Words.keep {t : FSys} (h : Words s) (hst : t.sys.st ⊆ s.sys.st)
    (hfs : t.sys.fs = s.sys.fs) (hforks : t.sys.forks = s.sys.forks)
    (hpid : t.sys.pidOf = s.sys.pidOf) : Words t := by
  constructor
  · rw [hfs, hforks, hpid]
    exact h.born
  · intro w hw
    exact h.st w (hst hw)

/-- A word is added to the pipe. -/
theorem Words.add {t : FSys} (h : Words s) {w : Word} (hst : t.sys.st = s.sys.st ++ [w])
    (hw : 0 ≤ w.val.toInt) (hborn : t.sys.fs ≠ .token → 0 < (t.sys.pidOf t.sys.forks).toInt) :
    Words t := by
  refine ⟨hborn, ?_⟩
  rw [hst]
  intro w' hmem
  rcases List.mem_append.mp hmem with hmem | hmem
  · exact h.st w' hmem
  · rw [List.mem_singleton.mp hmem]
    exact hw

theorem Words.proxyOnly {t : FSys} (h : Words s) (ht : s.ProxyOnly t) : Words t := by
  refine h.keep ?_ ?_ ?_ ?_ <;> rw [ht.sys]
  exact List.Subset.refl _

theorem Words.take (h : Words s) (w : Word) : Words (s.take w) :=
  h.keep (List.tail_sublist _).subset rfl rfl rfl

theorem Words.proceed (h : Words s) {l : Label} (hen : s.enabled (.inl l) = true) :
    Words (s.proceed cfg l) := by
  cases l with
  | fsFork pid =>
    -- `fork` has returned a pid
    obtain ⟨-, hpos⟩ := Bool.and_eq_true_iff.mp (Bool.and_eq_true_iff.mp hen).1
    refine ⟨fun _ => ?_, h.st⟩
    simpa [FSys.proceed, effect] using of_decide_eq_true hpos
  | fsWritePid =>
    have hfs : s.sys.fs = .writePid := beq_iff_eq.mp (Bool.and_eq_true_iff.mp hen).1
    have hpos := h.born (by rw [hfs]; rintro ⟨⟩)
    exact h.add rfl hpos.le fun _ => hpos
  | relay status =>
    -- a wait status, which is no negative number
    obtain ⟨hfs, hstatus⟩ := Bool.and_eq_true_iff.mp hen
    have hpos := h.born (by rw [beq_iff_eq.mp hfs]; rintro ⟨⟩)
    exact h.add rfl (toInt_of_isWaitStatus hstatus) fun _ => hpos
  | handed r w | readStatus t w => exact h.keep (List.tail_sublist _).subset rfl rfl rfl
  | forked t w =>
    unfold FSys.proceed
    dsimp only
    split
    · exact (h.take w).proxyOnly (failStart_proxyOnly cfg _ t)
    · exact h.keep (List.tail_sublist _).subset rfl rfl rfl
  | cont t =>
    have hkill : Words { s with sys := effect cfg s.sys (.cont t) } :=
      h.keep (List.Subset.refl _) rfl rfl rfl
    cases t with
    | attempt first =>
      cases first with
      | true =>
        unfold FSys.proceed
        dsimp only
        split
        · exact hkill
        · exact hkill.keep (List.Subset.refl _) rfl rfl rfl
      | false => exact hkill
    | _ => exact hkill
  | _ => exact h.keep (List.Subset.refl _) rfl rfl rfl

theorem Words.step (h : Words s) (hen : s.enabled l = true) : Words (s.effect cfg l) := by
  rcases l with l | f
  · exact h.proceed hen
  · cases f with
    | readRequest | forward | handed | report => exact h.proxyOnly (returned_proxyOnly s _)
    | initTrace w =>
      have htake : Words ((s.take w).setProxy { s.sys.proxy with childPid := w.val }) :=
        (h.take w).keep (List.Subset.refl _) rfl rfl rfl
      exact htake.proxyOnly (returned_proxyOnly _ _)
    | fork t | forked t | cont t => exact h.proxyOnly (failStart_proxyOnly cfg s t)
    | readStatus t | finish t => exact h.proxyOnly (failRun_proxyOnly cfg s t)
    | endTestcase | abort => exact h.keep (List.Subset.refl _) rfl rfl rfl
    | early status =>
      obtain ⟨-, hstatus⟩ := Bool.and_eq_true_iff.mp hen
      refine h.add rfl (toInt_of_isWaitStatus hstatus) ?_
      intro hfs
      exact absurd rfl hfs

theorem Words.of_reachable (hs : (faultSystem cfg).machine.Reachable s) : Words s := by
  refine Guarded.invariant hs ?_ fun s l h hen => h.step hen
  rintro _ ⟨policy, rfl⟩
  refine ⟨?_, nofun⟩
  intro hfs
  exact absurd rfl hfs

/-! ### Runs in which nothing fails -/

/-- No call fails, every child reaches its first `SIGSTOP`, and none ends before it
was continued. -/
def Faultless (s : FSys) : FLabel → Bool
  | .inl (.relay _) => s.sys.resumed
  | .inl _ => true
  | .inr _ => false

/-- A step of the proxy's machine, unless a negative word was read as a pid. -/
theorem proceed_sys {l : Label} (h : ∀ t w, l = .forked t w → 0 ≤ w.val.toInt) :
    (s.proceed cfg l).sys = effect cfg s.sys l := by
  unfold FSys.proceed
  cases l with
  | forked t w =>
    dsimp only
    rw [if_neg (by simpa using h t w rfl)]
  | cont t =>
    cases t with
    | attempt first =>
      cases first with
      | true =>
        dsimp only
        split <;> rfl
      | false => rfl
    | _ => rfl
  | _ => rfl

theorem enabled_of_faultless {l : Label} (hen : s.enabled (.inl l) = true)
    (hc : Faultless s (.inl l) = true) : enabled s.sys l = true := by
  cases l with
  | ask w => rfl
  | relay status =>
    exact Bool.and_eq_true_iff.mpr ⟨(Bool.and_eq_true_iff.mp hen).1, hc⟩
  | _ => exact (Bool.and_eq_true_iff.mp hen).1

/-- **Without faults the machine is the proxy's.** The parties are in step, and the
proxy goes on. -/
structure Sound (s : FSys) : Prop where
  words : Words s
  inStep : InStep s.sys
  running : s.ended = false

/-- The pid that is returned is one of a child. -/
theorem Sound.proceed_running (h : Sound s) {l : Label} (hen : enabled s.sys l = true) :
    (s.proceed cfg l).ended = false := by
  unfold FSys.proceed
  cases l with
  | cont t =>
    cases t with
    | attempt first =>
      cases first with
      | true =>
        -- the first attempt returns its pid to the loop of `main()`, which ends at 0
        have hhold : Holding s.sys := h.inStep.at_stage (pc_of_enabled hen rfl)
        have hpos := h.words.born (by rw [hhold.fs]; rintro ⟨⟩)
        have hne : 0#32 < s.sys.proxy.childPid := by
          rw [hhold.pid, BitVec.lt_def]
          by_contra hzero
          have : s.sys.pidOf s.sys.forks = 0#32 := by
            apply BitVec.eq_of_toNat_eq
            simpa using hzero
          simp [this] at hpos
        dsimp only
        rw [if_pos hne]
        exact h.running
      | false => exact h.running
    | _ => exact h.running
  | forked t w =>
    have hw : 0 ≤ w.val.toInt :=
      h.words.st w (List.mem_of_mem_head? (beq_iff_eq.mp (Bool.and_eq_true_iff.mp hen).2))
    dsimp only
    rw [if_neg (by simpa using hw)]
    exact h.running
  | _ => exact h.running

theorem Sound.step (h : Sound s) (hen : s.enabled l = true) (hc : Faultless s l = true) :
    Sound (s.effect cfg l) := by
  rcases l with l | f
  · have hen' := enabled_of_faultless hen hc
    refine ⟨h.words.step hen, ?_, h.proceed_running hen'⟩
    change InStep (s.proceed cfg l).sys
    rw [proceed_sys]
    · exact h.inStep.step hen'
    · -- a word that is read was written as a pid
      rintro t w rfl
      exact h.words.st w (List.mem_of_mem_head? (beq_iff_eq.mp (Bool.and_eq_true_iff.mp hen').2))
  · cases hc

theorem Sound.of_reachable
    (hs : ((faultSystem cfg).restrict Faultless).machine.Reachable s) : Sound s := by
  refine Guarded.invariant_restrict hs ?_ fun s l h hen hc => h.step hen hc
  rintro _ ⟨policy, rfl⟩
  refine ⟨⟨?_, nofun⟩, .initial policy, rfl⟩
  intro hfs
  exact absurd rfl hfs

/-! ### Early exits -/

/-- The step takes the word for a pid, at one of the three places that read one. -/
def FLabel.takes (w : Word) : FLabel → Bool
  | .inl (.handed _ w') | .inl (.forked _ w') | .inr (.initTrace w') => w' == w
  | _ => false

/-- The proxy is about to start a trace on the word as a pid. -/
def FSys.UsesAsPid (s : FSys) (w : Word) : Prop :=
  s.ended = false ∧ ∃ t, s.sys.proxy.pc = .start t ∧ s.sys.proxy.childPid = w.val ∧
    s.word = some w

/-- The proxy waits for a status and the forkserver for a token, and the pipes
between them are empty. -/
def FSys.Stalled (s : FSys) : Prop :=
  s.ended = false ∧ (∃ t, s.sys.proxy.pc = .wait t) ∧ s.sys.st = [] ∧ s.sys.ctl = [] ∧
    s.sys.fs = .token

/-- **A word taken for a pid is used as one.** Only a failed `init_trace()` keeps the
proxy from that. -/
theorem Words.takes (h : Words s) {w : Word} (hen : s.enabled l = true)
    (hl : l.takes w = true) :
    (s.effect cfg l).UsesAsPid w ∨ l = .inr (.initTrace w) ∧ (s.effect cfg l).Waits := by
  rcases l with l | f
  · cases l with
    | handed r w' =>
      obtain rfl : w' = w := by simpa [FLabel.takes] using hl
      have hrun : s.ended = false := by
        simpa [FSys.enabled, Label.ofProxy] using (Bool.and_eq_true_iff.mp hen).2
      obtain ⟨hpid, hnext | ⟨mode, hnext, -⟩⟩ := handed_spec cfg s.sys.proxy r w'.val
      · exact .inl ⟨hrun, _, hnext, hpid, rfl⟩
      · exact .inl ⟨hrun, _, hnext, hpid, rfl⟩
    | forked t w' =>
      obtain rfl : w' = w := by simpa [FLabel.takes] using hl
      obtain ⟨hsys, hrun⟩ := Bool.and_eq_true_iff.mp hen
      have hmem := List.mem_of_mem_head? (beq_iff_eq.mp (Bool.and_eq_true_iff.mp hsys).2)
      refine .inl ?_
      simp only [FSys.effect, FSys.proceed, if_neg (not_lt.mpr (h.st w' hmem))]
      exact ⟨by simpa [Label.ofProxy] using hrun, t, rfl, rfl, rfl⟩
    | _ => cases hl
  · cases f with
    | initTrace w' =>
      obtain rfl : w' = w := by simpa [FLabel.takes] using hl
      exact .inr ⟨rfl, (failure_waits cfg hen rfl)⟩
    | _ => cases hl

/-- The pipes are empty and the forkserver waits for a token. -/
def FSys.Quiet (s : FSys) : Prop :=
  s.sys.st = [] ∧ s.sys.ctl = [] ∧ s.sys.fs = .token

/-- The calls of the proxy from the start of a trace to the wait for a status. -/
def resumeSteps (t : Task) : List FLabel :=
  if t = .attempt true then [.inl (.start t), .inl .report, .inl (.cont t)]
  else [.inl (.start t), .inl (.cont t)]

/-- **The proxy stalls on an early status.** The calls it makes with the status as a
pid lead to a wait that nothing ends. The status 0 apart, which is returned as the
end of the loop. -/
theorem FSys.UsesAsPid.stalls {w : Word} (h : s.UsesAsPid w) (hq : s.Quiet) (hw : w.val ≠ 0) :
    ∃ ls, (faultSystem cfg).applicable s ls = true ∧ ((faultSystem cfg).run s ls).Stalled := by
  obtain ⟨hrun, t, hpc, hpid, -⟩ := h
  obtain ⟨hst, hctl, hfs⟩ := hq
  have hpos : 0#32 < s.sys.proxy.childPid := by
    rw [hpid, BitVec.lt_def]
    by_contra hzero
    exact hw (BitVec.eq_of_toNat_eq (by simpa using hzero))
  -- only the resume of the first attempt returns a pid to `main()`
  have hcont (u : FSys) (ht : t ≠ .attempt true) :
      u.proceed cfg (.cont t) = { u with sys := u.sys.kill t } := by
    unfold FSys.proceed
    cases t with
    | attempt first =>
      cases first with
      | true => exact absurd rfl ht
      | false => rfl
    | _ => rfl
  refine ⟨resumeSteps t, ?_, ?_⟩
  · by_cases ht : t = .attempt true
    · simp [resumeSteps, ht, Guarded.applicable, faultSystem, FSys.enabled, CsProxy.enabled,
        FSys.effect, FSys.proceed, CsProxy.effect, Proxy.start, Proxy.goto, hpc, hrun]
    · simp [resumeSteps, ht, Guarded.applicable, faultSystem, FSys.enabled, CsProxy.enabled,
        FSys.effect, FSys.proceed, CsProxy.effect, Proxy.start, hpc, hrun]
  · by_cases ht : t = .attempt true
    · simp [resumeSteps, ht, Guarded.run, faultSystem, FSys.effect, FSys.proceed, CsProxy.effect,
        Proxy.start, Proxy.goto, Sys.kill, FSys.Stalled, hrun, hst, hctl, hfs, hpos]
    · simp [resumeSteps, ht, Guarded.run, faultSystem, FSys.effect, hcont _ ht, FSys.Stalled,
        Sys.kill, Proxy.goto]
      simp [FSys.proceed, CsProxy.effect, hrun, hst, hctl, hfs]

/-- After an early exit, with nothing failed before, the status is what the proxy
reads next. -/
theorem Sound.early (h : Sound s) {status : Raw}
    (hen : s.enabled (.inr (.early status)) = true) :
    ∃ l, (s.effect cfg (.inr (.early status))).enabled l = true ∧
      l.takes ⟨status, false, s.sys.forks⟩ = true := by
  have hfs : s.sys.fs = .writePid :=
    beq_iff_eq.mp (Bool.and_eq_true_iff.mp (Bool.and_eq_true_iff.mp hen).1).1
  obtain ⟨hstage, -, hst, -⟩ := h.inStep.writes hfs
  have hhead : (s.effect cfg (.inr (.early status))).sys.st.head? =
      some ⟨status, false, s.sys.forks⟩ := by
    simp [FSys.effect, hst]
  have hrun : (s.effect cfg (.inr (.early status))).ended = false := h.running
  -- the proxy is at one of its reads of a pid
  cases hpc : (s.effect cfg (.inr (.early status))).sys.proxy.pc with
  | handed =>
    refine ⟨.inl (.handed ⟨true, 0, 0, [], "", 0, 0, 0⟩ ⟨status, false, s.sys.forks⟩), ?_, ?_⟩
    · simp [FSys.enabled, enabled, hhead, hpc, hrun]
    · simp [FLabel.takes]
  | forked t =>
    refine ⟨.inl (.forked t ⟨status, false, s.sys.forks⟩), ?_, ?_⟩
    · simp [FSys.enabled, enabled, hhead, hpc, hrun]
    · simp [FLabel.takes]
  | _ =>
    change s.sys.proxy.pc = _ at hpc
    simp [hpc, Pc.stage] at hstage

/-- The word is taken from a pipe that holds nothing else. -/
theorem Sound.early_quiet (h : Sound s) {status : Raw} {w : Word}
    (hen : s.enabled (.inr (.early status)) = true) (hl : l.takes w = true) :
    ((s.effect cfg (.inr (.early status))).effect cfg l).Quiet := by
  have hfs : s.sys.fs = .writePid :=
    beq_iff_eq.mp (Bool.and_eq_true_iff.mp (Bool.and_eq_true_iff.mp hen).1).1
  obtain ⟨-, hctl, hst, -⟩ := h.inStep.writes hfs
  -- taking a word, the proxy leaves the rest of the pipes alone
  have hquiet {t u : FSys} (ht : t = s.effect cfg (.inr (.early status)))
      (hu : u.sys = { t.sys with proxy := u.sys.proxy, st := t.sys.st.tail, held := u.sys.held }) :
      u.Quiet := by
    refine ⟨?_, ?_, ?_⟩ <;> rw [hu, ht] <;> simp [FSys.effect, hst, hctl]
  rcases l with l | f
  · cases l with
    | handed r w' => exact hquiet rfl rfl
    | forked t w' =>
      change (FSys.proceed cfg _ _).Quiet
      unfold FSys.proceed
      dsimp only
      split
      · refine hquiet rfl ?_
        rw [(failStart_proxyOnly cfg _ t).sys]
        rfl
      · exact hquiet rfl rfl
    | _ => cases hl
  · cases f with
    | initTrace w' =>
      refine hquiet rfl ?_
      change (FSys.returned _ _).sys = _
      rw [(returned_proxyOnly _ _).sys]
      rfl
    | _ => cases hl

/-- **Every early exit is taken for a pid.** A child ends before its first `SIGSTOP`,
and the forkserver relays its status.

1. Whatever fails before and after that, when the proxy reads the status as a pid it
   starts a trace on it, unless `init_trace()` fails on it; then it waits for a
   status all the same.
2. If nothing has failed before, reading the status as a pid is what the proxy does
   next. It then starts a trace on it, and from there goes on into a wait that
   nothing ends, or it is in that wait already. -/
theorem early_exit_taken_for_pid (cfg : Config) (s : FSys) (status : Raw)
    (hs : (faultSystem cfg).machine.Reachable s)
    (hen : s.enabled (.inr (.early status)) = true) :
    let w : Word := ⟨status, false, s.sys.forks⟩
    let t := s.effect cfg (.inr (.early status))
    (∀ ls u l, (faultSystem cfg).machine.Run t ls u → u.enabled l = true → l.takes w = true →
      (u.effect cfg l).UsesAsPid w ∨ (u.effect cfg l).Waits) ∧
    (((faultSystem cfg).restrict Faultless).machine.Reachable s →
      (∃ l, t.enabled l = true ∧ l.takes w = true) ∧
      ∀ l, t.enabled l = true → l.takes w = true →
        (t.effect cfg l).UsesAsPid w ∧ (status ≠ 0 → ∃ ls,
          (faultSystem cfg).applicable (t.effect cfg l) ls = true ∧
            ((faultSystem cfg).run (t.effect cfg l) ls).Stalled) ∨
        (t.effect cfg l).Stalled) := by
  intro w t
  have ht : (faultSystem cfg).machine.Reachable t :=
    hs.step (l := .inr (.early status)) ⟨hen, rfl⟩
  constructor
  · intro ls u l hrun hul hl
    exact ((Words.of_reachable (ht.run hrun)).takes hul hl).imp_right And.right
  · -- without a fault the two sides are in step, so the read comes next
    intro hsound
    have h := Sound.of_reachable hsound
    refine ⟨h.early hen, ?_⟩
    intro l htl hl
    have hquiet : (t.effect cfg l).Quiet := h.early_quiet hen hl
    rcases (Words.of_reachable ht).takes htl hl with huses | ⟨-, hwaits⟩
    · exact .inl ⟨huses, fun hne => huses.stalls hquiet hne⟩
    · exact .inr ⟨hwaits.1, ⟨_, hwaits.2⟩, hquiet.1, hquiet.2.1, hquiet.2.2⟩

/-- A first request up to the fork of its child. -/
def untilFork : List FLabel :=
  [.inl (.ask 0), .inl (.readRequest 0), .inl .forward, .inl (.fsFork 10)]

/-- The child is killed by `SIGKILL` before it stops. -/
theorem early_exit_taken_for_pid_killed :
    let s := (faultSystem plainConfig).run (.initial plainConfig ⟨600, 1200, 0, "schedutil"⟩)
      untilFork
    ∃ l, (s.effect plainConfig (.inr (.early 9))).enabled l = true ∧
      l.takes ⟨9, false, 1⟩ = true := by
  intro s
  have hs : (faultSystem plainConfig).machine.Reachable s :=
    Guarded.reachable_of_applicable (.of_init ⟨_, rfl⟩) (by decide +kernel)
  have hsound : ((faultSystem plainConfig).restrict Faultless).machine.Reachable s :=
    Guarded.reachable_of_applicable (.of_init ⟨_, rfl⟩) (by decide +kernel)
  exact ((early_exit_taken_for_pid plainConfig s 9 hs (by decide +kernel)).2 hsound).1

/-- **The status of a killed child is reported as a pid.** AFL++ is told of a child
with pid 9, `SIGCONT` is sent to it, and the proxy waits for a status while the
forkserver waits for a token. -/
theorem early_status_waits :
    ∃ s, (faultSystem plainConfig).machine.Reachable s ∧ s.sys.pidOf 1 = 10 ∧
      s.sys.proxy.childPid = 9 ∧ s.sys.outer = [9] ∧ s.Stalled := by
  refine ⟨(faultSystem plainConfig).run (.initial plainConfig ⟨600, 1200, 0, "schedutil"⟩)
    (untilFork ++ [.inr (.early 9),
      .inl (.handed ⟨false, 1200, 600, [1200, 600], "schedutil", 600, 1200, 0⟩ ⟨9, false, 1⟩),
      .inl (.start (.attempt true)), .inl .report, .inl (.cont (.attempt true))]), ?_, ?_⟩
  · exact Guarded.reachable_of_applicable (.of_init ⟨_, rfl⟩) (by decide +kernel)
  · refine ⟨by decide +kernel, by decide +kernel, by decide +kernel, by decide +kernel,
      ⟨.attempt true, by decide +kernel⟩, by decide +kernel, by decide +kernel, by decide +kernel⟩

end CsProxy
end CsTrace
