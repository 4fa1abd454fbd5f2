import CoresightTrace.Proxy.InStep

/-!
# What AFL++ is answered

The pid written for a request is that of the first child of the retry loop, and
the status the last status of its last child. The children of the ramps, of a
confirm and of a sample run are between them and leave no trace on the outer
pipe: `current` and `finished` list the children of the retry loop only, and
`outer` is determined by them (`Answers`).
-/

namespace CsTrace
namespace CsProxy

open Governor (InitReads CpuPolicy)

variable {cfg : Config} {s : Sys} {l : Label}

/-! ### Where the retry loop is -/

/-- The run comes before the first attempt, or is the first attempt. -/
def Task.early : Task → Bool
  | .calibrate _ _ _ => true
  | .attempt first => first
  | .confirm | .sample => false

/-- No attempt of the request has been started. -/
def Pc.unstarted : Pc → Bool
  | .request | .forward | .handed => true
  | .fork t | .forked t | .start t => t.early
  | .cont (.calibrate _ _ _) | .wait (.calibrate _ _ _) | .finish (.calibrate _ _ _) => true
  | _ => false

/-- An attempt is under way, with the newest child. -/
def Pc.attempting : Pc → Bool
  | .report | .cont (.attempt _) | .wait (.attempt _) | .finish (.attempt _) => true
  | _ => false

/-- The retry loop is over. -/
def Pc.settled : Pc → Bool
  | .verdict | .endTestcase => true
  | .fork t | .forked t | .start t | .cont t | .wait t | .finish t => t == .confirm || t == .sample
  | _ => false

/-- The pid and the status that answer a request, from the children of its retry
loop. -/
def answer (s : Sys) (children : List ℕ) : List Raw :=
  (children.head?.map s.pidOf).toList ++ (children.getLast?.bind s.terminal).toList

/-- The part of the current request's answer that is written. -/
def reported (s : Sys) : List Raw :=
  if s.proxy.pc.unstarted ∨ s.proxy.pc = .report then []
  else (s.current.head?.map s.pidOf).toList

/-- The children of a retry loop that is over: there is one, and the last one
has its last status. -/
def Complete (s : Sys) (children : List ℕ) : Prop :=
  ∃ c v, children.getLast? = some c ∧ s.terminal c = some v

/-- **The outer pipe and the retry loops.** -/
structure Answers (s : Sys) : Prop where
  outer : s.outer = s.finished.flatMap (answer s) ++ reported s
  finished : ∀ children ∈ s.finished, Complete s children
  born : ∀ c ∈ s.current, c ≤ s.forks
  bornBefore : ∀ children ∈ s.finished, ∀ c ∈ children, c ≤ s.forks
  unstarted : s.proxy.pc.unstarted = true → s.current = []
  first : s.proxy.pc = .report → s.current = [s.forks]
  started : s.proxy.pc.unstarted = false → s.current ≠ []
  attempting : s.proxy.pc.attempting = true → s.current.getLast? = some s.forks
  settled : s.proxy.pc.settled = true →
    ∃ c, s.current.getLast? = some c ∧ s.terminal c = some s.proxy.status
  received : s.received = s.finished.length + (if s.proxy.pc = .request then 0 else 1)

theorem Answers.initial (policy : CpuPolicy) : Answers (.initial cfg policy) :=
  ⟨rfl, nofun, nofun, nofun, fun _ => rfl, nofun, nofun, nofun, nofun, rfl⟩

/-! ### The history of the children

A fork gives a pid to a child of its own, and a last status comes to a child
that has none, so what is known of the children of the retry loops stays. -/

theorem answer_congr {t : Sys} {children : List ℕ}
    (hpid : ∀ c ∈ children, t.pidOf c = s.pidOf c)
    (hterm : ∀ c, children.getLast? = some c → t.terminal c = s.terminal c) :
    answer t children = answer s children := by
  unfold answer
  congr 1
  · cases hhead : children.head? with
    | none => rfl
    | some c => simp [hpid c (List.mem_of_head? hhead)]
  · cases hlast : children.getLast? with
    | none => rfl
    | some c => simp [hterm c hlast]

/-- A step of the forkserver or of AFL++. -/
theorem Answers.environment {t : Sys} (h : Answers s) (hproxy : t.proxy = s.proxy)
    (houter : t.outer = s.outer) (hcurrent : t.current = s.current)
    (hfinished : t.finished = s.finished) (hreceived : t.received = s.received)
    (hforks : s.forks ≤ t.forks) (hsame : s.proxy.pc.attempting = true → t.forks = s.forks)
    (hpid : ∀ c ≤ s.forks, t.pidOf c = s.pidOf c)
    (hterm : ∀ c v, s.terminal c = some v → t.terminal c = some v) : Answers t := by
  have hanswer : ∀ children ∈ s.finished, answer t children = answer s children := by
    intro children hmem
    refine answer_congr (fun c hc => hpid c (h.bornBefore children hmem c hc)) ?_
    intro c hc
    -- the last child has its last status already, and keeps it
    obtain ⟨c', v, hlast, hv⟩ := h.finished children hmem
    obtain rfl : c' = c := Option.some.inj (hlast.symm.trans hc)
    rw [hv, hterm c' v hv]
  have hreported : reported t = reported s := by
    unfold reported
    rw [hproxy, hcurrent]
    split
    · rfl
    · cases hhead : s.current.head? with
      | none => rfl
      | some c => simp [hpid c (h.born c (List.mem_of_head? hhead))]
  refine ⟨?_, ?_, ?_, ?_, ?_, ?_, ?_, ?_, ?_, ?_⟩
  · rw [houter, hfinished, hreported, h.outer]
    congr 1
    exact (List.flatMap_congr hanswer).symm
  · rw [hfinished]
    intro children hmem
    obtain ⟨c, v, hlast, hv⟩ := h.finished children hmem
    exact ⟨c, v, hlast, hterm c v hv⟩
  · rw [hcurrent]
    exact fun c hc => (h.born c hc).trans hforks
  · rw [hfinished]
    exact fun children hmem c hc => (h.bornBefore children hmem c hc).trans hforks
  · rw [hproxy, hcurrent]
    exact h.unstarted
  · rw [hproxy, hcurrent]
    intro hpc
    rw [hsame (by rw [hpc]; rfl)]
    exact h.first hpc
  · rw [hproxy, hcurrent]
    exact h.started
  · rw [hproxy, hcurrent]
    intro hpc
    rw [hsame hpc]
    exact h.attempting hpc
  · rw [hproxy, hcurrent]
    intro hpc
    obtain ⟨c, hlast, hv⟩ := h.settled hpc
    exact ⟨c, hlast, hterm c _ hv⟩
  · rw [hproxy, hfinished, hreceived]
    exact h.received

/-! ### Steps of the proxy -/

/-- The proxy moves on without writing to AFL++ or starting an attempt. -/
theorem Answers.move {p : Proxy} {t : Sys} (h : Answers s)
    (ht : t = { s with
      proxy := p, requests := t.requests, ctl := t.ctl, st := t.st, held := t.held,
      resumed := t.resumed, lastResumed := t.lastResumed, received := t.received })
    (hunstarted : p.pc.unstarted = s.proxy.pc.unstarted)
    (hs : s.proxy.pc ≠ .report) (hp : p.pc ≠ .report)
    (hattempting : p.pc.attempting = true → s.proxy.pc.attempting = true)
    (hsettled : p.pc.settled = true →
      ∃ c, s.current.getLast? = some c ∧ s.terminal c = some p.status)
    (hreceived : t.received = s.finished.length + (if p.pc = .request then 0 else 1)) :
    Answers t := by
  -- neither place is the one in front of the report, so as much of the answer is written
  have hreported : reported t = reported s := by
    rw [ht]
    unfold reported
    simp only [hunstarted, hs, hp]
  refine ⟨?_, ?_, ?_, ?_, ?_, ?_, ?_, ?_, ?_, ?_⟩
  · rw [hreported, ht]
    exact h.outer
  · rw [ht]
    exact h.finished
  · rw [ht]
    exact h.born
  · rw [ht]
    exact h.bornBefore
  · rw [ht]
    exact fun hu => h.unstarted (hunstarted ▸ hu)
  · rw [ht]
    exact fun hpc => absurd hpc hp
  · rw [ht]
    exact fun hu => h.started (hunstarted ▸ hu)
  · rw [ht]
    exact fun ha => h.attempting (hattempting ha)
  · rw [ht]
    exact hsettled
  · rw [ht]
    exact hreceived

/-- An attempt is started: its child is the newest. -/
theorem Answers.startAttempt {first : Bool} (h : Answers s) (hstep : InStep s)
    (hpc : s.proxy.pc = .start (.attempt first)) :
    Answers (effect cfg s (.start (.attempt first))) := by
  have hheld : s.held = s.forks := (show Holding s from hstep.at_stage hpc).held
  obtain ⟨-, hnext⟩ := start_spec cfg s.proxy (.attempt first)
  have hborn : ∀ c ∈ s.current ++ [s.held], c ≤ s.forks := by
    intro c hc
    rcases List.mem_append.mp hc with hc | hc
    · exact h.born c hc
    · rw [List.mem_singleton.mp hc, hheld]
  have hlast : (s.current ++ [s.held]).getLast? = some s.forks := by simp [hheld]
  have hne : s.proxy.pc ≠ .request := by simp [hpc]
  have hrec := h.received
  rw [if_neg hne] at hrec
  cases first with
  | true =>
    obtain ⟨hnext, -⟩ | ⟨-, hno⟩ := hnext
    · -- the first attempt: nothing of the request is written yet
      have hnil : s.current = [] := h.unstarted (by rw [hpc]; rfl)
      have hpc' : (effect cfg s (.start (.attempt true))).proxy.pc = .report := hnext
      refine ⟨?_, h.finished, hborn, h.bornBefore, ?_, fun _ => ?_, fun _ => ?_, fun _ => hlast, ?_,
        ?_⟩
      · have houter := h.outer
        simp only [reported, hpc, Pc.unstarted, Task.early, true_or, if_true] at houter
        simp only [reported, hpc', or_true, if_true]
        exact houter
      · rw [hpc']
        nofun
      · change s.current ++ [s.held] = [s.forks]
        rw [hnil, hheld]
        rfl
      · exact List.append_ne_nil_of_right_ne_nil _ (List.cons_ne_nil _ _)
      · rw [hpc']
        nofun
      · rw [hpc']
        exact hrec
    · exact absurd rfl hno
  | false =>
    obtain ⟨-, hno⟩ | ⟨hnext, -⟩ := hnext
    · cases hno
    · -- a repetition comes after the first attempt, whose pid is written
      have hcons : s.current ≠ [] := h.started (by rw [hpc]; rfl)
      have hpc' : (effect cfg s (.start (.attempt false))).proxy.pc = .cont (.attempt false) :=
        hnext
      refine ⟨?_, h.finished, hborn, h.bornBefore, ?_, ?_, fun _ => ?_, fun _ => hlast, ?_, ?_⟩
      · have houter := h.outer
        simp only [reported, hpc, Pc.unstarted, Task.early, reduceCtorEq, or_self, if_false,
          Bool.false_eq_true] at houter
        simp only [reported, hpc', Pc.unstarted, reduceCtorEq, or_self, if_false,
          Bool.false_eq_true]
        change s.outer = s.finished.flatMap (answer s) ++
          ((s.current ++ [s.held]).head?.map s.pidOf).toList
        rw [List.head?_append_of_ne_nil _ hcons]
        exact houter
      · rw [hpc']
        nofun
      · rw [hpc']
        nofun
      · exact List.append_ne_nil_of_right_ne_nil _ (List.cons_ne_nil _ _)
      · rw [hpc']
        nofun
      · rw [hpc']
        exact hrec

/-- The first attempt's pid is written. -/
theorem Answers.report (h : Answers s) (hstep : InStep s) (hpc : s.proxy.pc = .report) :
    Answers (effect cfg s .report) := by
  have hpid : s.proxy.childPid = s.pidOf s.forks := (show Holding s from hstep.at_stage hpc).pid
  have hcur := h.first hpc
  have hrec := h.received
  rw [if_neg (by simp [hpc])] at hrec
  refine ⟨?_, h.finished, h.born, h.bornBefore, nofun, nofun, fun _ => ?_, fun _ => ?_, nofun, hrec⟩
  · -- the child that is reported is the only one of the retry loop so far
    have houter := h.outer
    simp only [reported, hpc, or_true, if_true, List.append_nil] at houter
    change s.outer ++ [s.proxy.childPid] = s.finished.flatMap (answer s) ++
      (s.current.head?.map s.pidOf).toList
    rw [houter, hcur, hpid]
    rfl
  · change s.current ≠ []
    rw [hcur]
    nofun
  · exact h.attempting (by rw [hpc]; rfl)

/-- The status is written, and the request is answered. -/
theorem Answers.endTestcase (h : Answers s) (hpc : s.proxy.pc = .endTestcase) :
    Answers (effect cfg s .endTestcase) := by
  obtain ⟨c, hlast, hterm⟩ := h.settled (by rw [hpc]; rfl)
  have hrec := h.received
  rw [if_neg (by simp [hpc])] at hrec
  -- the children of the test case join the finished ones
  refine ⟨?_, ?_, nofun, ?_, fun _ => rfl, nofun, nofun, nofun, nofun, ?_⟩
  · have houter := h.outer
    simp only [reported, hpc, Pc.unstarted, reduceCtorEq, or_self, if_false,
      Bool.false_eq_true] at houter
    change s.outer ++ [s.proxy.status] = (s.finished ++ [s.current]).flatMap (answer s) ++ []
    rw [houter]
    simp [answer, hlast, hterm]
  · intro children hmem
    rcases List.mem_append.mp hmem with hmem | hmem
    · exact h.finished children hmem
    · rw [List.mem_singleton.mp hmem]
      exact ⟨c, s.proxy.status, hlast, hterm⟩
  · intro children hmem
    rcases List.mem_append.mp hmem with hmem | hmem
    · exact h.bornBefore children hmem
    · rw [List.mem_singleton.mp hmem]
      exact h.born
  · change s.received = (s.finished ++ [s.current]).length + 0
    simp [hrec]

/-- Where an attempt leads, and the status it leaves. -/
theorem finish_attempt (cfg : Config) (p : Proxy) (first o : Bool) :
    (p.finish cfg (.attempt first) o).status = p.waitStatus ∧
      ((p.finish cfg (.attempt first) o).pc = .fork (.attempt false) ∨
        (p.finish cfg (.attempt first) o).pc = .verdict ∨
        (p.finish cfg (.attempt first) o).pc = .endTestcase) := by
  unfold Proxy.finish
  dsimp only
  generalize (Governor.endAttempt _ _ _ _ _).2 = next
  cases next with
  | retry | forceMin => exact ⟨rfl, .inl rfl⟩
  | done => exact ⟨rfl, .inr (afterAttempt_done cfg _)⟩

theorem verdict_status (cfg : Config) (p : Proxy) (confirm : Bool) :
    (p.verdict cfg confirm).status = p.status := by
  unfold Proxy.verdict
  split
  · rfl
  · split <;> rfl

/-- The received count while a request is served. -/
theorem Answers.serving (h : Answers s) (hpc : s.proxy.pc ≠ .request) :
    s.received = s.finished.length + 1 := by
  rw [h.received, if_neg hpc]

theorem Answers.finish (h : Answers s) (hstep : InStep s) {t : Task} {o : Bool}
    (hpc : s.proxy.pc = .finish t) : Answers (effect cfg s (.finish t o)) := by
  have hrec := h.serving (by simp [hpc])
  cases t with
  | calibrate mode i again =>
    have hramp : s.proxy.Ramping again := by
      have := hstep.ramping
      rwa [hpc] at this
    rcases endRung_refork cfg mode i (cfg.decodingOn && o) hramp with
      hnext | ⟨mode', i', again', hnext, -⟩
    all_goals
      refine h.move (p := s.proxy.endRung cfg mode i again (cfg.decodingOn && o)) rfl ?_
        (by simp [hpc]) (by simp [hnext]) (by rw [hnext]; nofun) (by rw [hnext]; nofun)
        (by rw [hnext]; exact hrec)
      rw [hnext, hpc]
      rfl
  | attempt first =>
    -- the last status of the attempt is that of the newest child
    have hterm := hstep.reaped _ hpc
    have hlast := h.attempting (by rw [hpc]; rfl)
    obtain ⟨hstatus, hnext | hnext | hnext⟩ := finish_attempt cfg s.proxy first o
    all_goals
      refine h.move (p := s.proxy.finish cfg (.attempt first) o) rfl ?_ (by simp [hpc])
        (by simp [hnext]) (by rw [hnext]; nofun)
        (fun _ => ⟨s.forks, hlast, by rw [hstatus]; exact hterm⟩) (by rw [hnext]; exact hrec)
      rw [hnext, hpc]
      rfl
  | confirm | sample =>
    -- the run leaves the status of the last attempt alone
    have hset := h.settled (by rw [hpc]; rfl)
    refine h.move (p := s.proxy.finish cfg _ o) rfl ?_ (by simp [hpc]) nofun nofun
      (fun _ => hset) hrec
    rw [hpc]
    rfl

theorem Answers.verdict (h : Answers s) {confirm : Bool} (hpc : s.proxy.pc = .verdict) :
    Answers (effect cfg s (.verdict confirm)) := by
  have hrec := h.serving (by simp [hpc])
  have hset := h.settled (by rw [hpc]; rfl)
  rw [← verdict_status cfg s.proxy confirm] at hset
  rcases verdict_spec cfg s.proxy confirm with hnext | hnext | hnext
  all_goals
    refine h.move (p := s.proxy.verdict cfg confirm) rfl ?_ (by simp [hpc]) (by simp [hnext])
      (by rw [hnext]; nofun) (fun _ => hset) (by rw [hnext]; exact hrec)
    rw [hnext, hpc]
    rfl

theorem Answers.handed (h : Answers s) {r : InitReads} {w : Word} (hpc : s.proxy.pc = .handed) :
    Answers (effect cfg s (.handed r w)) := by
  have hrec := h.serving (by simp [hpc])
  obtain ⟨-, hnext | ⟨mode, hnext, -⟩⟩ := handed_spec cfg s.proxy r w.val
  all_goals
    refine h.move (p := s.proxy.handed cfg r w.val) rfl ?_ (by simp [hpc]) (by simp [hnext])
      (by rw [hnext]; nofun) (by rw [hnext]; nofun) (by rw [hnext]; exact hrec)
    rw [hnext, hpc]
    rfl

/-- **Every step keeps the outer pipe in order.** -/
theorem Answers.step (h : Answers s) (hstep : InStep s) (hen : enabled s l = true) :
    Answers (effect cfg s l) := by
  cases l with
  | ask w =>
    exact h.environment rfl rfl rfl rfl rfl le_rfl (fun _ => rfl) (fun _ _ => rfl) fun _ _ => id
  | readRequest w =>
    have hpc : s.proxy.pc = .request := pc_of_enabled hen rfl
    have hrec := h.received
    rw [if_pos hpc] at hrec
    refine h.move (p := { s.proxy with pc := .forward, wasKilled := w }) rfl ?_ (by simp [hpc])
      nofun nofun nofun ?_
    · rw [hpc]
      rfl
    · change s.received + 1 = s.finished.length + 1
      rw [hrec]
  | forward =>
    have hpc : s.proxy.pc = .forward := pc_of_enabled hen rfl
    exact h.move (p := s.proxy.goto .handed) rfl (by rw [hpc]; rfl) (by simp [hpc]) nofun nofun
      nofun (h.serving (by simp [hpc]))
  | handed r w => exact h.handed (pc_of_enabled hen rfl)
  | fork t =>
    have hpc : s.proxy.pc = .fork t := pc_of_enabled hen rfl
    exact h.move (p := s.proxy.goto (.forked t)) rfl (by rw [hpc]; rfl) (by simp [hpc]) nofun nofun
      (fun hset => h.settled (by rw [hpc]; exact hset)) (h.serving (by simp [hpc]))
  | forked t w =>
    have hpc : s.proxy.pc = .forked t := pc_of_enabled hen rfl
    exact h.move (p := { s.proxy with pc := .start t, childPid := w.val }) rfl (by rw [hpc]; rfl)
      (by simp [hpc]) nofun nofun (fun hset => h.settled (by rw [hpc]; exact hset))
      (h.serving (by simp [hpc]))
  | start t =>
    have hpc : s.proxy.pc = .start t := pc_of_enabled hen rfl
    cases t with
    | attempt first => exact h.startAttempt hstep hpc
    | calibrate mode i again =>
      exact h.move (p := s.proxy.start cfg (.calibrate mode i again)) rfl (by rw [hpc]; rfl)
        (by simp [hpc]) nofun nofun nofun (h.serving (by simp [hpc]))
    | confirm | sample =>
      exact h.move (p := s.proxy.start cfg _) rfl (by rw [hpc]; rfl) (by simp [hpc]) nofun nofun
        (fun _ => h.settled (by rw [hpc]; rfl)) (h.serving (by simp [hpc]))
  | report => exact h.report hstep (pc_of_enabled hen rfl)
  | cont t =>
    have hpc : s.proxy.pc = .cont t := pc_of_enabled hen rfl
    refine h.move (p := s.proxy.goto (.wait t)) rfl ?_ (by simp [hpc]) nofun ?_ ?_
      (h.serving (by simp [hpc]))
    · rw [hpc]
      cases t <;> rfl
    · rw [hpc]
      cases t <;> exact id
    · exact fun hset => h.settled (by rw [hpc]; exact hset)
  | readStatus t w =>
    have hpc : s.proxy.pc = .wait t := pc_of_enabled hen rfl
    refine h.move (p := { s.proxy with
      waitStatus := w.val, pc := if sigstopped w.val then .wait t else .finish t }) rfl ?_
      (by simp [hpc]) ?_ ?_ ?_ ?_
    · rw [hpc]
      cases sigstopped w.val <;> cases t <;> rfl
    · cases sigstopped w.val <;> nofun
    · rw [hpc]
      cases sigstopped w.val <;> cases t <;> exact id
    · intro hset
      refine h.settled ?_
      rw [hpc]
      revert hset
      cases sigstopped w.val <;> exact id
    · have hrec := h.serving (by simp [hpc])
      cases sigstopped w.val <;> exact hrec
  | finish t o => exact h.finish hstep (pc_of_enabled hen rfl)
  | verdict confirm => exact h.verdict (pc_of_enabled hen rfl)
  | endTestcase => exact h.endTestcase (pc_of_enabled hen rfl)
  | fsFork pid =>
    simp only [enabled, Bool.and_eq_true, beq_iff_eq, Bool.not_eq_true',
      List.isEmpty_eq_false_iff] at hen
    obtain ⟨hstage, -, -⟩ := hstep.forks hen.1.2
    refine h.environment rfl rfl rfl rfl rfl (Nat.le_succ _) (fun ha => ?_) (fun c hc => ?_)
      fun _ _ => id
    · -- no attempt is under way while a child is asked for
      cases hpc : s.proxy.pc <;> simp_all [Pc.stage, Pc.attempting]
    · exact Function.update_of_ne (by omega) _ _
  | fsWritePid =>
    exact h.environment rfl rfl rfl rfl rfl le_rfl (fun _ => rfl) (fun _ _ => rfl) fun _ _ => id
  | relay v =>
    have hfs : s.fs = .relay := beq_iff_eq.mp (Bool.and_eq_true_iff.mp hen).1
    have hnone := hstep.alive (by simp [hfs])
    refine h.environment rfl rfl rfl rfl rfl le_rfl (fun _ => rfl) (fun _ _ => rfl) ?_
    -- the child whose status is relayed has had no last status so far
    intro c v' hv
    have hne : c ≠ s.forks := by
      rintro rfl
      rw [hnone] at hv
      cases hv
    simp only [effect, Sys.relay]
    split
    · exact hv
    · rw [Function.update_of_ne hne]
      exact hv

theorem Answers.of_reachable (hs : (proxySystem cfg).machine.Reachable s) :
    InStep s ∧ Answers s := by
  refine Guarded.invariant (I := fun s => InStep s ∧ Answers s) hs ?_ fun s l h hen =>
    ⟨h.1.step hen, h.2.step h.1 hen⟩
  rintro _ ⟨policy, rfl⟩
  exact ⟨.initial policy, .initial policy⟩

end CsProxy
end CsTrace
