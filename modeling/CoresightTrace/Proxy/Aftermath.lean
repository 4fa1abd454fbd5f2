import CoresightTrace.Proxy.Lifecycle

/-!
# What is left behind

The results on `Proxy/Lifecycle.lean`, and its connection to the descriptors.

`ends_of_tables` is the connection: for processes whose descriptors are those of
`Proxy/Wiring.lean`, an end of a pipe is open in one of them exactly if the
lifecycle's places say so. It needs that the forkserver is joined, that `stderr` is
open and that the proxy's descriptors are below the bound of the guard's loop.

For `winds_down` the steps that are left are counted by `World.rank`. Every token
still in the pipe may cost one more child, so it weighs more than all the steps of
a child and of the forkserver together.
-/

namespace CsTrace
namespace CsProxy

variable {s : World} {l : Move}

/-! ### The proxy that waits -/

/-- The step is one of the guard. -/
def Move.ofGuard : Move → Bool
  | .guardSweep | .guardEof => true
  | _ => false

/-- Neither the proxy, nor the forkserver, nor the child can take a step. -/
def World.Stuck (s : World) : Prop :=
  ∀ l : Move, l.own = true → l.ofGuard = false → s.enabled l = false

/-- The steps that are left to the forkserver. A token it takes brings it to `fork`, and is
counted apart. -/
def FsAt.rank : FsAt → ℕ
  | .boot => 3
  | .greet => 2
  | .token => 1
  | .fork => 18
  | .watch => 5
  | .early => 2
  | .pid => 4
  | .relay => 3
  | .status last => if last then 2 else 4
  | .dead => 0

/-- The steps that are left to the child, with those the forkserver makes for it. -/
def ChildAt.rank : ChildAt → ℕ
  | .born => 12
  | .armed => 11
  | .stopped => 10
  | .resumed => 9
  | .closing => 8
  | .halted seen => if seen then 4 else 6
  | .free => 3
  | .none | .dead => 0

/-- The steps that are left to the guard. -/
def GuardAt.rank : GuardAt → ℕ
  | .sweeping => 2
  | .watching => 1
  | .absent | .restored => 0

/-- A bound on the steps that are left once the proxy is gone. -/
def World.rank (s : World) : ℕ :=
  40 * s.ctl + s.fs.rank + s.child.rank + s.guard.rank

theorem continued_rank (c : ChildAt) : c.continued.rank ≤ c.rank := by
  cases c with
  | halted seen => cases seen <;> decide
  | _ => decide

theorem fs_rank_pos {fs : FsAt} (h : fs ≠ .dead) : 0 < fs.rank := by
  cases fs with
  | status last => cases last <;> decide
  | dead => exact absurd rfl h
  | _ => decide

theorem endFs_rank (h : s.fs ≠ .dead) : s.endFs.rank < s.rank := by
  have hpos := fs_rank_pos h
  have hchild := continued_rank s.child
  change 40 * s.ctl + 0 + s.child.continued.rank + s.guard.rank <
    40 * s.ctl + s.fs.rank + s.child.rank + s.guard.rank
  omega

/-- What `waitpid()` may return. -/
theorem served_cases {fs : FsAt} {c : ChildAt} (h : fs.served c = true) :
    fs = .watch ∧ c = .stopped ∨ fs = .watch ∧ c = .dead ∨ fs = .relay ∧ c = .halted false ∨
      fs = .relay ∧ c = .dead := by
  unfold FsAt.served at h
  split at h <;> simp_all

/-- **Every step after the proxy's end is one step less.** -/
theorem rank_lt_of_gone (h : Wound s) (hgone : s.proxy = .gone) (hen : s.enabled l = true) :
    (s.effect l).proxy = .gone ∧ (s.effect l).rank < s.rank := by
  cases l with
  | readHello | ask | readPid | spawnGuard | cont | halt | readStatus | readEof | giveUp |
    killProxy => simp [World.enabled, hgone, ProxyAt.reads] at hen
  | fsPrctl =>
    have hfs : s.fs = .boot := by simpa [World.enabled] using hen
    refine ⟨hgone, ?_⟩
    simp only [World.effect, World.rank, hfs, FsAt.rank]
    omega
  | fsWrite =>
    have hw : s.fs.writes = true := hen
    unfold World.effect
    dsimp only
    split
    · refine ⟨hgone, ?_⟩
      have hlt : (s.fs.written s.forks).2.rank < s.fs.rank := by
        cases hfs : s.fs with
        | status last => cases last <;> simp [FsAt.written, FsAt.rank]
        | greet | early | pid => simp [FsAt.written, FsAt.rank]
        | _ => simp [hfs, FsAt.writes] at hw
      simp only [World.rank]
      omega
    · refine ⟨hgone, endFs_rank ?_⟩
      intro hdead
      simp [hdead, FsAt.writes] at hw
  | fsToken =>
    obtain ⟨hfs, hctl⟩ : s.fs = .token ∧ 0 < s.ctl := by simpa [World.enabled] using hen
    refine ⟨hgone, ?_⟩
    simp only [World.effect, World.rank, hfs, FsAt.rank]
    omega
  | fsEof =>
    have hfs : s.fs = .token := (by simpa [World.enabled, and_assoc] using hen : _ ∧ _).1
    exact ⟨hgone, endFs_rank (by simp [hfs])⟩
  | fsForkFails =>
    have hfs : s.fs = .fork := by simpa [World.enabled] using hen
    exact ⟨hgone, endFs_rank (by simp [hfs])⟩
  | fsTerm => exact ⟨hgone, endFs_rank (h.termed hen)⟩
  | killFs => exact ⟨hgone, endFs_rank (by simpa [World.enabled] using hen)⟩
  | fsFork =>
    have hfs : s.fs = .fork := by simpa [World.enabled] using hen
    refine ⟨hgone, ?_⟩
    simp only [World.effect, World.rank, hfs, FsAt.rank, ChildAt.rank]
    omega
  | fsWait =>
    refine ⟨?_, ?_⟩
    · rcases served_cases hen with ⟨hfs, hc⟩ | ⟨hfs, hc⟩ | ⟨hfs, hc⟩ | ⟨hfs, hc⟩ <;>
        simp [World.effect, hfs, hc, hgone]
    · rcases served_cases hen with ⟨hfs, hc⟩ | ⟨hfs, hc⟩ | ⟨hfs, hc⟩ | ⟨hfs, hc⟩ <;>
        simp [World.effect, hfs, hc, World.rank, FsAt.rank, ChildAt.rank]
  | childPrctl =>
    have hc : s.child = .born := by simpa [World.enabled] using hen
    refine ⟨hgone, ?_⟩
    simp only [World.effect, World.rank, hc, ChildAt.rank]
    omega
  | childStop =>
    have hc : s.child = .armed := by simpa [World.enabled] using hen
    refine ⟨hgone, ?_⟩
    simp only [World.effect, World.rank, hc, ChildAt.rank]
    omega
  | childClose =>
    have hc : s.child = .resumed ∨ s.child = .closing := by simpa [World.enabled] using hen
    refine ⟨hgone, ?_⟩
    rcases hc with hc | hc <;> simp [World.effect, World.rank, hc, ChildAt.rank]
  | killChild =>
    obtain ⟨hnone, hdead⟩ : s.child ≠ .none ∧ s.child ≠ .dead := by
      simpa [World.enabled] using hen
    refine ⟨hgone, ?_⟩
    have hpos : 0 < s.child.rank := by
      cases hc : s.child with
      | halted seen => cases seen <;> decide
      | none => exact absurd hc hnone
      | dead => exact absurd hc hdead
      | _ => decide
    simp only [World.effect, World.rank]
    change _ + 0 + _ < _
    omega
  | guardSweep =>
    have hg : s.guard = .sweeping := by simpa [World.enabled] using hen
    refine ⟨hgone, ?_⟩
    simp only [World.effect, World.rank, hg, GuardAt.rank]
    omega
  | guardEof =>
    have hg : s.guard = .watching := (by simpa [World.enabled] using hen : _ ∧ _).1
    refine ⟨hgone, ?_⟩
    simp only [World.effect, World.rank, hg, GuardAt.rank]
    omega

/-- What is left when no process can take a step of its own. -/
structure World.Rested (s : World) : Prop where
  fs : s.fs = .dead
  /-- The policy is restored, if a guard was there. -/
  guard : s.guard = .absent ∨ s.guard = .restored
  /-- The pipes are closed. -/
  closed : s.ctlRead = false ∨ s.child = .stopped
  child : s.child = .stopped ∨ s.child.isHalted = true ↔ s.lost = true ∧ s.child ≠ .dead

theorem rested_of_gone (h : Wound s) (hgone : s.proxy = .gone)
    (hrest : ∀ l : Move, l.own = true → s.enabled l = false) : s.Rested := by
  have hfs : s.fs = .dead := by
    rcases h.follows hgone with h' | h' | h' | h'
    · exact h'
    · simpa [World.enabled, h'] using hrest .fsTerm rfl
    · simpa [World.enabled, h'] using hrest .fsPrctl rfl
    · simpa [World.enabled, h', FsAt.writes] using hrest .fsWrite rfl
  have hunstopped : s.child.unstopped = false := by
    cases hc : s.child with
    | born => simpa [World.enabled, hc] using hrest .childPrctl rfl
    | armed => simpa [World.enabled, hc] using hrest .childStop rfl
    | _ => rfl
  refine ⟨hfs, ?_, ?_, ?_, ?_⟩
  · cases hg : s.guard with
    | absent => exact .inl rfl
    | restored => exact .inr rfl
    | sweeping => simpa [World.enabled, hg] using hrest .guardSweep rfl
    | watching =>
      simpa [World.enabled, hg, World.guardWritten, hgone] using hrest .guardEof rfl
  · cases hc : s.child with
    | stopped => exact .inr rfl
    | resumed => simpa [World.enabled, hc] using hrest .childClose rfl
    | born | armed => simp [hc, ChildAt.unstopped] at hunstopped
    | _ => exact .inl (by simp [World.ctlRead, hfs, hc, ChildAt.holdsCtl])
  · -- a child that stays stopped is a lost one
    intro hstopped
    have hlost : s.lost = true := by
      by_contra hlost
      obtain ⟨-, hnot⟩ := h.found hfs (by simpa using hlost)
      rcases hstopped with hc | hc
      · exact hnot hc
      · exact hlost (h.deserted hfs hgone hc)
    refine ⟨hlost, ?_⟩
    rintro hdead
    simp [hdead, ChildAt.isHalted] at hstopped
  · rintro ⟨hlost, hdead⟩
    obtain ⟨-, ⟨-, hc | hc | hc⟩ | ⟨-, hc | hc⟩⟩ := h.lost hlost
    · simp [hunstopped] at hc
    · exact .inl hc
    · exact absurd hc hdead
    · exact .inr hc
    · exact absurd hc hdead

/-- **The others end after the proxy.** From every reachable state in which the proxy is
gone, however it ended, no run is longer than the state's rank. Where it ends with
no process able to take a step of its own, the forkserver is dead, the policy is
restored if the guard was there, and the newest child is left stopped exactly if it
was lost: the forkserver had died before the child's first stop, or the proxy had
stopped the child after the forkserver's death. -/
theorem winds_down (s t : World) (ls : List Move) (hr : lifecycle.machine.Reachable s)
    (hgone : s.proxy = .gone) (hrun : lifecycle.machine.Run s ls t) :
    ls.length + t.rank ≤ s.rank ∧
      ((∀ l : Move, l.own = true → t.enabled l = false) → t.Rested) := by
  have hkeep : t.proxy = .gone ∧ ls.length + t.rank ≤ s.rank := by
    induction hrun with
    | nil => exact ⟨hgone, by simp⟩
    | snoc hrun hstep ih =>
      obtain ⟨hen, rfl⟩ := hstep
      obtain ⟨hgone', hle⟩ := ih
      obtain ⟨hnext, hlt⟩ := rank_lt_of_gone (.of_reachable (hr.run hrun)) hgone' hen
      refine ⟨hnext, ?_⟩
      calc _ = _ + 1 + (lifecycle.effect _ _).rank := by rw [List.length_append]; rfl
        _ ≤ _ := by rw [Nat.add_assoc, Nat.add_comm 1]; exact Nat.add_le_add_left hlt _
        _ ≤ _ := hle
  exact ⟨hkeep.2, rested_of_gone (.of_reachable (hr.run hrun)) hkeep.1⟩

/-- The first child is continued and the proxy killed. -/
def killedProxy : World :=
  lifecycle.run .initial [.fsPrctl, .fsWrite, .readHello, .ask, .fsToken, .fsFork, .childPrctl,
    .childStop, .fsWait, .fsWrite, .readPid, .spawnGuard, .cont, .killProxy]

/-- What the others do then. -/
def afterProxy : List Move :=
  [.guardSweep, .fsTerm, .childClose, .guardEof, .childClose]

/-- The child runs on, and the policy is restored. -/
theorem winds_down_killedProxy :
    (lifecycle.run killedProxy afterProxy).Rested ∧
      (lifecycle.run killedProxy afterProxy).child = .free ∧
      (lifecycle.run killedProxy afterProxy).guard = .restored := by
  have hr : lifecycle.machine.Reachable killedProxy :=
    Guarded.reachable_of_applicable (.of_init rfl) (by decide)
  have hrun : lifecycle.machine.Run killedProxy afterProxy
      (lifecycle.run killedProxy afterProxy) := Guarded.run_of_applicable (by decide)
  refine ⟨(winds_down _ _ _ hr rfl hrun).2 ?_, rfl, rfl⟩
  intro l hown
  cases l <;> first | rfl | cases hown

/-! ### The descriptors -/

/-- The descriptors of the processes: the proxy's when it spawns the guard, the
forkserver's, and those after the guard was spawned. -/
structure Tables where
  proxy : Descriptors File
  forkserver : Descriptors File
  guarding : Guarding

/-- The descriptors are those the calls lead to, from descriptors `t` the proxy was
started with. -/
structure Tables.Sound (d : Tables) (limit : ℕ) (openMax : ℤ) (t : Descriptors File) : Prop where
  unwired : Unwired t
  wiring : ∃ w, startForkserverPipes limit t = some w ∧ w.Joined ∧ d.forkserver = w.forkserver ∧
    ∀ f ∈ [File.stRead, .stWrite, .ctlRead, .ctlWrite], d.proxy.Holds f ↔ w.proxy.Holds f
  guarding : freqGovSpawnGuard limit openMax d.proxy = some d.guarding
  unguarded : ¬ d.proxy.Holds .guardRead ∧ ¬ d.proxy.Holds .guardWrite
  /-- `stderr` is open. -/
  stderr : ∃ n, d.proxy stderrFileno = some (.other n)
  /-- The proxy's descriptors are below the bound of the guard's loop. -/
  bound : limit ≤ guardMaxFd openMax ∧
    ∀ fd f, d.proxy fd = some f → fd < guardMaxFd openMax

/-- What a table has open. -/
structure Ends (t : Descriptors File) (stWrite stRead ctlWrite ctlRead guardWrite : Prop) :
    Prop where
  stWrite : t.Holds .stWrite ↔ stWrite
  stRead : t.Holds .stRead ↔ stRead
  ctlWrite : t.Holds .ctlWrite ↔ ctlWrite
  ctlRead : t.Holds .ctlRead ↔ ctlRead
  guardWrite : t.Holds .guardWrite ↔ guardWrite

section Tables

variable {d : Tables} {limit : ℕ} {openMax : ℤ} {t : Descriptors File}

/-- The forkserver and its child have the forkserver's ends, as long as they are not
closed. -/
theorem Tables.Sound.forkserver (h : d.Sound limit openMax t) :
    Ends d.forkserver True False False True False ∧
      Ends (d.forkserver.close aflcsForksrvFd) True False False False False ∧
      Ends ((d.forkserver.close aflcsForksrvFd).close (aflcsForksrvFd + 1))
        False False False False False := by
  obtain ⟨w, hw, hj, hfs, -⟩ := h.wiring
  have hp := parted_of_wired h.unwired hw
  have hctl := hj.ctlRead
  have hst := hj.stWrite
  rw [← hfs] at hctl hst
  have hcw : ¬ d.forkserver.Holds .ctlWrite := hfs ▸ hp.ctlWrite
  have hsr : ¬ d.forkserver.Holds .stRead := hfs ▸ hp.stRead
  have hgw : ¬ d.forkserver.Holds .guardWrite := hfs ▸ hp.guardWrite
  have hst' := hst.close_of_ne (show aflcsForksrvFd + 1 ≠ aflcsForksrvFd by decide)
  have hclose (f : File) (hf : ¬ d.forkserver.Holds f) :=
    Descriptors.not_holds_close hf aflcsForksrvFd
  have hclose' (f : File) (hf : ¬ (d.forkserver.close aflcsForksrvFd).Holds f) :=
    Descriptors.not_holds_close hf (aflcsForksrvFd + 1)
  refine ⟨⟨?_, ?_, ?_, ?_, ?_⟩, ⟨?_, ?_, ?_, ?_, ?_⟩, ⟨?_, ?_, ?_, ?_, ?_⟩⟩
  · exact iff_of_true hst.holds trivial
  · exact iff_of_false hsr id
  · exact iff_of_false hcw id
  · exact iff_of_true hctl.holds trivial
  · exact iff_of_false hgw id
  -- the first `close()` takes the control pipe's end
  · exact iff_of_true hst'.holds trivial
  · exact iff_of_false (hclose _ hsr) id
  · exact iff_of_false (hclose _ hcw) id
  · exact iff_of_false hctl.not_holds_close id
  · exact iff_of_false (hclose _ hgw) id
  -- and the second that of the status pipe
  · exact iff_of_false hst'.not_holds_close id
  · exact iff_of_false (hclose' _ (hclose _ hsr)) id
  · exact iff_of_false (hclose' _ (hclose _ hcw)) id
  · exact iff_of_false (hclose' _ hctl.not_holds_close) id
  · exact iff_of_false (hclose' _ (hclose _ hgw)) id

/-- The proxy has the other ends, and the guard has them until it has closed them. -/
theorem Tables.Sound.proxy (h : d.Sound limit openMax t) :
    Ends d.proxy False True True False False ∧
      Ends d.guarding.proxy False True True False True ∧
      Ends d.guarding.forked False True True False True ∧
      Ends d.guarding.guard False False False False False := by
  obtain ⟨w, hw, -, -, hproxy⟩ := h.wiring
  have hp := parted_of_wired h.unwired hw
  obtain ⟨-, hwrite, hkept, hgp, -, hgf, hlimit, hfree, hsame⟩ :=
    guard_wired limit openMax d.proxy d.guarding h.unguarded h.guarding
  obtain ⟨n, hstderr⟩ := h.stderr
  have hP : Ends d.proxy False True True False False := by
    refine ⟨?_, ?_, ?_, ?_, ?_⟩
    · exact iff_of_false (fun hf => hp.proxyStWrite ((hproxy _ (by simp)).mp hf)) id
    · exact iff_of_true ((hproxy _ (by simp)).mpr hp.proxySt.holds) trivial
    · exact iff_of_true ((hproxy _ (by simp)).mpr hp.proxyCtl.holds) trivial
    · exact iff_of_false (fun hf => hp.proxyCtlRead ((hproxy _ (by simp)).mp hf)) id
    · exact iff_of_false h.unguarded.2 id
  -- the write end is neither `stderr` nor beyond the loop
  have hclosed : ¬ d.guarding.guard.Holds .guardWrite := by
    rw [hwrite]
    rintro (heq | hle)
    · rw [heq, hstderr] at hfree
      cases hfree
    · exact absurd (lt_of_lt_of_le hlimit h.bound.1) (not_lt.mpr hle)
  have hdropped (f : File) (hf : ∀ n, f ≠ .other n) (hr : f ≠ .guardRead) (hw : f ≠ .guardWrite) :
      ¬ d.guarding.guard.Holds f := by
    rw [hkept f hr hw]
    rintro (heq | ⟨fd, hle, hfd⟩)
    · rw [hstderr] at heq
      exact hf n (Option.some.inj heq).symm
    · exact absurd (h.bound.2 fd f hfd) (not_lt.mpr hle)
  refine ⟨hP, ?_, ?_, ?_⟩
  · exact ⟨(hsame _ (by simp) (by simp)).1.trans hP.stWrite,
      (hsame _ (by simp) (by simp)).1.trans hP.stRead,
      (hsame _ (by simp) (by simp)).1.trans hP.ctlWrite,
      (hsame _ (by simp) (by simp)).1.trans hP.ctlRead, iff_of_true hgp.holds trivial⟩
  · exact ⟨(hsame _ (by simp) (by simp)).2.trans hP.stWrite,
      (hsame _ (by simp) (by simp)).2.trans hP.stRead,
      (hsame _ (by simp) (by simp)).2.trans hP.ctlWrite,
      (hsame _ (by simp) (by simp)).2.trans hP.ctlRead, iff_of_true hgf trivial⟩
  · exact ⟨iff_of_false (hdropped _ (by simp) (by simp) (by simp)) id,
      iff_of_false (hdropped _ (by simp) (by simp) (by simp)) id,
      iff_of_false (hdropped _ (by simp) (by simp) (by simp)) id,
      iff_of_false (hdropped _ (by simp) (by simp) (by simp)) id, iff_of_false hclosed id⟩

end Tables

end CsProxy
end CsTrace
