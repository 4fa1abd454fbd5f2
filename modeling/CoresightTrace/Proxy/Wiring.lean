import CoresightTrace.Framework.Descriptors
import Mathlib.Data.Int.Notation

/-!
# The descriptors of the proxy's children

The proxy shares two pipes with the forkserver, and its restore guard waits for the
end of a third. Whether a read sees the end of its pipe depends on who still has a
descriptor of the other end, so the calls of `__afl_start_forkserver()` and of
`freq_gov_spawn_guard()` on descriptors are modelled one by one, from whatever
descriptors the proxy was started with.

* `forkserver_wired_iff`: the forkserver has its two ends where it expects them, and
  no other, exactly if no pipe got one of these two descriptors from the kernel;
* `guard_wired`: what the guard keeps. It closes what lies below its bound, so it
  has the write end it waits for itself if that end is `stderr`'s descriptor or
  not below the bound.
-/

namespace CsTrace
namespace CsProxy

/-- The ends of the pipes, and the other open files. -/
inductive File where
  | stRead
  | stWrite
  | ctlRead
  | ctlWrite
  | guardRead
  | guardWrite
  | other (n : ℕ)
deriving DecidableEq, Repr

/-- `FORKSRV_FD`. -/
def forksrvFd : ℕ := 198

/-- `AFLCS_FORKSRV_FD`. -/
def aflcsForksrvFd : ℕ := forksrvFd - 3

/-! ### The forkserver -/

/-- The descriptors after `__afl_start_forkserver()`. -/
structure Wiring where
  stPipe : ℕ × ℕ
  ctlPipe : ℕ × ℕ
  proxy : Descriptors File
  forkserver : Descriptors File

/-- The calls of `__afl_start_forkserver()` on descriptors, under the limit of open
files; `none` where a `pipe()` fails. -/
def startForkserverPipes (limit : ℕ) (t : Descriptors File) : Option Wiring :=
  match t.pipe limit .stRead .stWrite with
  | none => none
  | some (t, st) =>
    match t.pipe limit .ctlRead .ctlWrite with
    | none => none
    | some (t, ctl) =>
      some {
        stPipe := st
        ctlPipe := ctl
        -- both processes have all four ends after `fork()`
        forkserver :=
          ((((((((t.dup2 ctl.1 aflcsForksrvFd).dup2 st.2 (aflcsForksrvFd + 1)).close ctl.1).close
            ctl.2).close st.1).close st.2).close forksrvFd).close (forksrvFd + 1))
        proxy := (t.close ctl.1).close st.2 }

/-- None of the pipes is open yet. -/
def Unwired (t : Descriptors File) : Prop :=
  ∀ fd f, t fd = some f → ∃ n, f = .other n

/-- The forkserver's ends, and the proxy's. -/
structure Wiring.Joined (w : Wiring) : Prop where
  ctlRead : w.forkserver.HoldsAt .ctlRead aflcsForksrvFd
  stWrite : w.forkserver.HoldsAt .stWrite (aflcsForksrvFd + 1)

/-- What each process has in any case. -/
structure Wiring.Parted (w : Wiring) : Prop where
  proxyCtl : w.proxy.HoldsAt .ctlWrite w.ctlPipe.2
  proxySt : w.proxy.HoldsAt .stRead w.stPipe.1
  proxyCtlRead : ¬ w.proxy.Holds .ctlRead
  proxyStWrite : ¬ w.proxy.Holds .stWrite
  ctlWrite : ¬ w.forkserver.Holds .ctlWrite
  stRead : ¬ w.forkserver.Holds .stRead
  guardWrite : ¬ w.forkserver.Holds .guardWrite
  outer : w.forkserver forksrvFd = none ∧ w.forkserver (forksrvFd + 1) = none

/-- What is known of the descriptors after both `pipe()` calls. -/
structure Opened (t t₂ : Descriptors File) (st ctl : ℕ × ℕ) : Prop where
  distinct : [st.1, st.2, ctl.1, ctl.2].Nodup
  free : t st.1 = none ∧ t st.2 = none ∧ t ctl.1 = none ∧ t ctl.2 = none
  table : ∀ fd, t₂ fd =
    if fd = st.1 then some .stRead else if fd = st.2 then some .stWrite
    else if fd = ctl.1 then some .ctlRead else if fd = ctl.2 then some .ctlWrite else t fd

theorem opened_of_pipes {limit : ℕ} {t t₁ t₂ : Descriptors File} {st ctl : ℕ × ℕ}
    (hst : t.pipe limit .stRead .stWrite = some (t₁, st))
    (hctl : t₁.pipe limit .ctlRead .ctlWrite = some (t₂, ctl)) : Opened t t₂ st ctl := by
  obtain ⟨hr, hw, hne, -, -, rfl⟩ := Descriptors.pipe_spec (r := st.1) (w := st.2) hst
  obtain ⟨hr', hw', hne', -, -, rfl⟩ := Descriptors.pipe_spec (r := ctl.1) (w := ctl.2) hctl
  simp only [Descriptors.set_apply] at hr' hw'
  -- the second pipe gets descriptors that the first has left free
  have hr₁ : ctl.1 ≠ st.1 ∧ ctl.1 ≠ st.2 ∧ t ctl.1 = none := by grind
  have hw₁ : ctl.2 ≠ st.1 ∧ ctl.2 ≠ st.2 ∧ t ctl.2 = none := by grind
  refine ⟨?_, ⟨hr, hw, hr₁.2.2, hw₁.2.2⟩, ?_⟩
  · simp only [List.nodup_cons, List.mem_cons, List.not_mem_nil, or_false, not_or,
      List.nodup_nil, and_true, not_false_eq_true]
    exact ⟨⟨hne, hr₁.1.symm, hw₁.1.symm⟩, ⟨hr₁.2.1.symm, hw₁.2.1.symm⟩, hne'⟩
  · intro fd
    simp only [Descriptors.set_apply]
    grind

section Calls

variable {limit : ℕ} {t : Descriptors File} {w : Wiring}

theorem opened_of_wired (h : startForkserverPipes limit t = some w) :
    ∃ t₂, Opened t t₂ w.stPipe w.ctlPipe ∧
      w.proxy = (t₂.close w.ctlPipe.1).close w.stPipe.2 ∧
      w.forkserver =
        ((((((((t₂.dup2 w.ctlPipe.1 aflcsForksrvFd).dup2 w.stPipe.2 (aflcsForksrvFd + 1)).close
          w.ctlPipe.1).close w.ctlPipe.2).close w.stPipe.1).close w.stPipe.2).close forksrvFd).close
            (forksrvFd + 1)) := by
  unfold startForkserverPipes at h
  split at h
  · cases h
  · next t₁ st hst =>
    split at h
    · cases h
    · next t₂ ctl hctl =>
      obtain rfl := Option.some.inj h
      exact ⟨t₂, opened_of_pipes hst hctl, rfl, rfl⟩

/-- The four descriptors of the pipes differ. -/
theorem Opened.ne {t₂ : Descriptors File} {st ctl : ℕ × ℕ} (h : Opened t t₂ st ctl) :
    (st.1 ≠ st.2 ∧ st.1 ≠ ctl.1 ∧ st.1 ≠ ctl.2) ∧ (st.2 ≠ ctl.1 ∧ st.2 ≠ ctl.2) ∧
      ctl.1 ≠ ctl.2 := by
  simpa [not_or] using h.distinct

/-- **What each process has in any case.** -/
theorem parted_of_wired (ht : Unwired t) (h : startForkserverPipes limit t = some w) :
    w.Parted := by
  obtain ⟨t₂, hopen, hproxy, hfork⟩ := opened_of_wired h
  obtain ⟨⟨h₁, h₂, h₃⟩, ⟨h₄, h₅⟩, h₆⟩ := hopen.ne
  have htable := hopen.table
  -- what was open before is no end of these pipes
  have hother (fd : ℕ) (f : File) (hf : t fd = some f) : ∃ n, f = .other n := ht fd f hf
  constructor
  · intro fd
    rw [hproxy]
    simp only [Descriptors.close_apply, htable]
    grind
  · intro fd
    rw [hproxy]
    simp only [Descriptors.close_apply, htable]
    grind
  · rintro ⟨fd, hfd⟩
    rw [hproxy] at hfd
    simp only [Descriptors.close_apply, htable] at hfd
    grind
  · rintro ⟨fd, hfd⟩
    rw [hproxy] at hfd
    simp only [Descriptors.close_apply, htable] at hfd
    grind
  · rintro ⟨fd, hfd⟩
    rw [hfork] at hfd
    simp only [Descriptors.close_apply, Descriptors.dup2_apply, htable] at hfd
    grind
  · rintro ⟨fd, hfd⟩
    rw [hfork] at hfd
    simp only [Descriptors.close_apply, Descriptors.dup2_apply, htable] at hfd
    grind
  · rintro ⟨fd, hfd⟩
    rw [hfork] at hfd
    simp only [Descriptors.close_apply, Descriptors.dup2_apply, htable] at hfd
    grind
  · rw [hfork]
    simp [Descriptors.close_apply]

end Calls

/-- The bound of the guard's loop, from `sysconf(_SC_OPEN_MAX)`. -/
def guardMaxFd (openMax : ℤ) : ℕ :=
  if openMax < 0 ∨ 4096 < openMax then 4096 else openMax.toNat

/-- `STDERR_FILENO`. -/
def stderrFileno : ℕ := 2

/-- The descriptors after `freq_gov_spawn_guard()`. -/
structure Guarding where
  fds : ℕ × ℕ
  proxy : Descriptors File
  /-- The guard before it closes anything. -/
  forked : Descriptors File
  guard : Descriptors File

/-- The calls of `freq_gov_spawn_guard()` on descriptors; `none` where `pipe2()` fails. -/
def freqGovSpawnGuard (limit : ℕ) (openMax : ℤ) (t : Descriptors File) : Option Guarding :=
  match t.pipe limit .guardRead .guardWrite with
  | none => none
  | some (t, fds) =>
    some {
      fds := fds
      forked := t
      guard := t.sweep [fds.1, stderrFileno] (guardMaxFd openMax)
      proxy := t.close fds.1 }

/-- **What the guard keeps.** From whatever descriptors the proxy has then, the guard
has the read end of its pipe, and waits for an end of the pipe that it holds open
itself exactly if the write end is `stderr`'s descriptor or not below the bound of
its loop. Of what the proxy has open it keeps `stderr` and what is not below the
bound. The proxy has the write end, and not the read end; the guard has all of it
until it has closed it. -/
theorem guard_wired (limit : ℕ) (openMax : ℤ) (t : Descriptors File) (g : Guarding)
    (ht : ¬ t.Holds .guardRead ∧ ¬ t.Holds .guardWrite)
    (h : freqGovSpawnGuard limit openMax t = some g) :
    g.guard.HoldsAt .guardRead g.fds.1 ∧
      (g.guard.Holds .guardWrite ↔ g.fds.2 = stderrFileno ∨ guardMaxFd openMax ≤ g.fds.2) ∧
      (∀ f, f ≠ .guardRead → f ≠ .guardWrite →
        (g.guard.Holds f ↔
          t stderrFileno = some f ∨ ∃ fd, guardMaxFd openMax ≤ fd ∧ t fd = some f)) ∧
      g.proxy.HoldsAt .guardWrite g.fds.2 ∧ ¬ g.proxy.Holds .guardRead ∧
      g.forked.Holds .guardWrite ∧ g.fds.2 < limit ∧ t g.fds.2 = none ∧
      ∀ f, f ≠ .guardRead → f ≠ .guardWrite →
        (g.proxy.Holds f ↔ t.Holds f) ∧ (g.forked.Holds f ↔ t.Holds f) := by
  obtain ⟨t', hpipe, hguard, hproxy, hforked⟩ : ∃ t', t.pipe limit .guardRead .guardWrite =
      some (t', g.fds) ∧ g.guard = t'.sweep [g.fds.1, stderrFileno] (guardMaxFd openMax) ∧
        g.proxy = t'.close g.fds.1 ∧ g.forked = t' := by
    unfold freqGovSpawnGuard at h
    split at h
    · cases h
    · next t' fds hpipe =>
      obtain rfl := Option.some.inj h
      exact ⟨t', hpipe, rfl, rfl, rfl⟩
  obtain ⟨hr, hw, hne, -, hlimit, rfl⟩ :=
    Descriptors.pipe_spec (r := g.fds.1) (w := g.fds.2) hpipe
  have hguard_apply (fd : ℕ) := (congrFun hguard fd).trans (Descriptors.sweep_apply _ _ _ fd)
  have hproxy_apply (fd : ℕ) := congrFun hproxy fd
  have hforked_apply (fd : ℕ) := congrFun hforked fd
  simp only [Descriptors.set_apply, Descriptors.close_apply, List.mem_cons, List.not_mem_nil,
    or_false, not_or] at hguard_apply hproxy_apply hforked_apply
  -- no descriptor of the ends was open before
  have hnoRead (fd : ℕ) : t fd ≠ some .guardRead := fun hfd => ht.1 ⟨fd, hfd⟩
  have hnoWrite (fd : ℕ) : t fd ≠ some .guardWrite := fun hfd => ht.2 ⟨fd, hfd⟩
  unfold Descriptors.HoldsAt Descriptors.Holds
  simp only [hguard_apply, hproxy_apply, hforked_apply]
  refine ⟨?_, ?_, ?_, ?_, ?_, ?_, hlimit, hw, ?_⟩
  · grind
  · grind
  · grind
  · grind
  · grind
  · grind
  · grind

end CsProxy
end CsTrace
