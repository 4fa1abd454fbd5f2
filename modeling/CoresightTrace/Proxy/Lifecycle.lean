import CoresightTrace.Framework.Guarded
import CoresightTrace.Proxy.Wiring

/-!
# When a process dies

The proxy, the forkserver, its newest child and the restore guard, with any of them
killed at any time. What ties them together is the kernel's: the ends of the pipes,
which are closed with the last process that has them open, and the signals sent to
a process when its parent dies, `SIGTERM` to the forkserver and `SIGCONT` to a child
that has asked for it.

A child has the forkserver's ends from its fork until it closes them after its first
stop, so the proxy's read of the status pipe can end only after that. It asks for
`SIGCONT` before it stops itself. If the forkserver dies in between, or before, the
signal is not sent or finds nothing to continue, and the child stops for good
(`World.lost`).

* `hangs_iff`: once the forkserver is dead this is the one way the proxy can be left
  waiting on the status pipe;
* `winds_down`: once the proxy is gone, the others end by themselves after a bounded
  number of steps, the policy is restored, and a child is left stopped only in this
  way, or if the forkserver was dead before and the proxy had stopped the child.

Which process has which end is a function of where it is (`World.stWritten` and its
siblings); `ends_of_tables` derives it from the descriptors of
`Proxy/Wiring.lean`. A child is stopped by `SIGSTOP` only, `SIGPIPE` is ignored as
it is under AFL++, and no call fails but for a pipe whose other end is closed, and
`fork()`.
-/

namespace CsTrace
namespace CsProxy

/-! ### Places -/

/-- Where the proxy is. -/
inductive ProxyAt where
  /-- It reads the forkserver's first word. -/
  | greet
  /-- It serves no child. -/
  | idle
  /-- It has asked for a child, and reads its pid. -/
  | asked
  /-- It has the pid, and has not sent `SIGCONT`. -/
  | told
  /-- It reads the child's statuses. -/
  | waiting
  /-- A read has failed. -/
  | failed
  | gone
deriving DecidableEq, Repr

/-- Where the forkserver is. -/
inductive FsAt where
  /-- Before it asks for `SIGTERM` on its parent's death. -/
  | boot
  /-- It writes its first word. -/
  | greet
  /-- It reads a token. -/
  | token
  | fork
  /-- It waits for the child's first stop. -/
  | watch
  /-- The child has ended instead, and the status is written. -/
  | early
  /-- The pid is written. -/
  | pid
  /-- It waits for a status of the child. -/
  | relay
  /-- The status is written. -/
  | status (last : Bool)
  | dead
deriving DecidableEq, Repr

/-- Where the newest child is. -/
inductive ChildAt where
  | none
  /-- Before it asks for `SIGCONT` on its parent's death. -/
  | born
  /-- Before it stops itself. -/
  | armed
  | stopped
  /-- Continued, with both ends still open. -/
  | resumed
  /-- The control pipe's end is closed. -/
  | closing
  /-- The target runs. -/
  | free
  /-- The proxy has stopped it to drain the trace; the forkserver has or has not seen it. -/
  | halted (seen : Bool)
  | dead
deriving DecidableEq, Repr

/-- Where the restore guard is. -/
inductive GuardAt where
  | absent
  /-- It closes the descriptors it does not need. -/
  | sweeping
  /-- It waits for the end of its pipe. -/
  | watching
  /-- It has restored the policy and is gone. -/
  | restored
deriving DecidableEq, Repr

/-- A word of the status pipe. -/
inductive Msg where
  | hello
  | pid (child : ℕ)
  | stopped
  | ended
deriving DecidableEq, Repr

/-- The processes and the two pipes. -/
structure World where
  proxy : ProxyAt
  fs : FsAt
  child : ChildAt
  guard : GuardAt
  /-- `SIGTERM` is pending for the forkserver. -/
  term : Bool
  st : List Msg
  ctl : ℕ
  /-- The number of children, which names the newest. -/
  forks : ℕ
  /-- The child whose pid the proxy has read last. -/
  held : ℕ
  /-- History: the child was abandoned before its first stop, or stopped. -/
  lost : Bool

/-- After `__afl_start_forkserver()` has forked. -/
def World.initial : World where
  proxy := .greet
  fs := .boot
  child := .none
  guard := .absent
  term := false
  st := []
  ctl := 0
  forks := 0
  held := 0
  lost := false

/-! ### Ends of the pipes -/

/-- The child has the forkserver's end of the status pipe. -/
def ChildAt.holdsSt : ChildAt → Bool
  | .born | .armed | .stopped | .resumed | .closing => true
  | _ => false

/-- The child has the forkserver's end of the control pipe. -/
def ChildAt.holdsCtl : ChildAt → Bool
  | .born | .armed | .stopped | .resumed => true
  | _ => false

/-- The status pipe has a write end. -/
def World.stWritten (s : World) : Bool :=
  s.fs != .dead || s.child.holdsSt

/-- The status pipe has a read end. -/
def World.stRead (s : World) : Bool :=
  s.proxy != .gone || s.guard == .sweeping

/-- The control pipe has a write end. -/
def World.ctlWritten (s : World) : Bool :=
  s.proxy != .gone || s.guard == .sweeping

/-- The control pipe has a read end. -/
def World.ctlRead (s : World) : Bool :=
  s.fs != .dead || s.child.holdsCtl

/-- The guard's pipe has a write end. -/
def World.guardWritten (s : World) : Bool :=
  s.proxy != .gone || s.guard == .sweeping

/-! ### Steps -/

/-- A step of one of the processes, or a kill from outside. -/
inductive Move where
  /-- The proxy reads the first word. -/
  | readHello
  /-- The proxy writes a token. -/
  | ask
  /-- The proxy reads a pid, or what it takes for one. -/
  | readPid
  /-- `freq_gov_spawn_guard()`. -/
  | spawnGuard
  /-- `kill(child_pid, SIGCONT)`. -/
  | cont
  /-- The trace buffer runs full, and the child is stopped. -/
  | halt
  /-- The proxy reads a status, and continues a child that has stopped. -/
  | readStatus
  /-- The proxy's read finds the end of the pipe. -/
  | readEof
  /-- The proxy ends after a failure. -/
  | giveUp
  /-- `prctl(PR_SET_PDEATHSIG, SIGTERM)`. -/
  | fsPrctl
  /-- The forkserver writes what is next. -/
  | fsWrite
  | fsToken
  /-- The forkserver's read finds the end of the pipe. -/
  | fsEof
  | fsFork
  /-- `fork()` has failed, `_exit(4)`. -/
  | fsForkFails
  /-- `waitpid()` returns. -/
  | fsWait
  /-- `SIGTERM` is delivered. -/
  | fsTerm
  /-- `prctl(PR_SET_PDEATHSIG, SIGCONT)`. -/
  | childPrctl
  /-- `raise(SIGSTOP)`. -/
  | childStop
  /-- `close()` of the child's next descriptor. -/
  | childClose
  | guardSweep
  /-- The guard's read finds the end of its pipe. -/
  | guardEof
  | killProxy
  | killFs
  /-- The child ends, or is killed. -/
  | killChild
deriving DecidableEq, Repr

/-- The proxy reads the status pipe. -/
def ProxyAt.reads : ProxyAt → Bool
  | .greet | .asked | .waiting => true
  | _ => false

/-- The forkserver's next call is a write. -/
def FsAt.writes : FsAt → Bool
  | .greet | .early | .pid | .status _ => true
  | _ => false

/-- `waitpid()` has something to return. -/
def FsAt.served : FsAt → ChildAt → Bool
  | .watch, .stopped | .watch, .dead | .relay, .halted false | .relay, .dead => true
  | _, _ => false

/-- Whether the step can be taken. -/
def World.enabled (s : World) : Move → Bool
  | .readHello => s.proxy == .greet && !s.st.isEmpty
  | .ask => s.proxy == .idle
  | .readPid => s.proxy == .asked && !s.st.isEmpty
  | .spawnGuard => s.proxy == .told && s.guard == .absent
  | .cont => s.proxy == .told
  | .halt => s.proxy == .waiting && s.child == .free
  | .readStatus => s.proxy == .waiting && !s.st.isEmpty
  | .readEof => s.proxy.reads && s.st.isEmpty && !s.stWritten
  | .giveUp => s.proxy == .failed
  | .fsPrctl => s.fs == .boot
  | .fsWrite => s.fs.writes
  | .fsToken => s.fs == .token && decide (0 < s.ctl)
  | .fsEof => s.fs == .token && decide (s.ctl = 0) && !s.ctlWritten
  | .fsFork | .fsForkFails => s.fs == .fork
  | .fsWait => s.fs.served s.child
  | .fsTerm => s.term
  | .childPrctl => s.child == .born
  | .childStop => s.child == .armed
  | .childClose => s.child == .resumed || s.child == .closing
  | .guardSweep => s.guard == .sweeping
  | .guardEof => s.guard == .watching && !s.guardWritten
  | .killProxy => s.proxy != .gone
  | .killFs => s.fs != .dead
  | .killChild => s.child != .none && s.child != .dead

/-- `SIGCONT`. -/
def ChildAt.continued : ChildAt → ChildAt
  | .stopped => .resumed
  | .halted _ => .free
  | c => c

/-- The child has not reached its first stop. -/
def ChildAt.unstopped : ChildAt → Bool
  | .born | .armed => true
  | _ => false

/-- The proxy has stopped the child. -/
def ChildAt.isHalted : ChildAt → Bool
  | .halted _ => true
  | _ => false

/-- The forkserver ends. A child that has not asked for the signal is one that has not
stopped, so it does not matter whether it is sent. -/
def World.endFs (s : World) : World :=
  { s with
    fs := .dead
    term := false
    child := s.child.continued
    lost := s.lost || s.child.unstopped }

/-- The forkserver has asked for the signal, and gets it when the proxy ends. -/
def FsAt.armed : FsAt → Bool
  | .boot | .dead => false
  | _ => true

/-- The proxy ends. -/
def World.endProxy (s : World) : World :=
  { s with
    proxy := .gone
    term := s.term || s.fs.armed
    lost := s.lost || (s.fs == .dead && s.child.isHalted) }

/-- `SIGCONT` to the child whose pid the proxy has. -/
def World.contHeld (s : World) : World :=
  if s.held = s.forks then { s with child := s.child.continued } else s

/-- The proxy takes a word for a pid. -/
def World.hold (s : World) : Option Msg → World
  | some (.pid k) => { s with held := k }
  | _ => s

/-- The forkserver's write, and where it goes on. -/
def FsAt.written (forks : ℕ) : FsAt → Msg × FsAt
  | .greet => (.hello, .token)
  | .early => (.ended, .token)
  | .pid => (.pid forks, .relay)
  | .status false => (.stopped, .relay)
  | fs => (.ended, if fs = .status true then .token else fs)

/-- The state the step leads to. -/
def World.effect (s : World) : Move → World
  | .readHello => { s with proxy := .idle, st := s.st.tail }
  -- a failure of `__afl_next_testcase()` is taken for a test case
  | .ask =>
    if s.ctlRead then { s with proxy := .asked, ctl := s.ctl + 1 } else { s with proxy := .waiting }
  | .readPid => { s.hold s.st.head? with proxy := .told, st := s.st.tail }
  | .spawnGuard => { s with guard := .sweeping }
  | .cont => { s.contHeld with proxy := .waiting }
  | .halt => { s with child := .halted false }
  | .readStatus =>
    if s.st.head? = some .stopped then { s.contHeld with st := s.st.tail }
    else { s with proxy := .idle, st := s.st.tail }
  | .readEof => { s with proxy := if s.proxy = .asked then .waiting else .failed }
  | .giveUp => s.endProxy
  | .fsPrctl => { s with fs := .greet }
  | .fsWrite =>
    if s.stRead then
      { s with st := s.st ++ [(s.fs.written s.forks).1], fs := (s.fs.written s.forks).2 }
    else s.endFs
  | .fsToken => { s with fs := .fork, ctl := s.ctl - 1 }
  | .fsEof | .fsForkFails | .fsTerm => s.endFs
  | .fsFork => { s with fs := .watch, child := .born, forks := s.forks + 1 }
  | .fsWait =>
    match s.fs, s.child with
    | .watch, .stopped => { s with fs := .pid }
    | .watch, _ => { s with fs := .early, child := .none }
    | _, .halted _ => { s with fs := .status false, child := .halted true }
    | _, _ => { s with fs := .status true, child := .none }
  | .childPrctl => { s with child := .armed }
  | .childStop => { s with child := .stopped }
  | .childClose => { s with child := if s.child = .resumed then .closing else .free }
  | .guardSweep => { s with guard := .watching }
  | .guardEof => { s with guard := .restored }
  | .killProxy => s.endProxy
  | .killFs => s.endFs
  | .killChild => { s with child := .dead }

/-- The processes, with kills from outside. -/
def lifecycle : Guarded World Move where
  init s := s = .initial
  enabled := World.enabled
  effect := World.effect

/-- The step is no kill, and none that only AFL++ or the target brings about. -/
def Move.own : Move → Bool
  | .ask | .halt | .killProxy | .killFs | .killChild => false
  | _ => true

/-! ### The invariant -/

/-- The newest child has not been named to the proxy. -/
def World.Unnamed (s : World) : Prop :=
  (∀ k, .pid k ∈ s.st → k < s.forks) ∧ s.held < s.forks

/-- What holds whoever has died. -/
structure Wound (s : World) : Prop where
  /-- Before the forkserver's first word there is nothing but the two processes. -/
  starts : s.fs = .boot ∨ s.fs = .greet →
    (s.proxy = .greet ∨ s.proxy = .gone) ∧ s.guard = .absent ∧ s.st = []
  /-- The proxy's end is the forkserver's. -/
  follows : s.proxy = .gone → s.fs = .dead ∨ s.term = true ∨ s.fs = .boot ∨ s.fs = .greet
  termed : s.term = true → s.fs ≠ .dead
  unnamed : s.child.unstopped = true → s.Unnamed
  named : (∀ k, .pid k ∈ s.st → k ≤ s.forks) ∧ s.held ≤ s.forks
  watched : s.child.unstopped = true → s.fs = .watch ∨ s.fs = .dead
  /-- A child that is not lost has been continued. -/
  found : s.fs = .dead → s.lost = false → s.child.unstopped = false ∧ s.child ≠ .stopped
  lost : s.lost = true → s.fs = .dead ∧
    (s.Unnamed ∧ (s.child.unstopped = true ∨ s.child = .stopped ∨ s.child = .dead) ∨
      s.proxy = .gone ∧ (s.child.isHalted = true ∨ s.child = .dead))
  deserted : s.fs = .dead → s.proxy = .gone → s.child.isHalted = true → s.lost = true

theorem Wound.initial : Wound .initial := by
  constructor <;> simp [World.initial, ChildAt.unstopped, ChildAt.isHalted]

variable {s : World} {l : Move}

theorem continued_unstopped (c : ChildAt) : c.continued.unstopped = c.unstopped := by
  cases c <;> rfl

/-- A lost child is one of a dead forkserver. -/
theorem Wound.not_lost (h : Wound s) (hfs : s.fs ≠ .dead) : s.lost = false := by
  by_contra hlost
  exact hfs (h.lost (by simpa using hlost)).1

/-- The forkserver ends: its child is continued, or is lost. -/
theorem Wound.endFs (h : Wound s) (hfs : s.fs ≠ .dead) : Wound s.endFs where
  starts := by rintro (hb | hb) <;> cases hb
  follows _ := .inl rfl
  termed ht := absurd ht Bool.false_ne_true
  unnamed hu := h.unnamed (by rwa [← continued_unstopped])
  named := h.named
  watched _ := .inr rfl
  found _ hl := by
    have hstopped : s.child.unstopped = false := (Bool.or_eq_false_iff.mp hl).2
    refine ⟨(continued_unstopped _).trans hstopped, ?_⟩
    change s.child.continued ≠ .stopped
    cases hc : s.child <;> simp [ChildAt.continued]
  lost hl := by
    have hunstopped : s.child.unstopped = true := by
      simpa [World.endFs, h.not_lost hfs] using hl
    refine ⟨rfl, .inl ⟨h.unnamed hunstopped, .inl ?_⟩⟩
    exact (continued_unstopped _).trans hunstopped
  deserted _ _ hh := by
    change s.child.continued.isHalted = true at hh
    cases hc : s.child <;> simp [hc, ChildAt.continued, ChildAt.isHalted] at hh

/-- The proxy ends: the forkserver is told, if it has asked. -/
theorem Wound.endProxy (h : Wound s) : Wound s.endProxy where
  starts hb := ⟨.inr rfl, (h.starts hb).2⟩
  follows _ := by
    cases hfs : s.fs <;> simp [World.endProxy, FsAt.armed, hfs]
  termed ht := by
    rcases Bool.or_eq_true_iff.mp ht with ht | ht
    · exact h.termed ht
    · intro hfs
      change s.fs = .dead at hfs
      simp [hfs, FsAt.armed] at ht
  unnamed := h.unnamed
  named := h.named
  watched := h.watched
  found hfs hl := h.found hfs (Bool.or_eq_false_iff.mp hl).1
  lost hl := by
    rcases Bool.or_eq_true_iff.mp hl with hl | hl
    · obtain ⟨hfs, hchild | ⟨-, hchild⟩⟩ := h.lost hl
      · exact ⟨hfs, .inl hchild⟩
      · exact ⟨hfs, .inr ⟨rfl, hchild⟩⟩
    · obtain ⟨hfs, hhalted⟩ := Bool.and_eq_true_iff.mp hl
      exact ⟨beq_iff_eq.mp hfs, .inr ⟨rfl, .inl hhalted⟩⟩
  deserted hfs _ hh := by
    apply Bool.or_eq_true_iff.mpr
    exact .inr (Bool.and_eq_true_iff.mpr ⟨beq_iff_eq.mpr hfs, hh⟩)

/-- The proxy goes on, and reads a word or none. -/
theorem Wound.proxyTo (h : Wound s) {q : ProxyAt} {w : List Msg} {held : ℕ}
    (hproxy : s.proxy ≠ .gone) (hq : q ≠ .gone) (hst : ∀ m ∈ w, m ∈ s.st)
    (hheld : held = s.held ∨ .pid held ∈ s.st)
    (hstarts : s.fs = .boot ∨ s.fs = .greet → q = .greet) :
    Wound { s with proxy := q, st := w, held := held } where
  starts hb := by
    obtain ⟨-, hguard, hnil⟩ := h.starts hb
    refine ⟨.inl (hstarts hb), hguard, ?_⟩
    apply List.eq_nil_iff_forall_not_mem.mpr
    intro m hm
    exact absurd (hst m hm) (by simp [hnil])
  follows hgone := absurd hgone hq
  termed := h.termed
  unnamed hu := by
    obtain ⟨hpids, hlt⟩ := h.unnamed hu
    refine ⟨fun k hk => hpids k (hst _ hk), ?_⟩
    rcases hheld with rfl | hmem
    · exact hlt
    · exact hpids held hmem
  named := by
    refine ⟨fun k hk => h.named.1 k (hst _ hk), ?_⟩
    rcases hheld with rfl | hmem
    · exact h.named.2
    · exact h.named.1 held hmem
  watched := h.watched
  found := h.found
  lost hl := by
    obtain ⟨hfs, ⟨⟨hpids, hlt⟩, hchild⟩ | ⟨hgone, -⟩⟩ := h.lost hl
    · refine ⟨hfs, .inl ⟨⟨fun k hk => hpids k (hst _ hk), ?_⟩, hchild⟩⟩
      rcases hheld with rfl | hmem
      · exact hlt
      · exact hpids held hmem
    · exact absurd hgone hproxy
  deserted _ hgone := absurd hgone hq

/-- The proxy continues the child it has the pid of, which is not a lost one. -/
theorem Wound.contHeld (h : Wound s) (hproxy : s.proxy ≠ .gone) : Wound s.contHeld := by
  unfold World.contHeld
  split
  · next hheld =>
    -- the newest child has been named, so it has stopped once
    have hnot : ¬ s.Unnamed := fun hu => absurd hheld hu.2.ne
    have hunstopped : s.child.unstopped = false := by
      by_contra hu
      exact hnot (h.unnamed (by simpa using hu))
    have hcont : s.child.continued.unstopped = false := (continued_unstopped _).trans hunstopped
    have hlost : s.lost = false := by
      by_contra hl
      obtain ⟨-, ⟨hu, -⟩ | ⟨hgone, -⟩⟩ := h.lost (by simpa using hl)
      · exact hnot hu
      · exact hproxy hgone
    refine ⟨h.starts, h.follows, h.termed, ?_, h.named, ?_, ?_, ?_, ?_⟩
    · intro hu
      exact absurd hu (by simp [hcont])
    · intro hu
      exact absurd hu (by simp [hcont])
    · intro _ _
      refine ⟨hcont, ?_⟩
      dsimp only
      cases hc : s.child <;> simp [ChildAt.continued]
    · intro hl
      exact absurd hl (by simp [hlost])
    · intro _ hgone
      exact absurd hgone hproxy
  · exact h

/-- The child takes a step before its first stop or after it, or ends. -/
theorem Wound.childTo (h : Wound s) {c : ChildAt} (hhalted : c.isHalted = false)
    (hc : s.child.unstopped = true ∧ (c.unstopped = true ∨ c = .stopped) ∨ c = .dead ∨
      c.unstopped = false ∧ c ≠ .stopped ∧ s.lost = false) :
    Wound { s with child := c } := by
  have hunstopped : c.unstopped = true → s.child.unstopped = true := by
    intro hu
    rcases hc with ⟨h', -⟩ | rfl | ⟨h', -⟩
    · exact h'
    · cases hu
    · simp [h'] at hu
  refine ⟨h.starts, h.follows, h.termed, fun hu => h.unnamed (hunstopped hu), h.named,
    fun hu => h.watched (hunstopped hu), ?_, ?_, ?_⟩
  · intro hfs hl
    obtain ⟨hnot, -⟩ := h.found hfs hl
    rcases hc with ⟨h', -⟩ | rfl | ⟨hu, hs, -⟩
    · simp [h'] at hnot
    · exact ⟨rfl, by simp⟩
    · exact ⟨hu, hs⟩
  · intro hl
    obtain ⟨hfs, hchild⟩ := h.lost hl
    refine ⟨hfs, ?_⟩
    rcases hc with ⟨hu, hnext⟩ | rfl | ⟨-, -, hnot⟩
    · refine .inl ⟨h.unnamed hu, ?_⟩
      rcases hnext with hnext | hnext
      · exact .inl hnext
      · exact .inr (.inl hnext)
    · rcases hchild with ⟨hun, -⟩ | ⟨hgone, -⟩
      · exact .inl ⟨hun, .inr (.inr rfl)⟩
      · exact .inr ⟨hgone, .inr rfl⟩
    · simp [hnot] at hl
  · intro _ _ hh
    exact absurd hh (by simp [hhalted])

/-- The forkserver goes on with its child reaped or as it was. -/
theorem Wound.fsTo (h : Wound s) {f : FsAt} {c : ChildAt} {ctl : ℕ} (hfs : s.fs ≠ .dead)
    (hstarted : s.fs ≠ .boot ∧ s.fs ≠ .greet) (hto : f ≠ .dead ∧ f ≠ .boot ∧ f ≠ .greet)
    (hc : c.unstopped = false) : Wound { s with fs := f, child := c, ctl := ctl } where
  starts := by
    rintro (hb | hb)
    · exact absurd hb hto.2.1
    · exact absurd hb hto.2.2
  follows hgone := by
    rcases h.follows hgone with h' | h' | h' | h'
    · exact absurd h' hfs
    · exact .inr (.inl h')
    · exact absurd h' hstarted.1
    · exact absurd h' hstarted.2
  termed _ := hto.1
  unnamed hu := absurd hu (by simp [hc])
  named := h.named
  watched hu := absurd hu (by simp [hc])
  found hdead := absurd hdead hto.1
  lost hl := absurd hl (by simp [h.not_lost hfs])
  deserted hdead := absurd hdead hto.1

/-- The child of a live forkserver that is not at its first `waitpid()` has stopped once. -/
theorem Wound.stopped_of (h : Wound s) (hfs : s.fs ≠ .dead) (hwatch : s.fs ≠ .watch) :
    s.child.unstopped = false := by
  by_contra hu
  rcases h.watched (by simpa using hu) with h' | h'
  · exact hwatch h'
  · exact hfs h'

/-- A word of the forkserver that somebody can read. -/
theorem Wound.write (h : Wound s) (hw : s.fs.writes = true) (hread : s.stRead = true) :
    Wound { s with st := s.st ++ [(s.fs.written s.forks).1], fs := (s.fs.written s.forks).2 } := by
  have hfs : s.fs ≠ .dead := by
    rintro hdead
    simp [hdead, FsAt.writes] at hw
  have hwatch : s.fs ≠ .watch := by
    rintro hwatch
    simp [hwatch, FsAt.writes] at hw
  have hstopped := h.stopped_of hfs hwatch
  have hto : (s.fs.written s.forks).2 ≠ .dead ∧ (s.fs.written s.forks).2 ≠ .boot ∧
      (s.fs.written s.forks).2 ≠ .greet := by
    cases hc : s.fs with
    | status last => cases last <;> simp [FsAt.written]
    | _ => simp [FsAt.written, FsAt.writes, hc] at hw ⊢
  refine ⟨?_, ?_, fun _ => hto.1, ?_, ⟨?_, h.named.2⟩, ?_, ?_, ?_, ?_⟩
  · rintro (hb | hb)
    · exact absurd hb hto.2.1
    · exact absurd hb hto.2.2
  · intro hgone
    rcases h.follows hgone with h' | h' | h' | h'
    · exact absurd h' hfs
    · exact .inr (.inl h')
    · simp [h', FsAt.writes] at hw
    · -- nobody can read the first word of a forkserver whose proxy is gone
      obtain ⟨-, hguard, -⟩ := h.starts (.inr h')
      change s.proxy = .gone at hgone
      simp [World.stRead, hgone, hguard] at hread
  · intro hu
    exact absurd hu (by simp [hstopped])
  · intro k hk
    rcases List.mem_append.mp hk with hk | hk
    · exact h.named.1 k hk
    · have hpid := List.mem_singleton.mp hk
      cases hc : s.fs with
      | pid =>
        simp only [hc, FsAt.written, Msg.pid.injEq] at hpid
        exact hpid.le
      | status last => cases last <;> simp [hc, FsAt.written] at hpid
      | _ => simp [hc, FsAt.written] at hpid
  · intro hu
    exact absurd hu (by simp [hstopped])
  · intro hdead
    exact absurd hdead hto.1
  · intro hl
    exact absurd hl (by simp [h.not_lost hfs])
  · intro hdead
    exact absurd hdead hto.1

/-- Before the first word the proxy has not left its first read. -/
theorem Wound.started (h : Wound s) (hproxy : s.proxy ≠ .greet ∧ s.proxy ≠ .gone) :
    ¬ (s.fs = .boot ∨ s.fs = .greet) := by
  intro hb
  rcases (h.starts hb).1 with h' | h'
  · exact hproxy.1 h'
  · exact hproxy.2 h'

/-- A child that has been continued, or runs, is not lost. -/
theorem Wound.not_lost_of_child (h : Wound s) (hu : s.child.unstopped = false)
    (hs : s.child ≠ .stopped) (hd : s.child ≠ .dead) (hh : s.child.isHalted = false) :
    s.lost = false := by
  by_contra hl
  obtain ⟨-, ⟨-, hc | hc | hc⟩ | ⟨-, hc | hc⟩⟩ := h.lost (by simpa using hl)
  · simp [hu] at hc
  · exact hs hc
  · exact hd hc
  · simp [hh] at hc
  · exact hd hc

/-- **Every step keeps the invariant.** -/
theorem Wound.step (h : Wound s) (hen : s.enabled l = true) : Wound (s.effect l) := by
  have htail : ∀ m ∈ s.st.tail, m ∈ s.st := fun m hm => List.mem_of_mem_tail hm
  cases l with
  | readHello =>
    obtain ⟨hp, hst⟩ : s.proxy = .greet ∧ s.st ≠ [] := by simpa [World.enabled] using hen
    refine h.proxyTo (q := .idle) (by simp [hp]) (by simp) htail (.inl rfl) ?_
    intro hb
    exact absurd (h.starts hb).2.2 hst
  | ask =>
    have hp : s.proxy = .idle := by simpa [World.enabled] using hen
    have hstarted := h.started (by simp [hp])
    unfold World.effect
    dsimp only
    split
    · have hmove := h.proxyTo (q := .asked) (by simp [hp]) (by simp) (fun _ hm => hm) (.inl rfl)
        (fun hb => absurd hb hstarted)
      exact ⟨hmove.starts, hmove.follows, hmove.termed, hmove.unnamed, hmove.named, hmove.watched,
        hmove.found, hmove.lost, hmove.deserted⟩
    · exact h.proxyTo (q := .waiting) (by simp [hp]) (by simp) (fun _ hm => hm) (.inl rfl)
        (fun hb => absurd hb hstarted)
  | readPid =>
    obtain ⟨hp, hst⟩ : s.proxy = .asked ∧ s.st ≠ [] := by simpa [World.enabled] using hen
    have hstarted := h.started (by simp [hp])
    -- the word names a child, or leaves the pid as it was
    obtain ⟨held, heq, hheld⟩ : ∃ held, s.hold s.st.head? = { s with held := held } ∧
        (held = s.held ∨ .pid held ∈ s.st) := by
      cases hhead : s.st.head? with
      | none => exact ⟨s.held, rfl, .inl rfl⟩
      | some m =>
        cases m with
        | pid k => exact ⟨k, rfl, .inr (List.mem_of_mem_head? hhead)⟩
        | _ => exact ⟨s.held, rfl, .inl rfl⟩
    unfold World.effect
    dsimp only
    rw [heq]
    exact h.proxyTo (q := .told) (by simp [hp]) (by simp) htail hheld (fun hb => absurd hb hstarted)
  | spawnGuard =>
    have hp : s.proxy = .told := (by simpa [World.enabled] using hen : _ ∧ _).1
    have hstarted := h.started (by simp [hp])
    exact ⟨fun hb => absurd hb hstarted, h.follows, h.termed, h.unnamed, h.named, h.watched,
      h.found, h.lost, h.deserted⟩
  | cont =>
    have hp : s.proxy = .told := by simpa [World.enabled] using hen
    have hcont := h.contHeld (by simp [hp])
    have hsame : s.contHeld.proxy = s.proxy ∧ s.contHeld.fs = s.fs := by
      unfold World.contHeld
      split <;> exact ⟨rfl, rfl⟩
    refine hcont.proxyTo (q := .waiting) (by simp [hsame, hp]) (by simp) (fun _ hm => hm)
      (.inl rfl) ?_
    rw [hsame.2]
    exact fun hb => absurd hb (h.started (by simp [hp]))
  | halt =>
    obtain ⟨hp, hc⟩ : s.proxy = .waiting ∧ s.child = .free := by
      simpa [World.enabled] using hen
    have hlost : s.lost = false :=
      h.not_lost_of_child (by simp [hc, ChildAt.unstopped]) (by simp [hc]) (by simp [hc])
        (by simp [hc, ChildAt.isHalted])
    refine ⟨h.starts, h.follows, h.termed, nofun, h.named, nofun, fun _ _ => ⟨rfl, nofun⟩, ?_, ?_⟩
    · intro hl
      exact absurd hl (by simp [World.effect, hlost])
    · intro _ hgone
      exact absurd hgone (by simp [World.effect, hp])
  | readStatus =>
    obtain ⟨hp, hst⟩ : s.proxy = .waiting ∧ s.st ≠ [] := by simpa [World.enabled] using hen
    have hstarted := h.started (by simp [hp])
    unfold World.effect
    dsimp only
    split
    · have hcont := h.contHeld (by simp [hp])
      have hsame : s.contHeld.proxy = s.proxy ∧ s.contHeld.fs = s.fs ∧ s.contHeld.st = s.st := by
        unfold World.contHeld
        split <;> exact ⟨rfl, rfl, rfl⟩
      have hmove := hcont.proxyTo (q := .waiting) (w := s.st.tail) (by simp [hsame, hp]) (by simp)
        (by rw [hsame.2.2]; exact htail) (.inl rfl)
        (by rw [hsame.2.1]; exact fun hb => absurd hb hstarted)
      have hproxy : s.contHeld.proxy = .waiting := hsame.1.trans hp
      rw [← hproxy] at hmove
      exact hmove
    · exact h.proxyTo (q := .idle) (by simp [hp]) (by simp) htail (.inl rfl)
        (fun hb => absurd hb hstarted)
  | readEof =>
    obtain ⟨hreads, -, hclosed⟩ : s.proxy.reads = true ∧ s.st = [] ∧ s.stWritten = false := by
      simpa [World.enabled, and_assoc] using hen
    have hgone : s.proxy ≠ .gone := by
      intro hgone
      simp [hgone, ProxyAt.reads] at hreads
    refine h.proxyTo hgone ?_ (fun _ hm => hm) (.inl rfl) ?_
    · split <;> simp
    · -- the forkserver is dead
      have hdead : s.fs = .dead := (by simpa [World.stWritten] using hclosed : _ ∧ _).1
      rintro (hb | hb) <;> simp [hdead] at hb
  | giveUp => exact h.endProxy
  | fsPrctl =>
    have hfs : s.fs = .boot := by simpa [World.enabled] using hen
    have hstopped := h.stopped_of (by simp [hfs]) (by simp [hfs])
    refine ⟨fun _ => h.starts (.inl hfs), fun _ => .inr (.inr (.inr rfl)), nofun, ?_, h.named, ?_,
      nofun, ?_, nofun⟩
    · exact fun hu => absurd hu (by simp [World.effect, hstopped])
    · exact fun hu => absurd hu (by simp [World.effect, hstopped])
    · exact fun hl => absurd hl (by simp [World.effect, h.not_lost (by simp [hfs])])
  | fsWrite =>
    have hw : s.fs.writes = true := hen
    unfold World.effect
    dsimp only
    split
    · next hread => exact h.write hw hread
    · refine h.endFs ?_
      intro hdead
      simp [hdead, FsAt.writes] at hw
  | fsToken =>
    have hfs : s.fs = .token := (by simpa [World.enabled] using hen : _ ∧ _).1
    exact h.fsTo (f := .fork) (by simp [hfs]) (by simp [hfs]) (by simp)
      (h.stopped_of (by simp [hfs]) (by simp [hfs]))
  | fsEof =>
    have hfs : s.fs = .token := (by simpa [World.enabled, and_assoc] using hen : _ ∧ _).1
    exact h.endFs (by simp [hfs])
  | fsForkFails =>
    have hfs : s.fs = .fork := by simpa [World.enabled] using hen
    exact h.endFs (by simp [hfs])
  | fsTerm => exact h.endFs (h.termed hen)
  | fsFork =>
    have hfs : s.fs = .fork := by simpa [World.enabled] using hen
    have hunnamed : (s.effect .fsFork).Unnamed :=
      ⟨fun k hk => Nat.lt_succ_of_le (h.named.1 k hk), Nat.lt_succ_of_le h.named.2⟩
    refine ⟨nofun, ?_, nofun, fun _ => hunnamed, ?_, fun _ => .inl rfl, nofun, ?_, nofun⟩
    · intro hgone
      rcases h.follows hgone with h' | h' | h' | h'
      · simp [hfs] at h'
      · exact .inr (.inl h')
      · simp [hfs] at h'
      · simp [hfs] at h'
    · exact ⟨fun k hk => (hunnamed.1 k hk).le, hunnamed.2.le⟩
    · exact fun hl => absurd hl (by simp [World.effect, h.not_lost (by simp [hfs])])
  | fsWait =>
    have hfs : s.fs = .watch ∨ s.fs = .relay := by
      have hserved : s.fs.served s.child = true := hen
      cases hc : s.fs <;> simp [hc, FsAt.served] at hserved ⊢
    have hne : s.fs ≠ .dead ∧ s.fs ≠ .boot ∧ s.fs ≠ .greet := by
      rcases hfs with hfs | hfs <;> simp [hfs]
    unfold World.effect
    dsimp only
    split
    · next hc => exact h.fsTo hne.1 hne.2 (by simp) (by simp [hc, ChildAt.unstopped])
    · exact h.fsTo hne.1 hne.2 (by simp) rfl
    · exact h.fsTo hne.1 hne.2 (by simp) rfl
    · exact h.fsTo hne.1 hne.2 (by simp) rfl
  | childPrctl =>
    have hc : s.child = .born := by simpa [World.enabled] using hen
    exact h.childTo rfl (.inl ⟨by simp [hc, ChildAt.unstopped], .inl rfl⟩)
  | childStop =>
    have hc : s.child = .armed := by simpa [World.enabled] using hen
    exact h.childTo rfl (.inl ⟨by simp [hc, ChildAt.unstopped], .inr rfl⟩)
  | childClose =>
    have hc : s.child = .resumed ∨ s.child = .closing := by simpa [World.enabled] using hen
    have hlost : s.lost = false := by
      rcases hc with hc | hc <;>
        exact h.not_lost_of_child (by simp [hc, ChildAt.unstopped]) (by simp [hc]) (by simp [hc])
          (by simp [hc, ChildAt.isHalted])
    refine h.childTo ?_ (.inr (.inr ⟨?_, ?_, hlost⟩)) <;> split <;> simp [ChildAt.isHalted,
      ChildAt.unstopped]
  | guardSweep =>
    have hg : s.guard = .sweeping := by simpa [World.enabled] using hen
    exact ⟨fun hb => absurd (h.starts hb).2.1 (by simp [hg]), h.follows, h.termed, h.unnamed,
      h.named, h.watched, h.found, h.lost, h.deserted⟩
  | guardEof =>
    have hg : s.guard = .watching := (by simpa [World.enabled] using hen : _ ∧ _).1
    exact ⟨fun hb => absurd (h.starts hb).2.1 (by simp [hg]), h.follows, h.termed, h.unnamed,
      h.named, h.watched, h.found, h.lost, h.deserted⟩
  | killProxy => exact h.endProxy
  | killFs => exact h.endFs (by simpa [World.enabled] using hen)
  | killChild => exact h.childTo rfl (.inr (.inl rfl))

theorem Wound.of_reachable (h : lifecycle.machine.Reachable s) : Wound s := by
  refine Guarded.invariant h ?_ fun _ _ hs hen => hs.step hen
  rintro _ rfl
  exact .initial

end CsProxy
end CsTrace
