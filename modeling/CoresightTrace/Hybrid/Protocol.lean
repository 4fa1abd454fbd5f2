import CoresightTrace.Framework.Transition
import CoresightTrace.Hybrid.State

/-!
# Runs of the hybrid filter

How the proxy drives `hybrid.c`: any number of path passes, each `CONFIRM`
verdict answered by one edge pass before the next path pass, and sampled
discards anywhere in between. `hybridMachine` is that protocol as a transition
system whose labels are the calls. Nothing is assumed of the arguments: maps,
overflow flags and input keys are arbitrary, and so is what `purge_check()`
decides at each call. `sourceMachine A` is the same protocol with the decision
the source computes.

Beside the filter's own state a `Front` carries two things the code does not
have: the path pass whose confirm is still owed, and the history of the run,
newest event first. Nothing in a step reads the history. It is what the
history-level statements are about, and a purge is an event of its own there,
at the point of the call where `purge_check()` runs.
-/

namespace CsTrace
namespace Hybrid

/-- The arguments of one `hybrid_after_path()` call. -/
structure PathCall (n : ℕ) where
  map : CovMap n
  overflowed : Bool
  inputKey : BitVec 64

/-- What a run records. -/
inductive Event (n : ℕ)
  /-- `purge_check()` reset `virgin_atom`. -/
  | purge
  /-- A path pass, its verdict and the map left in the shared buffer. -/
  | path (c : PathCall n) (verdict : HybridVerdict) (shown : CovMap n)
  /-- The edge pass of the path pass `c`. -/
  | confirm (c : PathCall n) (edge : CovMap n) (overflowed : Bool)
  /-- The edge pass of a sampled discard. -/
  | sample (edge : CovMap n) (overflowed : Bool)

/-- The filter in the middle of a run. -/
structure Front (n : ℕ) where
  st : State n
  /-- The path pass whose confirm is owed. -/
  awaiting : Option (PathCall n)
  /-- The run so far, newest first. -/
  hist : List (Event n)

/-- A call of one of the three entry points. -/
inductive Call (n : ℕ)
  | path (π : PurgePolicy n) (c : PathCall n)
  | confirm (π : PurgePolicy n) (edge : CovMap n) (overflowed : Bool)
  | sample (edge : CovMap n) (overflowed : Bool)

variable {n : ℕ}

/-- The history with the purge of the current call, if it purges. -/
def notePurge (purged : Bool) (h : List (Event n)) : List (Event n) :=
  if purged then .purge :: h else h

/-- What a path pass made of `f` leaves. -/
def Front.pathResult (f : Front n) (π : PurgePolicy n) (c : PathCall n) : PathResult n :=
  hybridAfterPath π c.map c.overflowed c.inputKey f.st

/-- The history a path pass made of `f` is decided in: the run so far, and the
call's own purge. -/
def Front.histAtTest (f : Front n) (π : PurgePolicy n) : List (Event n) :=
  notePurge (pathPurges π f.st) f.hist

/-- The front after a path pass. -/
def Front.afterPath (f : Front n) (π : PurgePolicy n) (c : PathCall n) : Front n where
  st := (f.pathResult π c).st
  awaiting := if (f.pathResult π c).verdict = .confirm then some c else none
  hist := .path c (f.pathResult π c).verdict (f.pathResult π c).map :: f.histAtTest π

/-- The front after the edge pass of the path pass `c`. -/
def Front.afterConfirm (f : Front n) (π : PurgePolicy n) (c : PathCall n) (edge : CovMap n)
    (overflowed : Bool) : Front n where
  st := hybridAfterConfirm π edge overflowed f.st
  awaiting := none
  hist := .confirm c edge overflowed :: notePurge (purges π f.st) f.hist

/-- The front after a sampled discard. -/
def Front.afterSample (f : Front n) (edge : CovMap n) (overflowed : Bool) : Front n where
  st := hybridAfterSample edge overflowed f.st
  awaiting := f.awaiting
  hist := .sample edge overflowed :: f.hist

/-- The calls the protocol allows. -/
inductive HybridStep : Front n → Call n → Front n → Prop
  | path (f : Front n) (π : PurgePolicy n) (c : PathCall n) (h : f.awaiting = none) :
      HybridStep f (.path π c) (f.afterPath π c)
  | confirm (f : Front n) (π : PurgePolicy n) (c : PathCall n) (edge : CovMap n)
      (overflowed : Bool) (h : f.awaiting = some c) :
      HybridStep f (.confirm π edge overflowed) (f.afterConfirm π c edge overflowed)
  | sample (f : Front n) (edge : CovMap n) (overflowed : Bool) :
      HybridStep f (.sample edge overflowed) (f.afterSample edge overflowed)

/-- The filter just after `hybrid_init()`, whatever its scratch maps hold. -/
def Front.initial (pathCls pathKept edgeCls : CovMap n) : Front n where
  st := hybridInit pathCls pathKept edgeCls
  awaiting := none
  hist := []

/-- The hybrid filter under any calls the protocol allows and any purge
decisions. -/
def hybridMachine (n : ℕ) : Machine (Front n) (Call n) where
  init f := ∃ pathCls pathKept edgeCls, f = Front.initial pathCls pathKept edgeCls
  step := HybridStep

/-- The call's purge decision is the one the source computes. -/
def Call.BySource (A : PurgeArith) : Call n → Prop
  | .path π _ => π = sourcePolicy A
  | .confirm π _ _ => π = sourcePolicy A
  | .sample _ _ => True

/-- The hybrid filter with the source's purge decisions. -/
def sourceMachine (A : PurgeArith) (n : ℕ) : Machine (Front n) (Call n) :=
  (hybridMachine n).restrict fun _ l => l.BySource A

/-- A `CONFIRM` verdict leaves its edge pass owed. -/
theorem Front.awaiting_of_confirm {f : Front n} {π : PurgePolicy n} {c : PathCall n}
    (h : (f.pathResult π c).verdict = .confirm) : (f.afterPath π c).awaiting = some c :=
  if_pos h

/-- A `DISCARD` verdict leaves nothing owed. -/
theorem Front.awaiting_of_discard {f : Front n} {π : PurgePolicy n} {c : PathCall n}
    (h : (f.pathResult π c).verdict = .discard) : (f.afterPath π c).awaiting = none := by
  simp [Front.afterPath, h]

/-! ### The kept path -/

/-- While a confirm is owed, the filter holds the path pass it is owed for. -/
def Front.Kept (f : Front n) : Prop :=
  ∀ c, f.awaiting = some c →
    f.st.pathKept = classify c.map ∧ f.st.pathKeptCksum = checksum c.map ∧
      f.st.pathKeptOverflow = c.overflowed ∧ f.st.pathKeptInput = c.inputKey

theorem Front.kept_afterPath (f : Front n) (π : PurgePolicy n) (c : PathCall n) :
    (f.afterPath π c).Kept := by
  intro c' hc'
  cases hv : (f.pathResult π c).verdict with
  | confirm =>
    rw [Front.awaiting_of_confirm hv] at hc'
    obtain rfl := Option.some.inj hc'
    obtain ⟨-, -, h⟩ := hybridAfterPath_of_confirm π c.map c.overflowed c.inputKey f.st hv
    exact h
  | discard =>
    rw [Front.awaiting_of_discard hv] at hc'
    exact absurd hc' (by simp)

end Hybrid
end CsTrace
