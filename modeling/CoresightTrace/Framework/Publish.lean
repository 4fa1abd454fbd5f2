import CoresightTrace.Framework.Transition

/-!
# Replacing a file by renaming

A program keeps a file up to date by writing a new file and renaming it over the old
one, so that whoever reads the file finds a whole text, also when the program is killed
halfway. The program is a machine; after some of its steps a text about its state is
due, and is written before the next step.

* `Publisher` — the machine, when a text is due and which, and the two names;
* `Publisher.Step` — its steps with those of the writer: the new file is opened and so
  emptied, the text is written in pieces of any length, the file is closed, whether all
  of the text was written or not, and renamed. The opening and the renaming may fail,
  and the program may be killed between any two of these;
* `Publisher.whole` — if nothing is closed before all of it was written, and the two
  names differ, then the file is what it was, or the text about the state that was
  published last;
* `Publisher.torn` — if the names are the same, a text is written in front of whoever
  reads the file.
-/

/-- The files that exist, with what they hold. -/
abbrev Disk (Path Piece : Type*) := Path → Option (List Piece)

/-- What the writer is doing: nothing; a text on a state is due; it is being written,
with a rest to go; its file is closed. Or the program is gone. -/
inductive WriterAt (State Piece : Type*)
  | idle
  | due (s : State)
  | writing (s : State) (rest : List Piece)
  | closed (s : State)
  | gone

/-- A program that publishes texts about its states. -/
structure Publisher (State Label Path Piece : Type*) where
  machine : Machine State Label
  /-- Whether a text is due after a step to this state. -/
  due : State → Bool
  text : State → List Piece
  /-- The name of the file, and that of the new one. -/
  path : Path
  fresh : Path

/-- The program, the disk and the writer. -/
structure Publishing (State Path Piece : Type*) where
  source : State
  disk : Disk Path Piece
  writer : WriterAt State Piece
  /-- History: the state whose text was renamed last. -/
  shown : Option State

/-- A step: one of the program, or one of the writer. -/
inductive PublishLabel (Label : Type*)
  | source (l : Label)
  | opens
  | openFails
  | write (k : ℕ)
  | close
  | renames
  | renameFails
  | kill

namespace Publisher

variable {State Label Path Piece : Type*} [DecidableEq Path]

/-- `rename`, of a file that exists. -/
def rename (d : Disk Path Piece) (old new : Path) : Disk Path Piece :=
  if old = new then d else Function.update (Function.update d new (d old)) old none

/-- The steps. -/
inductive Step (p : Publisher State Label Path Piece) :
    Publishing State Path Piece → PublishLabel Label → Publishing State Path Piece → Prop
  | source {t : Publishing State Path Piece} {l : Label} {s : State} (hidle : t.writer = .idle)
      (hstep : p.machine.step t.source l s) :
      Step p t (.source l) { t with source := s, writer := if p.due s then .due s else .idle }
  | opens {t : Publishing State Path Piece} {s : State} (hdue : t.writer = .due s) :
      Step p t .opens { t with
        disk := Function.update t.disk p.fresh (some [])
        writer := .writing s (p.text s) }
  | openFails {t : Publishing State Path Piece} {s : State} (hdue : t.writer = .due s) :
      Step p t .openFails { t with writer := .idle }
  | write {t : Publishing State Path Piece} {s : State} {rest : List Piece} (k : ℕ)
      (hwriting : t.writer = .writing s rest) :
      Step p t (.write k) { t with
        disk := Function.update t.disk p.fresh
          (some ((t.disk p.fresh).getD [] ++ rest.take k))
        writer := .writing s (rest.drop k) }
  | close {t : Publishing State Path Piece} {s : State} {rest : List Piece}
      (hwriting : t.writer = .writing s rest) :
      Step p t .close { t with writer := .closed s }
  | renames {t : Publishing State Path Piece} {s : State} (hclosed : t.writer = .closed s) :
      Step p t .renames { t with
        disk := rename t.disk p.fresh p.path
        writer := .idle
        shown := some s }
  | renameFails {t : Publishing State Path Piece} {s : State} (hclosed : t.writer = .closed s) :
      Step p t .renameFails { t with writer := .idle }
  | kill {t : Publishing State Path Piece} : Step p t .kill { t with writer := .gone }

/-- The program started over a disk. -/
def system (p : Publisher State Label Path Piece) (disk : Disk Path Piece) :
    Machine (Publishing State Path Piece) (PublishLabel Label) where
  init t := p.machine.init t.source ∧ t.disk = disk ∧ t.writer = .idle ∧ t.shown = none
  step := p.Step

/-- No file is closed before all of its text was written. -/
def Full (t : Publishing State Path Piece) (l : PublishLabel Label) : Prop :=
  ∀ s rest, l = .close → t.writer = .writing s rest → rest = []

section Whole

variable {p : Publisher State Label Path Piece} {disk : Disk Path Piece}

/-- What the writer has done so far. -/
def Progress (p : Publisher State Label Path Piece) (d : Disk Path Piece) :
    WriterAt State Piece → Prop
  | .idle | .gone => True
  | .due s => p.machine.Reachable s ∧ p.due s = true
  | .writing s rest => (p.machine.Reachable s ∧ p.due s = true) ∧
      ∃ done, d p.fresh = some done ∧ done ++ rest = p.text s
  | .closed s => (p.machine.Reachable s ∧ p.due s = true) ∧ d p.fresh = some (p.text s)

/-- The invariant: the file is what was published last, and the new file holds what the
writer has written of it. -/
structure Kept (p : Publisher State Label Path Piece) (disk : Disk Path Piece)
    (t : Publishing State Path Piece) : Prop where
  reachable : p.machine.Reachable t.source
  progress : p.Progress t.disk t.writer
  published : ∀ s, t.shown = some s → p.machine.Reachable s ∧ p.due s = true
  file : t.disk p.path = t.shown.elim (disk p.path) fun s => some (p.text s)

theorem Kept.step {t t' : Publishing State Path Piece} {l : PublishLabel Label}
    (h : p.Kept disk t) (hne : p.fresh ≠ p.path) (hstep : p.Step t l t') (hfull : Full t l) :
    p.Kept disk t' := by
  have hfile (v : Option (List Piece)) : Function.update t.disk p.fresh v p.path = t.disk p.path :=
    Function.update_of_ne (Ne.symm hne) _ _
  have hprogress := h.progress
  cases hstep with
  | source hidle hs =>
    have hreach := h.reachable.step hs
    refine ⟨hreach, ?_, h.published, h.file⟩
    dsimp only
    split
    · next hdue => exact ⟨hreach, hdue⟩
    · trivial
  | opens hdue =>
    rw [hdue] at hprogress
    refine ⟨h.reachable, ⟨hprogress, [], Function.update_self _ _ _, rfl⟩, h.published, ?_⟩
    exact (hfile _).trans h.file
  | openFails hdue => exact ⟨h.reachable, trivial, h.published, h.file⟩
  | write k hwriting =>
    rw [hwriting] at hprogress
    obtain ⟨hs, done, hdone, htext⟩ := hprogress
    refine ⟨h.reachable, ⟨hs, _, Function.update_self _ _ _, ?_⟩, h.published,
      (hfile _).trans h.file⟩
    rw [hdone, Option.getD_some, List.append_assoc, List.take_append_drop]
    exact htext
  | close hwriting =>
    obtain rfl := hfull _ _ rfl hwriting
    rw [hwriting] at hprogress
    obtain ⟨hs, done, hdone, htext⟩ := hprogress
    rw [List.append_nil] at htext
    exact ⟨h.reachable, ⟨hs, htext ▸ hdone⟩, h.published, h.file⟩
  | renames hclosed =>
    rw [hclosed] at hprogress
    obtain ⟨hs, hdone⟩ := hprogress
    refine ⟨h.reachable, trivial, ?_, ?_⟩
    · intro s' hs'
      obtain rfl := Option.some.inj hs'
      exact hs
    · unfold rename
      rw [if_neg hne]
      change Function.update (Function.update t.disk p.path (t.disk p.fresh)) p.fresh none
        p.path = _
      rw [Function.update_of_ne (Ne.symm hne), Function.update_self]
      exact hdone
  | renameFails hclosed => exact ⟨h.reachable, trivial, h.published, h.file⟩
  | kill => exact ⟨h.reachable, trivial, h.published, h.file⟩

/-- **The file is whole.** As long as no file is closed too early, the file is what it
was before, or the text about the state published last. -/
theorem whole (hne : p.fresh ≠ p.path) {t : Publishing State Path Piece}
    (h : ((p.system disk).restrict Full).Reachable t) :
    t.disk p.path = disk p.path ∨
      ∃ s, p.machine.Reachable s ∧ p.due s = true ∧ t.disk p.path = some (p.text s) := by
  have hkept : p.Kept disk t := by
    refine h.invariant ?_ ?_
    · rintro s ⟨hinit, rfl, hidle, hnone⟩
      refine ⟨.of_init hinit, ?_, ?_, ?_⟩
      · rw [hidle]
        trivial
      · rw [hnone]
        intro s' hs'
        cases hs'
      · rw [hnone]
        rfl
    · rintro s l s' hs ⟨hstep, hfull⟩
      exact hs.step hne hstep hfull
  have hfile := hkept.file
  cases hshown : t.shown with
  | none =>
    rw [hshown] at hfile
    exact .inl hfile
  | some s =>
    rw [hshown] at hfile
    obtain ⟨hs, hdue⟩ := hkept.published s hshown
    exact .inr ⟨s, hs, hdue, hfile⟩

/-- A run of the program is one of the system in which no file could be opened. -/
theorem run_of_source {s₀ s : State} {ls : List Label} (h : p.machine.Run s₀ ls s)
    (disk : Disk Path Piece) :
    ∃ ls', ((p.system disk).restrict Full).Run ⟨s₀, disk, .idle, none⟩ ls'
      ⟨s, disk, .idle, none⟩ := by
  induction h with
  | nil => exact ⟨[], .nil⟩
  | @snoc ls s s' l _ hstep ih =>
    obtain ⟨ls', hrun⟩ := ih
    have hsource := Step.source (p := p) (t := ⟨s, disk, .idle, none⟩) rfl hstep
    have hnext := hrun.snoc ⟨hsource, fun _ _ hclose => absurd hclose (by simp)⟩
    cases hdue : p.due s' with
    | false =>
      rw [hdue] at hnext
      exact ⟨_, hnext⟩
    | true =>
      rw [hdue] at hnext
      have hfails := Step.openFails (p := p) (t := ⟨s', disk, .due s', none⟩) rfl
      exact ⟨_, hnext.snoc ⟨hfails, fun _ _ hclose => absurd hclose (by simp)⟩⟩

/-- **The file is torn.** If the names are the same, every beginning of a text that is
due can be read in the file. -/
theorem torn (heq : p.fresh = p.path) {s₀ s s' : State} {ls : List Label} {l : Label}
    (hinit : p.machine.init s₀) (hrun : p.machine.Run s₀ ls s) (hstep : p.machine.step s l s')
    (hdue : p.due s' = true) (disk : Disk Path Piece) (k : ℕ) :
    ∃ t, ((p.system disk).restrict Full).Reachable t ∧
      t.disk p.path = some ((p.text s').take k) := by
  obtain ⟨ls', hidle⟩ := run_of_source hrun disk
  have hsource := Step.source (p := p) (t := ⟨s, disk, .idle, none⟩) rfl hstep
  rw [hdue] at hsource
  have hopens := Step.opens (p := p) (t := ⟨s', disk, .due s', none⟩) rfl
  have hwrite := Step.write (p := p)
    (t := ⟨s', Function.update disk p.fresh (some []), .writing s' (p.text s'), none⟩) k rfl
  have hreach := ((hidle.snoc ⟨hsource, fun _ _ hclose => absurd hclose (by simp)⟩).snoc
    ⟨hopens, fun _ _ hclose => absurd hclose (by simp)⟩).snoc
    ⟨hwrite, fun _ _ hclose => absurd hclose (by simp)⟩
  refine ⟨_, ⟨_, _, ⟨hinit, rfl, rfl, rfl⟩, hreach⟩, ?_⟩
  dsimp only
  rw [heq, Function.update_self, Function.update_self]
  rfl

end Whole

end Publisher
