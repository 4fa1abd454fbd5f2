import CoresightTrace.Utils.Status
import Mathlib.Data.Finset.Basic

/-!
# The CPU of the trace

Without a CPU given and without a preferred one, `init_trace()` asks
`find_free_cpu()`, which looks through the tasks of `/proc` for a CPU that none of
them is pinned to. The CPUs that it marks are those that the statuses of the tasks
mark (`mem_cpuUsed`), and it returns the lowest CPU that is not marked.

The caller writes `preferred_cpu = find_free_cpu() < 0`, so it is the outcome of the
comparison that becomes the CPU of the trace: 0 if a free CPU was found, whichever
that is, and 1 if none was. `free_cpu_traced_iff` says when this is the CPU that the
search was for.
-/

namespace CsTrace
namespace Utils

open CText

/-! ### The directories -/

/-- An entry of `/proc/PID/task`, with what its status file has if it can be opened. -/
structure Task (Status : Type) where
  name : List Char
  status : Option Status

/-- An entry of `/proc`, with the entries of its directory of tasks if it can be opened. -/
structure Process (Status : Type) where
  name : List Char
  tasks : Option (List (Task Status))

def Task.map {α β : Type} (f : α → β) (t : Task α) : Task β := ⟨t.name, t.status.map f⟩

def Process.map {α β : Type} (f : α → β) (p : Process α) : Process β :=
  ⟨p.name, p.tasks.map (·.map (Task.map f))⟩

/-! ### The search -/

/-- `isdigit(name[0])`. -/
def numeric (name : List Char) : Bool := name.head?.any (isDigit 10)

/-- An entry of a directory of tasks. -/
def markTask (cpuUsed : Finset ℕ) (t : Task (List Char)) : Finset ℕ :=
  if numeric t.name then
    -- a status that cannot be opened or marks nothing leaves the CPUs as they are
    match t.status.bind scanStatus with
    | none => cpuUsed
    | some hval => insert hval cpuUsed
  else cpuUsed

/-- An entry of `/proc`. -/
def markProcess (cpuUsed : Finset ℕ) (p : Process (List Char)) : Finset ℕ :=
  if numeric p.name then
    match p.tasks with
    | none => cpuUsed
    | some tasks => tasks.foldl markTask cpuUsed
  else cpuUsed

/-- `cpu_used[i]`; behind the array is whatever the memory has there. -/
def usedAt (cpuUsed : Finset ℕ) (beyond : ℕ → Bool) (i : ℕ) : Bool :=
  if i < maxCpus then decide (i ∈ cpuUsed) else beyond i

/-- `find_free_cpu`, for the entries of `/proc` or nothing if it cannot be opened. -/
def findFreeCpu (nprocs : ℕ) (beyond : ℕ → Bool) (proc : Option (List (Process (List Char)))) :
    ℤ :=
  if nprocs < 2 then 0
  else match proc with
    | none => -1
    | some processes =>
      let cpuUsed := processes.foldl markProcess ∅
      -- the first CPU that is not marked
      match (List.range nprocs).find? fun i => !usedAt cpuUsed beyond i with
      | none => -1
      | some i => i

/-- `DEFAULT_TRACE_CPU`. -/
def defaultTraceCpu : ℤ := 0

/-- The CPU that `init_trace` chooses, for what `trace_cpu` was and what
`get_preferred_cpu` and `find_free_cpu` return. -/
def initTraceCpu (traceCpu getPreferredCpu findFreeCpu : ℤ) : ℤ :=
  if traceCpu < 0 then
    let preferredCpu :=
      -- `preferred_cpu = find_free_cpu() < 0`: the comparison binds tighter
      if getPreferredCpu < 0 then (if findFreeCpu < 0 then 1 else 0) else getPreferredCpu
    if 0 ≤ preferredCpu then preferredCpu else defaultTraceCpu
  else traceCpu

/-! ### The processes -/

/-- The task is pinned to the CPU: its status has a `VmSize` line and a list of allowed
CPUs that is this single number. -/
def PinnedTo (lines : List StatusLine) (c : ℕ) : Prop :=
  (∃ line ∈ lines, line.isVmSize = true) ∧ ∃ line ∈ lines, line.single? = some c

/-- A task of some process has a status with the property. -/
def SomeTask (processes : List (Process (List StatusLine))) (P : List StatusLine → Prop) : Prop :=
  ∃ p ∈ processes, numeric p.name = true ∧ ∃ tasks, p.tasks = some tasks ∧
    ∃ t ∈ tasks, numeric t.name = true ∧ ∃ lines, t.status = some lines ∧ P lines

/-- A task is exclusively pinned to the CPU. -/
def Pinned (processes : List (Process (List StatusLine))) (c : ℕ) : Prop :=
  SomeTask processes fun lines => PinnedTo lines c

/-- A task is pinned to the CPU by the first line that can mark one. -/
def PinnedInOrder (processes : List (Process (List StatusLine))) (c : ℕ) : Prop :=
  SomeTask processes fun lines => MarksFirst false lines c

theorem pinned_of_inOrder {processes : List (Process (List StatusLine))} {c : ℕ}
    (h : PinnedInOrder processes c) : Pinned processes c := by
  obtain ⟨p, hp, hpn, tasks, htasks, t, ht, htn, lines, hlines, k, ⟨hsingle, -, hvm⟩, -⟩ := h
  refine ⟨p, hp, hpn, tasks, htasks, t, ht, htn, lines, hlines, ?_, ?_⟩
  · obtain ⟨line, hline, hline'⟩ := List.any_eq_true.mp (by simpa using hvm)
    exact ⟨line, List.mem_of_mem_take hline, hline'⟩
  · obtain ⟨line, hline, hline'⟩ := Option.bind_eq_some_iff.mp hsingle
    exact ⟨line, List.mem_of_getElem? hline, hline'⟩

/-- A loop that adds to a set adds what its steps add. -/
theorem mem_foldl_iff {α : Type} {f : Finset ℕ → α → Finset ℕ} {P : α → Prop} {c : ℕ}
    (h : ∀ set a, c ∈ f set a ↔ c ∈ set ∨ P a) (as : List α) (set : Finset ℕ) :
    c ∈ as.foldl f set ↔ c ∈ set ∨ ∃ a ∈ as, P a := by
  induction as generalizing set with
  | nil => simp
  | cons a as ih =>
    rw [List.foldl_cons, ih, h]
    simp [or_assoc]

theorem mem_markTask (cpuUsed : Finset ℕ) (t : Task (List StatusLine)) (c : ℕ) :
    c ∈ markTask cpuUsed (t.map statusText) ↔ c ∈ cpuUsed ∨
      (numeric t.name = true ∧ ∃ lines, t.status = some lines ∧ MarksFirst false lines c) := by
  have hscan : ∀ lines, scanStatus (statusText lines) = marked lines false :=
    fun lines => statusLoop_text lines false
  unfold markTask Task.map
  by_cases hn : numeric t.name = true
  · cases hs : t.status with
    | none => simp
    | some lines =>
      simp only [hn, if_true, Option.map_some, Option.bind_some, hscan, true_and,
        Option.some.injEq, exists_eq_left', ← marked_eq_some]
      cases marked lines false with
      | none => simp
      | some hval => simp [or_comm, eq_comm]
  · simp [hn]

theorem mem_markProcess (cpuUsed : Finset ℕ) (p : Process (List StatusLine)) (c : ℕ) :
    c ∈ markProcess cpuUsed (p.map statusText) ↔ c ∈ cpuUsed ∨
      (numeric p.name = true ∧ ∃ tasks, p.tasks = some tasks ∧ ∃ t ∈ tasks,
        numeric t.name = true ∧ ∃ lines, t.status = some lines ∧ MarksFirst false lines c) := by
  unfold markProcess Process.map
  by_cases hn : numeric p.name = true
  · cases ht : p.tasks with
    | none => simp
    | some tasks =>
      simp only [hn, if_true, Option.map_some, List.foldl_map, true_and, Option.some.injEq,
        exists_eq_left']
      exact mem_foldl_iff (fun set t => mem_markTask set t c) tasks cpuUsed
  · simp [hn]

/-- **The marks.** The CPUs marked are those that a task is pinned to, as far as the order
of the lines shows it. -/
theorem mem_cpuUsed (processes : List (Process (List StatusLine))) (c : ℕ) :
    c ∈ (processes.map (Process.map statusText)).foldl markProcess ∅ ↔
      PinnedInOrder processes c := by
  rw [List.foldl_map, mem_foldl_iff (fun set p => mem_markProcess set p c) processes ∅]
  simp [PinnedInOrder, SomeTask]

/-! ### The choice -/

section Choice

variable (processes : List (Process (List StatusLine))) {nprocs : ℕ}

/-- `find_free_cpu` fails exactly if every CPU is marked. -/
theorem findFreeCpu_neg (h2 : 2 ≤ nprocs) (hmax : nprocs ≤ maxCpus) (beyond : ℕ → Bool) :
    findFreeCpu nprocs beyond (some (processes.map (Process.map statusText))) < 0 ↔
      ∀ c < nprocs, PinnedInOrder processes c := by
  -- within the array, a CPU is not marked exactly if no task shows it
  have hused : ∀ c < nprocs, (!usedAt ((processes.map (Process.map statusText)).foldl
      markProcess ∅) beyond c) = true ↔ ¬ PinnedInOrder processes c := by
    intro c hc
    unfold usedAt
    rw [if_pos (lt_of_lt_of_le hc hmax), ← mem_cpuUsed]
    simp
  unfold findFreeCpu
  rw [if_neg (by omega)]
  dsimp only
  split
  · rename_i hnone
    rw [List.find?_range_eq_none] at hnone
    refine ⟨fun _ c hc => ?_, fun _ => by decide⟩
    by_contra hno
    have := (hused c hc).mpr hno
    simpa [this] using hnone c hc
  · rename_i i hsome
    obtain ⟨hp, hi, -⟩ := List.find?_range_eq_some.mp hsome
    rw [List.mem_range] at hi
    constructor
    · intro hneg
      omega
    · intro hall
      exact absurd (hall i hi) ((hused i hi).mp hp)

/-- `trace_cpu` is the lowest CPU that no task is pinned to, and the default one if there
is none. -/
def LowestFree (nprocs : ℕ) (traceCpu : ℤ) : Prop :=
  (∀ c < nprocs, ¬ Pinned processes c → (∀ d < c, Pinned processes d) → traceCpu = c) ∧
    ((∀ c < nprocs, Pinned processes c) → traceCpu = defaultTraceCpu)

/-- The CPU chosen is a truth value. -/
theorem initTraceCpu_eq {traceCpu preferred : ℤ} (ht : traceCpu < 0) (hp : preferred < 0)
    (free : ℤ) : initTraceCpu traceCpu preferred free = if free < 0 then 1 else 0 := by
  unfold initTraceCpu
  rw [if_pos ht, if_pos hp]
  by_cases hf : free < 0
  · simp [hf]
  · simp [hf]

/-- CPU 0 is the lowest free CPU, or the default one in place of it. -/
theorem lowestFree_zero (hpos : 0 < nprocs) : LowestFree processes nprocs 0 ↔
    ¬ Pinned processes 0 ∨ ∀ c < nprocs, Pinned processes c := by
  constructor
  · intro h
    by_contra hno
    rw [not_or, not_not, not_forall] at hno
    obtain ⟨h0, hsome⟩ := hno
    -- the lowest free CPU would have to be the pinned one
    classical
    have hex : ∃ c, c < nprocs ∧ ¬ Pinned processes c := by simpa using hsome
    obtain ⟨hlt, hfree⟩ := Nat.find_spec hex
    have hbelow : ∀ d < Nat.find hex, Pinned processes d := by
      intro d hd
      by_contra hd'
      exact Nat.find_min hex hd ⟨hd.trans hlt, hd'⟩
    have hzero : (0 : ℤ) = Nat.find hex := h.1 _ hlt hfree hbelow
    have hzero' : Nat.find hex = 0 := by omega
    rw [hzero'] at hfree
    exact hfree h0
  · rintro (h0 | hall)
    · refine ⟨fun c _ _ hbelow => ?_, fun hall => absurd (hall 0 hpos) h0⟩
      by_contra hne
      exact h0 (hbelow 0 (by omega))
    · exact ⟨fun c hc hfree _ => absurd (hall c hc) hfree, fun _ => rfl⟩

/-- **The CPU of the trace.** With neither a CPU given nor a preferred one, it is the
lowest CPU that no task is pinned to exactly if that is CPU 0, or if there is none and
the search takes one for free nevertheless, because of the order of the lines in the
status of a task. -/
theorem free_cpu_traced_iff (h2 : 2 ≤ nprocs) (hmax : nprocs ≤ maxCpus) (beyond : ℕ → Bool)
    {traceCpu preferred : ℤ} (ht : traceCpu < 0) (hp : preferred < 0) :
    LowestFree processes nprocs (initTraceCpu traceCpu preferred
        (findFreeCpu nprocs beyond (some (processes.map (Process.map statusText))))) ↔
      ¬ Pinned processes 0 ∨
        (∀ c < nprocs, Pinned processes c) ∧ ∃ c < nprocs, ¬ PinnedInOrder processes c := by
  have hneg := findFreeCpu_neg processes h2 hmax beyond
  have hpos : 0 < nprocs := by omega
  rw [initTraceCpu_eq ht hp]
  by_cases hall : ∀ c < nprocs, PinnedInOrder processes c
  · -- no CPU is found, and CPU 1 is taken in place of the default one
    have hpinned : ∀ c < nprocs, Pinned processes c :=
      fun c hc => pinned_of_inOrder (hall c hc)
    rw [if_pos (hneg.mpr hall)]
    constructor
    · intro h
      exact absurd (h.2 hpinned) (by decide)
    · rintro (h0 | ⟨-, c, hc, hno⟩)
      · exact absurd (hpinned 0 hpos) h0
      · exact absurd (hall c hc) hno
  · -- some CPU is found, and CPU 0 is taken in place of it
    have hfound : ∃ c < nprocs, ¬ PinnedInOrder processes c := by simpa using hall
    rw [if_neg (mt hneg.mp hall), lowestFree_zero processes hpos]
    exact or_congr_right (iff_self_and.mpr fun _ => hfound)

end Choice

/-- A line that fits into the buffer is not cut. -/
theorem continues_of_length {s : List Char} (h : s.length < maxLine - 1) : Continues s := by
  intro k
  have hlen : s.length ≤ (maxLine - 1) * (k + 1) :=
    h.le.trans (Nat.le_mul_of_pos_right _ (Nat.succ_pos k))
  rw [List.drop_eq_nil_of_le hlen]
  exact ⟨by decide, by decide⟩

/-- A process with one task, which has memory and may run on one CPU. -/
def pinnedProcess (c : CpuNumber) (hc : c.value < 2 ^ 32) : Process (List StatusLine) where
  name := ['7']
  tasks := some [⟨['7'], some [.vmSize ['1', ' ', 'k', 'B'] (by decide) (by decide)
      (continues_of_length (by decide)),
    .cpusAllowedList ⟨[.single c], by simpa [CpuItem.last] using hc⟩]⟩]

theorem pinned_pinnedProcess {c : CpuNumber} (hc : c.value < 2 ^ 32) {d : ℕ} :
    Pinned [pinnedProcess c hc] d ↔ d = c.value := by
  constructor
  · rintro ⟨p, hp, -, tasks, htasks, t, ht, -, lines, hlines, -, line, hline, hs⟩
    obtain rfl := List.mem_singleton.mp hp
    obtain rfl := Option.some.inj htasks
    obtain rfl := List.mem_singleton.mp ht
    obtain rfl := Option.some.inj hlines
    rcases List.mem_cons.mp hline with rfl | hline
    · exact absurd hs (by simp [StatusLine.single?])
    · obtain rfl := List.mem_singleton.mp hline
      exact (Option.some.inj hs).symm
  · rintro rfl
    exact ⟨_, List.mem_singleton_self _, rfl, _, rfl, _, List.mem_singleton_self _, rfl, _, rfl,
      ⟨_, List.mem_cons_self, rfl⟩, _, List.mem_cons_of_mem _ List.mem_cons_self, rfl⟩

/-- With a task pinned to CPU 1 the trace gets CPU 0, as it should. -/
theorem free_cpu_traced_iff_zero :
    LowestFree [pinnedProcess cpuOne (by decide)] 2 (initTraceCpu (-1) (-1) (findFreeCpu 2
      (fun _ => false) (some ([pinnedProcess cpuOne (by decide)].map (Process.map statusText))))) :=
  (free_cpu_traced_iff _ (by decide) (by decide) _ (by decide) (by decide)).mpr
    (Or.inl fun h => absurd ((pinned_pinnedProcess _).mp h) (by decide))

/-- With a task pinned to CPU 0 the search finds CPU 1, and the trace gets CPU 0. -/
theorem pinned_cpu_traced :
    let processes := [pinnedProcess cpuZero (by decide)]
    let free := findFreeCpu 2 (fun _ => false) (some (processes.map (Process.map statusText)))
    Pinned processes 0 ∧ free = 1 ∧ initTraceCpu (-1) (-1) free = 0 ∧
      ¬ LowestFree processes 2 (initTraceCpu (-1) (-1) free) := by
  intro processes free
  have h0 : Pinned processes 0 := (pinned_pinnedProcess _).mpr rfl
  have h1 : ¬ Pinned processes 1 := fun h => absurd ((pinned_pinnedProcess _).mp h) (by decide)
  have hfree : free = 1 := by decide
  have hcpu : initTraceCpu (-1) (-1) free = 0 := by rw [hfree]; decide
  refine ⟨h0, hfree, hcpu, fun h => ?_⟩
  have hone := h.1 1 (by decide) h1 fun d hd => by
    obtain rfl : d = 0 := by omega
    exact h0
  rw [hcpu] at hone
  exact absurd hone (by decide)

end Utils
end CsTrace
