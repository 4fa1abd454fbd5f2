import CoresightTrace.Utils.CpuList
import Mathlib.Data.Finset.Union

/-!
# The preferred CPU

`get_preferred_cpu()` collects, over the CPUs that the traced process may run on,
the CPUs that share a core with one of them, and takes the lowest CPU that is left.
`set_core_cpus()` reads the siblings of a CPU from its `core_cpus_list`, cut at the
commas. It hands each piece to `strtol`, which stops at the `-` of a range, so of
an item only the first number is added (`setCoreCpus_text`).

`siblings_avoided_iff` says when this makes no difference: a list is read as the
kernel means it exactly if every CPU of its ranges is the first of some item or was
in the set before, and the CPU chosen is a sibling exactly if it is the lowest one
that no list has as a first number. On a machine whose cores have two threads each,
numbered one after the other, CPU 1 is taken for a process on CPU 0
(`sibling_preferred`).
-/

namespace CsTrace
namespace Utils

open CText

/-! ### CPU sets -/

/-- What `get_nprocs` returns, a positive `int`. -/
structure Nprocs where
  val : ℕ
  pos : 0 < val
  lt : val < 2 ^ 31

/-- `CPU_ALLOC_SIZE`, in bytes: a set is made of 64-bit words. -/
def cpuAllocSize (count : ℕ) : ℕ := (count + 63) / 64 * 8

/-- The CPUs that a set for this machine has a bit for. -/
def Nprocs.bits (n : Nprocs) : ℕ := 8 * cpuAllocSize n.val

/-- `CPU_SET_S`: the number is taken as a `size_t`, and one without a bit is ignored. -/
def cpuSetS (cpu : ℤ) (setsize : ℕ) (set : Finset ℕ) : Finset ℕ :=
  let bit := (cpu % 2 ^ 64).toNat
  if bit / 8 < setsize then insert bit set else set

/-- `CPU_ISSET_S`. -/
def cpuIssetS (cpu setsize : ℕ) (set : Finset ℕ) : Bool :=
  decide (cpu / 8 < setsize) && decide (cpu ∈ set)

/-! ### The siblings of a CPU -/

/-- The token in the buffer of `getdelim`, whose last character is cut off. -/
def token (read : List Char) : List Char :=
  cstr (if 1 < read.length ∧ read.getLast? ≠ some '\x00' then read.dropLast else read)

/-- The loop over the tokens: the result of the function, and the set. -/
def setTokens (setsize : ℕ) : List (List Char) → Finset ℕ → ℤ × Finset ℕ
  | [], set => (0, set)
  | token :: tokens, set =>
    let coreCpu := strtol token 0
    -- `LONG_MIN` and `LONG_MAX`
    if coreCpu = -2 ^ 63 ∨ coreCpu = 2 ^ 63 - 1 then (-1, set)
    -- the cast to `int`
    else setTokens setsize tokens (cpuSetS (coreCpu.bmod (2 ^ 32)) setsize set)

/-- `set_core_cpus`, for the text of the file or nothing if it cannot be opened. -/
def setCoreCpus (coreCpusList : Option (List Char)) (set : Finset ℕ) (setsize : ℕ) :
    ℤ × Finset ℕ :=
  -- the first check of the function
  if setsize = 0 then (-1, set)
  else match coreCpusList with
    | none => (-1, set)
    | some text => setTokens setsize ((records ',' text).map token) set

/-! ### The choice -/

/-- The loop over the CPUs that the process may run on; `none` is an error. -/
def addCoreCpus (setsize : ℕ) (affinity : Finset ℕ) (lists : ℕ → Option (List Char)) :
    List ℕ → Finset ℕ → Option (Finset ℕ)
  | [], set => some set
  | i :: is, set =>
    if cpuIssetS i setsize affinity then
      let added := setCoreCpus (lists i) set setsize
      -- a list that is not there ends the function
      if added.1 < 0 then none
      else addCoreCpus setsize affinity lists is added.2
    else addCoreCpus setsize affinity lists is set

/-- The loop that looks for a CPU that is not in the set. -/
def firstUnset (nprocs setsize : ℕ) (set : Finset ℕ) : ℤ :=
  match (List.range nprocs).find? fun i => !cpuIssetS i setsize set with
  | none => -1
  | some i => i

/-- `get_preferred_cpu`, for the sets that are allocated, the affinity of the process, or
nothing if it cannot be asked for, and the texts of the `core_cpus_list` files. -/
def getPreferredCpu (nprocs : ℕ) (cpuSet coreCpuSet : Bool) (affinity : Option (Finset ℕ))
    (lists : ℕ → Option (List Char)) : ℤ :=
  let setsize := cpuAllocSize nprocs
  -- whichever of the calls fails, the result is the -1 of the start
  match cpuSet, affinity, coreCpuSet with
  | true, some affinity, true =>
    match addCoreCpus setsize affinity lists (List.range nprocs) ∅ with
    | none => -1
    | some coreCpus => firstUnset nprocs setsize coreCpus
  | _, _, _ => -1

/-- The loop finds the lowest CPU that is not in the set. -/
theorem firstUnset_eq {nprocs setsize : ℕ} {set : Finset ℕ} {P : ℕ → Prop}
    (h : ∀ d < nprocs, cpuIssetS d setsize set = true ↔ P d) {c : ℕ} :
    firstUnset nprocs setsize set = c ↔ c < nprocs ∧ ¬ P c ∧ ∀ d < c, P d := by
  have hfree : ∀ d < nprocs, (!cpuIssetS d setsize set) = true ↔ ¬ P d := by
    intro d hd
    rw [← h d hd, Bool.not_eq_true', Bool.not_eq_true]
  unfold firstUnset
  split
  · rename_i hnone
    rw [List.find?_range_eq_none] at hnone
    constructor
    · intro hc
      omega
    · rintro ⟨hc, hno, -⟩
      exact absurd ((hfree c hc).mpr hno) (by simpa using hnone c hc)
  · rename_i i hsome
    obtain ⟨hp, hi, hbefore⟩ := List.find?_range_eq_some.mp hsome
    rw [List.mem_range] at hi
    have hno : ¬ P i := (hfree i hi).mp hp
    have hbelow : ∀ d < i, P d := by
      intro d hd
      by_contra hd'
      have := (hfree d (hd.trans hi)).mpr hd'
      simpa [this] using hbefore d hd
    rw [Int.ofNat_inj]
    constructor
    · rintro rfl
      exact ⟨hi, hno, hbelow⟩
    · rintro ⟨-, hno', hall⟩
      -- two lowest CPUs are the same one
      rcases Nat.lt_trichotomy i c with hlt | heq | hgt
      · exact absurd (hall i hlt) hno
      · exact heq
      · exact absurd (hbelow c hgt) hno'

/-! ### What a list adds -/

section Lists

/-- The numbers that `strtol` finds: the first one of each item, and the 0 that stands
for an empty line. -/
def CpuList.firsts {bound : ℕ} (l : CpuList bound) : List ℕ :=
  match l.items with
  | [] => [0]
  | items => items.map fun i => i.first.value

theorem CpuList.mem_firsts {bound : ℕ} (l : CpuList bound) {c : ℕ} :
    c ∈ l.firsts ↔ (l.items = [] ∧ c = 0) ∨ ∃ i ∈ l.items, c = i.first.value := by
  unfold CpuList.firsts
  split
  · rename_i hnil
    simp [hnil]
  · rename_i hne
    have hne' : l.items ≠ [] := hne
    simp [hne', eq_comm]

theorem token_append {w : List Char} (hne : w ≠ []) (hw : '\x00' ∉ w) {d : Char} (hd : d ≠ '\x00') :
    token (w ++ [d]) = w := by
  have hlen : 1 < (w ++ [d]).length := by
    have := List.length_pos_iff.mpr hne
    rw [List.length_append, List.length_singleton]
    omega
  unfold token
  rw [List.getLast?_concat, List.dropLast_concat, if_pos ⟨hlen, by simpa using hd⟩]
  exact cstr_eq_self hw

/-- The tokens of a list are its items. -/
theorem tokens_itemsText (i : CpuItem) (is : List CpuItem) :
    (records ',' (itemsText (i :: is) ++ ['\n'])).map token = (i :: is).map CpuItem.text := by
  induction is generalizing i with
  | nil =>
    obtain ⟨hcomma, hnul⟩ := i.text_plain
    have hno : ',' ∉ i.text ++ ['\n'] := by
      rw [List.mem_append, not_or]
      exact ⟨hcomma, by decide⟩
    show (records ',' (i.text ++ ['\n'])).map token = [i.text]
    rw [records_last hno (List.append_ne_nil_of_right_ne_nil _ (List.cons_ne_nil _ _)),
      List.map_singleton, token_append i.text_ne_nil hnul (by decide)]
  | cons j is ih =>
    obtain ⟨hcomma, hnul⟩ := i.text_plain
    show (records ',' (i.text ++ ',' :: itemsText (j :: is) ++ ['\n'])).map token = _
    rw [List.append_assoc, List.cons_append, records_append hcomma, List.map_cons, ih,
      token_append i.text_ne_nil hnul (by decide), List.map_cons (l := j :: is)]

/-- **The first number.** `strtol` reads an item up to the `-`. -/
theorem strtol_text (i : CpuItem) (h : i.first.value < 2 ^ 63) :
    strtol i.text 0 = i.first.value := by
  obtain ⟨rest, htext, hends⟩ := i.exists_digits
  unfold strtol
  rw [htext, scanNumber_auto i.first.nonempty i.first.digit i.first.canonical hends]
  show min (2 ^ 63 - 1) ((i.first.value : ℕ) : ℤ) = _
  omega

/-- A CPU that a set has a bit for is an `int`. -/
theorem lt_of_lt_bits {n : Nprocs} {c : ℕ} (hc : c < n.bits) : c < 2 ^ 31 := by
  have hlt := n.lt
  unfold Nprocs.bits cpuAllocSize at hc
  omega

/-- A CPU that the set has a bit for is added, the casts of its number apart. -/
theorem cpuSetS_of_lt {n : Nprocs} {c : ℕ} (hc : c < n.bits) (set : Finset ℕ) :
    cpuSetS ((c : ℤ).bmod (2 ^ 32)) (cpuAllocSize n.val) set = insert c set := by
  have hint := lt_of_lt_bits hc
  have hcast : (c : ℤ).bmod (2 ^ 32) = c := by
    rw [Int.bmod_eq_of_le (by omega) (by omega)]
  have hbit : ((c : ℤ) % 2 ^ 64).toNat = c := by omega
  have hbyte : c / 8 < cpuAllocSize n.val := by
    unfold Nprocs.bits at hc
    omega
  unfold cpuSetS
  rw [hcast, hbit]
  exact if_pos hbyte

theorem setTokens_items {n : Nprocs} {items : List CpuItem}
    (h : ∀ i ∈ items, i.first.value < n.bits) (set : Finset ℕ) :
    setTokens (cpuAllocSize n.val) (items.map CpuItem.text) set =
      (0, set ∪ (items.map fun i => i.first.value).toFinset) := by
  induction items generalizing set with
  | nil => simp [setTokens]
  | cons i is ih =>
    have hlt := h i List.mem_cons_self
    have hword := lt_of_lt_bits hlt
    rw [List.map_cons, setTokens, strtol_text i (by omega), if_neg (by omega), cpuSetS_of_lt hlt,
      ih fun j hj => h j (List.mem_cons_of_mem i hj), List.map_cons, List.toFinset_cons,
      Finset.insert_union, Finset.union_insert]

theorem cpuAllocSize_pos (n : Nprocs) : 0 < cpuAllocSize n.val := by
  have := n.pos
  unfold cpuAllocSize
  omega

/-- **What a list adds.** The first number of each item. -/
theorem setCoreCpus_text {n : Nprocs} (l : CpuList n.bits) (set : Finset ℕ) :
    setCoreCpus (some l.text) set (cpuAllocSize n.val) = (0, set ∪ l.firsts.toFinset) := by
  unfold setCoreCpus CpuList.text CpuList.firsts
  rw [if_neg (cpuAllocSize_pos n).ne']
  dsimp only
  have hlt : ∀ i ∈ l.items, i.first.value < n.bits := fun i hi => l.first_lt hi
  cases hitems : l.items with
  | nil =>
    -- `strtol` finds no number in the newline, and returns 0
    have htokens : (records ',' (itemsText [] ++ ['\n'])).map token = [['\n']] := by decide
    have hzero : strtol ['\n'] 0 = ((0 : ℕ) : ℤ) := by decide
    have h0 : 0 < n.bits := Nat.mul_pos (by decide) (cpuAllocSize_pos n)
    rw [htokens, setTokens, hzero, if_neg (by decide), cpuSetS_of_lt h0]
    simp [setTokens]
  | cons i is =>
    rw [hitems] at hlt
    rw [tokens_itemsText]
    exact setTokens_items hlt set

end Lists

/-! ### The machine -/

/-- What `get_preferred_cpu` finds: whether the sets are allocated, the CPUs that the
process may run on and the siblings of each CPU, where the kernel tells them. -/
structure Topology where
  nprocs : Nprocs
  cpuSet : Bool
  coreCpuSet : Bool
  affinity : Option (Finset ℕ)
  coreCpusList : ℕ → Option (CpuList nprocs.bits)

namespace Topology

variable (t : Topology)

/-- The texts of the files. -/
def lists (i : ℕ) : Option (List Char) := (t.coreCpusList i).map CpuList.text

/-- `get_preferred_cpu` on this machine. -/
def preferredCpu : ℤ :=
  getPreferredCpu t.nprocs.val t.cpuSet t.coreCpuSet t.affinity t.lists

/-- The process may run on the CPU. -/
def Allowed (i : ℕ) : Prop := ∃ affinity, t.affinity = some affinity ∧ i ∈ affinity

/-- The CPU shares a core with one that the process may run on. -/
def Sibling (c : ℕ) : Prop :=
  ∃ i l, t.Allowed i ∧ t.coreCpusList i = some l ∧ l.Denotes c

/-- A list that is looked at has the CPU as a first number. -/
def Leads (c : ℕ) : Prop :=
  ∃ i l, i < t.nprocs.val ∧ t.Allowed i ∧ t.coreCpusList i = some l ∧ c ∈ l.firsts

/-- Everything that is asked for is there. -/
def Answered : Prop :=
  t.cpuSet = true ∧ t.coreCpuSet = true ∧ t.affinity ≠ none ∧
    ∀ i < t.nprocs.val, t.Allowed i → t.coreCpusList i ≠ none

theorem cpuIssetS_eq {i : ℕ} (hi : i < t.nprocs.val) (set : Finset ℕ) :
    cpuIssetS i (cpuAllocSize t.nprocs.val) set = decide (i ∈ set) := by
  have hbit : i / 8 < cpuAllocSize t.nprocs.val := by
    unfold cpuAllocSize
    omega
  unfold cpuIssetS
  rw [decide_eq_true hbit, Bool.true_and]

/-- The loop over some of the CPUs, all of whose lists are there. -/
theorem addCoreCpus_some {affinity : Finset ℕ} {is : List ℕ} (set : Finset ℕ)
    (his : ∀ i ∈ is, i < t.nprocs.val)
    (hlists : ∀ i ∈ is, i ∈ affinity → t.coreCpusList i ≠ none) :
    ∃ out, addCoreCpus (cpuAllocSize t.nprocs.val) affinity t.lists is set = some out ∧
      ∀ c, c ∈ out ↔ c ∈ set ∨
        ∃ i l, i ∈ is ∧ i ∈ affinity ∧ t.coreCpusList i = some l ∧ c ∈ l.firsts := by
  induction is generalizing set with
  | nil => exact ⟨set, rfl, by simp⟩
  | cons i is ih =>
    have hrest : ∀ j ∈ is, j < t.nprocs.val := fun j hj => his j (List.mem_cons_of_mem i hj)
    have hrest' : ∀ j ∈ is, j ∈ affinity → t.coreCpusList j ≠ none :=
      fun j hj => hlists j (List.mem_cons_of_mem i hj)
    rw [addCoreCpus, t.cpuIssetS_eq (his i List.mem_cons_self)]
    by_cases hi : i ∈ affinity
    · -- the list of this CPU adds its first numbers to the set that the rest starts with
      obtain ⟨l, hl⟩ := Option.ne_none_iff_exists'.mp (hlists i List.mem_cons_self hi)
      have htext : t.lists i = some l.text := by
        unfold lists
        rw [hl]
        rfl
      obtain ⟨out, hout, hmem⟩ := ih (set ∪ l.firsts.toFinset) hrest hrest'
      refine ⟨out, ?_, fun c => ?_⟩
      · rw [if_pos (decide_eq_true hi), htext, setCoreCpus_text]
        exact hout
      · rw [hmem c, Finset.mem_union, List.mem_toFinset, or_assoc]
        refine or_congr_right ⟨?_, ?_⟩
        · rintro (hc | ⟨j, l', hj, h⟩)
          · exact ⟨i, l, List.mem_cons_self, hi, hl, hc⟩
          · exact ⟨j, l', List.mem_cons_of_mem i hj, h⟩
        · rintro ⟨j, l', hj, haff, hl', hc⟩
          rcases List.mem_cons.mp hj with rfl | hj
          · rw [hl, Option.some.injEq] at hl'
            exact Or.inl (hl' ▸ hc)
          · exact Or.inr ⟨j, l', hj, haff, hl', hc⟩
    · obtain ⟨out, hout, hmem⟩ := ih set hrest hrest'
      refine ⟨out, ?_, fun c => ?_⟩
      · rw [if_neg (by simpa using hi)]
        exact hout
      · rw [hmem c]
        refine or_congr_right ⟨?_, ?_⟩
        · rintro ⟨j, l, hj, h⟩
          exact ⟨j, l, List.mem_cons_of_mem i hj, h⟩
        · rintro ⟨j, l, hj, haff, h⟩
          rcases List.mem_cons.mp hj with rfl | hj
          · exact absurd haff hi
          · exact ⟨j, l, hj, haff, h⟩

/-- A list that is not there ends the function with an error. -/
theorem addCoreCpus_none {affinity : Finset ℕ} {is : List ℕ} (set : Finset ℕ)
    (his : ∀ i ∈ is, i < t.nprocs.val) {j : ℕ} (hj : j ∈ is) (haff : j ∈ affinity)
    (hnone : t.coreCpusList j = none) :
    addCoreCpus (cpuAllocSize t.nprocs.val) affinity t.lists is set = none := by
  induction is generalizing set with
  | nil => simp at hj
  | cons i is ih =>
    have hrest : ∀ j ∈ is, j < t.nprocs.val := fun j hj => his j (List.mem_cons_of_mem i hj)
    rw [addCoreCpus, t.cpuIssetS_eq (his i List.mem_cons_self)]
    dsimp only
    rcases List.mem_cons.mp hj with rfl | hj'
    -- it is this list that is missing, or a later one unless the loop has ended before
    · have htext : t.lists j = none := by
        unfold lists
        rw [hnone]
        rfl
      have hfail : (setCoreCpus none set (cpuAllocSize t.nprocs.val)).1 < 0 := by
        unfold setCoreCpus
        split <;> exact show (-1 : ℤ) < 0 by decide
      rw [if_pos (decide_eq_true haff), htext, if_pos hfail]
    · split
      · split
        · rfl
        · exact ih _ hrest hj'
      · exact ih _ hrest hj'

/-- **The choice.** If nothing is missing, the function returns the lowest CPU that no
list leads with. -/
theorem preferredCpu_eq (h : t.Answered) (c : ℕ) :
    t.preferredCpu = c ↔ c < t.nprocs.val ∧ ¬ t.Leads c ∧ ∀ d < c, t.Leads d := by
  obtain ⟨hset, hcore, haff, hlists⟩ := h
  obtain ⟨affinity, haff⟩ := Option.ne_none_iff_exists'.mp haff
  have hlists' : ∀ i ∈ List.range t.nprocs.val, i ∈ affinity → t.coreCpusList i ≠ none :=
    fun i hi hi' => hlists i (List.mem_range.mp hi) ⟨affinity, haff, hi'⟩
  obtain ⟨out, hout, hmem⟩ := t.addCoreCpus_some ∅ (fun i hi => List.mem_range.mp hi) hlists'
  have hleads : ∀ d, d ∈ out ↔ t.Leads d := by
    intro d
    rw [hmem d]
    unfold Leads Allowed
    simp [haff]
  have hfind : t.preferredCpu = firstUnset t.nprocs.val (cpuAllocSize t.nprocs.val) out := by
    unfold preferredCpu getPreferredCpu
    simp only [hset, hcore, haff, hout]
  rw [hfind]
  refine firstUnset_eq fun d hd => ?_
  rw [t.cpuIssetS_eq hd, decide_eq_true_iff, hleads d]

/-- If something is missing, the function returns an error. -/
theorem preferredCpu_error (h : ¬ t.Answered) : t.preferredCpu = -1 := by
  unfold preferredCpu getPreferredCpu
  dsimp only
  split
  · rename_i affinity hset haff hcore
    -- with the sets and the affinity there, it is a list that is missing
    have hmissing : ∃ j < t.nprocs.val, j ∈ affinity ∧ t.coreCpusList j = none := by
      by_contra hno
      refine h ⟨hset, hcore, by simp [haff], fun i hi hall hnone => hno ⟨i, hi, ?_, hnone⟩⟩
      obtain ⟨affinity', haff', hi'⟩ := hall
      rw [haff, Option.some.injEq] at haff'
      exact haff' ▸ hi'
    obtain ⟨j, hj, hjaff, hnone⟩ := hmissing
    rw [t.addCoreCpus_none ∅ (fun i hi => List.mem_range.mp hi) (List.mem_range.mpr hj) hjaff hnone]
  · rfl

/-- When the preferred CPU is no sibling: each sibling that no list leads with comes
behind another such CPU. -/
theorem preferredCpu_not_sibling : (∀ c : ℕ, t.preferredCpu = c → ¬ t.Sibling c) ↔
    (t.Answered → ∀ c < t.nprocs.val, t.Sibling c → ¬ t.Leads c → ∃ d < c, ¬ t.Leads d) := by
  constructor
  · -- otherwise that sibling is the lowest CPU that no list leads with
    intro h hans c hc hsib hno
    by_contra hall
    refine h c ((t.preferredCpu_eq hans c).mpr ⟨hc, hno, fun d hd => ?_⟩) hsib
    by_contra hd'
    exact hall ⟨d, hd, hd'⟩
  · intro h c hpref hsib
    by_cases hans : t.Answered
    · obtain ⟨hc, hno, hall⟩ := (t.preferredCpu_eq hans c).mp hpref
      obtain ⟨d, hd, hd'⟩ := h hans c hc hsib hno
      exact hd' (hall d hd)
    · rw [t.preferredCpu_error hans] at hpref
      omega

end Topology

/-- The list is read as the kernel means it: the CPUs it stands for are added to the set,
and no others. -/
def ReadsList {n : Nprocs} (l : CpuList n.bits) (set : Finset ℕ) : Prop :=
  let after := setCoreCpus (some l.text) set (cpuAllocSize n.val)
  after.1 = 0 ∧ ∀ c, c ∈ after.2 ↔ c ∈ set ∨ l.Denotes c

theorem readsList_iff {n : Nprocs} (l : CpuList n.bits) (set : Finset ℕ) : ReadsList l set ↔
    (∀ c, l.Denotes c → c ∈ set ∨ ∃ i ∈ l.items, c = i.first.value) ∧
      (l.items = [] → 0 ∈ set) := by
  unfold ReadsList
  rw [setCoreCpus_text]
  simp only [Finset.mem_union, List.mem_toFinset, l.mem_firsts, true_and]
  -- what is added is denoted, the 0 of an empty line apart; what is denoted may be missed
  constructor
  · intro h
    refine ⟨fun c hc => ?_, fun hnil => ?_⟩
    · rcases (h c).mpr (Or.inr hc) with hset | ⟨hnil, -⟩ | hfirst
      · exact Or.inl hset
      · obtain ⟨i, hi, -⟩ := hc
        simp [hnil] at hi
      · exact Or.inr hfirst
    · rcases (h 0).mp (Or.inr (Or.inl ⟨hnil, rfl⟩)) with hset | ⟨i, hi, -⟩
      · exact hset
      · simp [hnil] at hi
  · rintro ⟨hdenotes, hempty⟩ c
    constructor
    · rintro (hset | ⟨hnil, rfl⟩ | ⟨i, hi, rfl⟩)
      · exact Or.inl hset
      · exact Or.inl (hempty hnil)
      · exact Or.inr ⟨i, hi, le_rfl, i.first_le_last⟩
    · rintro (hset | hc)
      · exact Or.inl hset
      · exact (hdenotes c hc).imp_right Or.inr

/-- **Core siblings.** A list is read as the kernel means it exactly if each CPU it stands
for is the first one of an item or in the set already (and, for an empty line, CPU 0 is
in the set already). The preferred CPU is no sibling of a CPU that the process may run
on exactly if an answer of the kernel is missing, or each sibling that no list leads
with has a lower CPU that no list leads with either. -/
theorem siblings_avoided_iff (t : Topology) (l : CpuList t.nprocs.bits) (set : Finset ℕ) :
    (ReadsList l set ↔
      (∀ c, l.Denotes c → c ∈ set ∨ ∃ i ∈ l.items, c = i.first.value) ∧
        (l.items = [] → 0 ∈ set)) ∧
    ((∀ c : ℕ, t.preferredCpu = c → ¬ t.Sibling c) ↔
      (t.Answered → ∀ c < t.nprocs.val, t.Sibling c → ¬ t.Leads c → ∃ d < c, ¬ t.Leads d)) :=
  ⟨readsList_iff l set, t.preferredCpu_not_sibling⟩

/-- A machine of two CPUs, the threads of one core. -/
def twoThreads : Nprocs := ⟨2, by decide, by decide⟩

/-- `0-1`. -/
def bothThreads : CpuList twoThreads.bits where
  items := [.range cpuZero cpuOne (Nat.le_of_ble_eq_true rfl)]
  below i hi := by
    rw [List.mem_singleton.mp hi]
    exact Nat.le_of_ble_eq_true rfl

/-- The machine, with a process that may run on CPU 0. -/
def oneCore : Topology where
  nprocs := twoThreads
  cpuSet := true
  coreCpuSet := true
  affinity := some {0}
  coreCpusList _ := some bothThreads

/-- Of the list `0-1` only CPU 0 is added, so that CPU 1 is preferred, which shares the
core of the process. -/
theorem sibling_preferred :
    bothThreads.text = ['0', '-', '1', '\n'] ∧
      setCoreCpus (some bothThreads.text) ∅ (cpuAllocSize 2) = (0, {0}) ∧
      ¬ ReadsList bothThreads ∅ ∧ oneCore.preferredCpu = 1 ∧ oneCore.Sibling 1 := by
  have hdenotes : bothThreads.Denotes 1 := ⟨_, List.mem_cons_self, by decide, by decide⟩
  have hadded : setCoreCpus (some bothThreads.text) ∅ (cpuAllocSize 2) = (0, {0}) := by decide
  refine ⟨by decide, hadded, fun h => ?_, by decide, 0, bothThreads, ⟨{0}, rfl, by decide⟩, rfl,
    hdenotes⟩
  have hone := (h.2 1).mpr (Or.inr hdenotes)
  rw [show cpuAllocSize twoThreads.val = cpuAllocSize 2 from rfl, hadded] at hone
  exact absurd hone (by decide)

end Utils
end CsTrace
