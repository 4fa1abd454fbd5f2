import CoresightTrace.Utils.CpuList

/-!
# The status of a task

`find_free_cpu()` reads the status files of all tasks. It marks a CPU when it finds,
in the status of a task with memory of its own (a `VmSize` line), a list of allowed
CPUs that is a single number.

`StatusLine` is a line of a status file, and the loop reads the characters of the
lines through a buffer, which cuts a long line in pieces. Only the first piece of a
line counts (`statusLoop_line`), and what it tells of the line is what the line says
(`StatusLine.read_spec`). So the loop is one over the lines (`statusLoop_text`), and
what it marks is the CPU of the first single number behind a `VmSize` line
(`marked_eq_some`).
-/

namespace CsTrace
namespace Utils

open CText

/-! ### The file -/

/-- `MAX_LINE`. -/
def maxLine : ℕ := 8192

/-- `MAX_CPUS`. -/
def maxCpus : ℕ := 4096

/-- `"VmSize:\t"`. -/
def vmSizeLabel : List Char := ['V', 'm', 'S', 'i', 'z', 'e', ':', '\t']

/-- `"Cpus_allowed_list:\t"`. -/
def cpusLabel : List Char :=
  ['C', 'p', 'u', 's', '_', 'a', 'l', 'l', 'o', 'w', 'e', 'd', '_', 'l', 'i', 's', 't', ':', '\t']

/-- The text starts with neither label. -/
def NoLabel (s : List Char) : Prop := ¬ vmSizeLabel <+: s ∧ ¬ cpusLabel <+: s

/-- Where the buffer cuts the line, it does not go on with a label. -/
def Continues (s : List Char) : Prop := ∀ k, NoLabel (s.drop ((maxLine - 1) * (k + 1)))

/-- A line of the status of a task: its virtual memory size, the CPUs it may run on, or
something else. -/
inductive StatusLine where
  -- only lists are ever longer than the buffer, and these go on with digits
  | vmSize (size : List Char) (line : '\n' ∉ size) (nul : '\x00' ∉ size)
      (continues : Continues (vmSizeLabel ++ size))
  | cpusAllowedList (l : CpuList (2 ^ 32))
  | other (text : List Char) (line : '\n' ∉ text) (nul : '\x00' ∉ text) (label : NoLabel text)
      (continues : Continues text)

/-- The line without its newline. -/
def StatusLine.text : StatusLine → List Char
  | .vmSize size _ _ _ => vmSizeLabel ++ size
  | .cpusAllowedList l => cpusLabel ++ itemsText l.items
  | .other text _ _ _ _ => text

def StatusLine.isVmSize : StatusLine → Bool
  | .vmSize _ _ _ _ => true
  | _ => false

/-- The CPU that a list of a single number stands for. -/
def CpuList.single? {bound : ℕ} (l : CpuList bound) : Option ℕ :=
  match l.items with
  | [.single n] => some n.value
  | _ => none

/-- The single CPU of a list of allowed CPUs. -/
def StatusLine.single? : StatusLine → Option ℕ
  | .cpusAllowedList l => l.single?
  | _ => none

/-- The text of a status file. -/
def statusText (lines : List StatusLine) : List Char :=
  (lines.map StatusLine.text).flatMap (· ++ ['\n'])

/-! ### The loop -/

/-- The line of the buffer marks a CPU: it is a list of allowed CPUs with neither `-` nor
`,`, and a number below `MAX_CPUS` is found in it. -/
def allowedCpu (tmp : List Char) : Option ℕ :=
  if cpusLabel.isPrefixOf tmp = true ∧ strchr tmp '-' = none ∧ strchr tmp ',' = none then
    -- `"%u"`, behind the label
    match sscanf (tmp.drop 19) [.num 10 32] with
    | [.num hval] => if hval < maxCpus then some hval else none
    | _ => none
  else none

/-- The loop over what `fgets` reads, with `has_vmsize`: the CPU that it marks before it
leaves the loop. -/
def statusLoop : List (List Char) → Bool → Option ℕ
  | [], _ => none
  | read :: reads, hasVmsize =>
    let tmp := cstr read
    let hasVmsize := hasVmsize || vmSizeLabel.isPrefixOf tmp
    -- without a `VmSize` line so far the list is passed over
    match allowedCpu tmp with
    | none => statusLoop reads hasVmsize
    | some hval => if hasVmsize then some hval else statusLoop reads hasVmsize

/-- The CPU that a status file marks. -/
def scanStatus (status : List Char) : Option ℕ :=
  statusLoop (fgets (maxLine - 1) (maxLine - 1) status) false

/-! ### Long lines -/

/-- The newline is part of no label. -/
theorem NoLabel.of_read {s p : List Char} (h : NoLabel s) (hp : p <+: s ++ ['\n']) :
    NoLabel p := by
  have hlabel : ∀ label : List Char, '\n' ∉ label → ¬ label <+: s → ¬ label <+: p := by
    intro label hnl hno hpre
    -- a label that does not end within `s` would have to take the newline
    rcases List.prefix_concat_iff.mp (hpre.trans hp) with heq | hs
    · rw [heq] at hnl
      exact hnl (by simp)
    · exact hno hs
  exact ⟨hlabel _ (by decide) h.1, hlabel _ (by decide) h.2⟩

theorem isPrefixOf_eq_false {a s : List Char} (h : ¬ a <+: s) : a.isPrefixOf s = false := by
  rw [← Bool.not_eq_true, List.isPrefixOf_iff_prefix]
  exact h

theorem allowedCpu_noLabel {s : List Char} (h : ¬ cpusLabel <+: s) : allowedCpu s = none := by
  unfold allowedCpu
  rw [isPrefixOf_eq_false h, if_neg (by simp)]

/-- A piece of a line that starts with no label changes nothing. -/
theorem statusLoop_skip {p : List Char} (h : NoLabel p) (hnul : '\x00' ∉ p)
    (reads : List (List Char)) (v : Bool) : statusLoop (p :: reads) v = statusLoop reads v := by
  rw [statusLoop, cstr_eq_self hnul, allowedCpu_noLabel h.2, isPrefixOf_eq_false h.1, Bool.or_false]

/-- What the buffer leaves of a line is cut where the line was. -/
theorem Continues.drop {w : List Char} (h : Continues w) (k : ℕ) :
    NoLabel ((w.drop (maxLine - 1)).drop ((maxLine - 1) * k)) := by
  have hk := h k
  rwa [Nat.mul_succ, Nat.add_comm, ← List.drop_drop] at hk

/-- The rest of a line behind the first piece changes nothing. -/
theorem statusLoop_tail {w : List Char} (hw : '\n' ∉ w) (hnul : '\x00' ∉ w)
    (h : ∀ k, NoLabel (w.drop ((maxLine - 1) * k))) (rest : List Char) (v : Bool) :
    statusLoop (fgets (maxLine - 1) (maxLine - 1) (w ++ '\n' :: rest)) v =
      statusLoop (fgets (maxLine - 1) (maxLine - 1) rest) v := by
  -- by induction on the length of what is left of the line
  induction hn : w.length using Nat.strong_induction_on generalizing w with
  | _ n ih =>
    have hlabel : NoLabel w := by simpa using h 0
    by_cases hfits : w.length < maxLine - 1
    · rw [fgets_short hw hfits]
      have hnul' : '\x00' ∉ w ++ ['\n'] := by simpa using hnul
      exact statusLoop_skip (hlabel.of_read (List.prefix_refl _)) hnul' _ v
    · have hlen : maxLine - 1 ≤ w.length := Nat.le_of_not_lt hfits
      have hpos : 0 < maxLine - 1 := by decide
      have hpiece : w.take (maxLine - 1) <+: w ++ ['\n'] :=
        List.prefix_append_of_prefix <| List.take_prefix _ w
      rw [fgets_long hw hpos hlen,
        statusLoop_skip (hlabel.of_read hpiece) fun hc => hnul (List.mem_of_mem_take hc)]
      -- what is left starts where the buffer cuts the line next
      refine ih _ ?_ (fun hc => hw (List.mem_of_mem_drop hc))
        (fun hc => hnul (List.mem_of_mem_drop hc)) (Continues.drop fun k => h (k + 1)) rfl
      rw [List.length_drop]
      omega

/-- What the buffer has of a line: all of it with the newline, or as much as it can hold. -/
def IsRead (w p : List Char) : Prop :=
  p = w ++ ['\n'] ∨ maxLine - 1 ≤ w.length ∧ p = w.take (maxLine - 1)

/-- **Only the first piece of a line counts.** -/
theorem statusLoop_line {w : List Char} (hw : '\n' ∉ w) (hnul : '\x00' ∉ w) (h : Continues w)
    (rest : List Char) : ∃ p, IsRead w p ∧ ∀ v,
      statusLoop (fgets (maxLine - 1) (maxLine - 1) (w ++ '\n' :: rest)) v =
        statusLoop (p :: fgets (maxLine - 1) (maxLine - 1) rest) v := by
  by_cases hfits : w.length < maxLine - 1
  · refine ⟨w ++ ['\n'], Or.inl rfl, fun v => ?_⟩
    rw [fgets_short hw hfits]
  · have hlen : maxLine - 1 ≤ w.length := Nat.le_of_not_lt hfits
    refine ⟨w.take (maxLine - 1), Or.inr ⟨hlen, rfl⟩, fun v => ?_⟩
    have htail := statusLoop_tail (fun hc => hw (List.mem_of_mem_drop hc))
      (fun hc => hnul (List.mem_of_mem_drop hc)) h.drop rest
    rw [fgets_long hw (by decide) hlen, statusLoop, statusLoop]
    simp only [htail]

section Read

variable {w p : List Char}

/-- What a line starts with is in the buffer, if the buffer has room for it. -/
theorem IsRead.isPrefix (h : IsRead w p) {a : List Char} (ha : a <+: w)
    (hlen : a.length ≤ maxLine - 1) : a <+: p := by
  rcases h with rfl | ⟨-, rfl⟩
  · exact ha.trans (List.prefix_append w ['\n'])
  · exact List.prefix_take_iff.mpr ⟨ha, hlen⟩

theorem IsRead.isPrefix_line (h : IsRead w p) : p <+: w ++ ['\n'] := by
  rcases h with rfl | ⟨-, rfl⟩
  · exact List.prefix_refl _
  · exact List.prefix_append_of_prefix <| List.take_prefix _ w

theorem IsRead.notMem (h : IsRead w p) (hnul : '\x00' ∉ w) : '\x00' ∉ p := by
  intro hc
  have := h.isPrefix_line.subset hc
  simp [hnul] at this

/-- A line shorter than the buffer is there as a whole. -/
theorem IsRead.eq_of_lt (h : IsRead w p) (hlen : w.length < maxLine - 1) : p = w ++ ['\n'] := by
  rcases h with rfl | ⟨hle, -⟩
  · rfl
  · omega

end Read

/-! ### Lists of CPUs -/

/-- Numbers of 32 bits have at most ten digits. -/
theorem CpuNumber.length_le (n : CpuNumber) (h : n.value < 2 ^ 32) : n.digits.length ≤ 10 := by
  obtain ⟨d, ds, hds⟩ := List.exists_cons_of_ne_nil n.nonempty
  by_cases hd : d = '0'
  · have hone := n.canonical (by rw [hds, hd]; rfl)
    rw [hone]
    decide
  · -- eleven digits would be more than 32 bits
    have hpos : 0 < digitVal d := Nat.pos_of_ne_zero fun h0 => hd (eq_zero_of_digitVal h0)
    have hpow : 10 ^ ds.length ≤ n.value := by
      unfold Numeral.value
      rw [hds]
      exact pow_le_ofDigits hpos ds
    have hlt : (10 : ℕ) ^ ds.length < 10 ^ 10 := lt_of_le_of_lt hpow (h.trans (by decide))
    have hlen : ds.length < 10 := (Nat.pow_lt_pow_iff_right (by decide)).mp hlt
    rw [hds, List.length_cons]
    omega

theorem itemsText_chars {items : List CpuItem} {c : Char} (h : c ∈ itemsText items) :
    digitVal c < 10 ∨ c = '-' ∨ c = ',' := by
  have hitem : ∀ i : CpuItem, c ∈ i.text → digitVal c < 10 ∨ c = '-' ∨ c = ',' := by
    intro i hc
    cases i with
    | single n => exact Or.inl (n.digit c hc)
    | range first last le =>
      unfold CpuItem.text at hc
      rw [List.mem_append, List.mem_cons] at hc
      rcases hc with hc | hc | hc
      · exact Or.inl (first.digit c hc)
      · exact Or.inr (Or.inl hc)
      · exact Or.inl (last.digit c hc)
  -- every item but the last has a comma behind it
  induction items with
  | nil => simp [itemsText] at h
  | cons i is ih =>
    cases is with
    | nil => exact hitem i h
    | cons j is =>
      unfold itemsText at h
      rw [List.mem_append, List.mem_cons] at h
      rcases h with h | h | h
      · exact hitem i h
      · exact Or.inr (Or.inr h)
      · exact ih h

/-- Characters that are in no list. -/
theorem notMem_itemsText {items : List CpuItem} {c : Char} (hd : 10 ≤ digitVal c) (hr : c ≠ '-')
    (hc : c ≠ ',') : c ∉ itemsText items := by
  intro h
  rcases itemsText_chars h with h | h | h
  · omega
  · exact hr h
  · exact hc h

/-- A list that is not a single number has a separator right behind its first number. -/
theorem exists_separator {items : List CpuItem} (hne : items ≠ [])
    (hsingle : ∀ n, items ≠ [.single n]) :
    ∃ i ∈ items, ∃ sep more, itemsText items = i.first.digits ++ sep :: more ∧
      (sep = '-' ∨ sep = ',') := by
  obtain ⟨i, is, rfl⟩ := List.exists_cons_of_ne_nil hne
  refine ⟨i, List.mem_cons_self, ?_⟩
  cases i with
  | single n =>
    cases is with
    | nil => exact absurd rfl (hsingle n)
    | cons j is => exact ⟨',', itemsText (j :: is), rfl, Or.inr rfl⟩
  | range first last le =>
    cases is with
    | nil => exact ⟨'-', last.digits, rfl, Or.inl rfl⟩
    | cons j is =>
      refine ⟨'-', last.digits ++ ',' :: itemsText (j :: is), ?_, Or.inl rfl⟩
      show first.digits ++ '-' :: last.digits ++ ',' :: itemsText (j :: is) = _
      rw [List.append_assoc, List.cons_append]
      rfl

/-- A number alone is found. -/
theorem allowedCpu_single (n : CpuNumber) (hval : n.value < 2 ^ 32) :
    allowedCpu (cpusLabel ++ (n.digits ++ ['\n'])) =
      if n.value < maxCpus then some n.value else none := by
  have hno : ∀ c : Char, c ∉ cpusLabel → c ≠ '\n' → digitVal c = 36 →
      strchr (cpusLabel ++ (n.digits ++ ['\n'])) c = none := by
    intro c hlabel hnl hd
    rw [strchr_eq_none, List.mem_append, List.mem_append, List.mem_singleton]
    rintro (hc | hc | hc)
    · exact hlabel hc
    · exact n.notMem (by decide) hd hc
    · exact hnl hc
  have hpre : cpusLabel.isPrefixOf (cpusLabel ++ (n.digits ++ ['\n'])) = true := by
    rw [List.isPrefixOf_iff_prefix]
    exact List.prefix_append _ _
  have hdrop : (cpusLabel ++ (n.digits ++ ['\n'])).drop 19 = n.digits ++ ['\n'] := rfl
  unfold allowedCpu
  rw [if_pos ⟨hpre, hno '-' (by decide) (by decide) (by decide),
      hno ',' (by decide) (by decide) (by decide)⟩, hdrop,
    sscanf_u n.toNumeral [] hval (Ends.cons rfl), sscanf]

/-- A separator in the buffer rules the line out. -/
theorem allowedCpu_separator {p : List Char} {sep : Char} (hsep : sep = '-' ∨ sep = ',')
    (hin : sep ∈ p) : allowedCpu p = none := by
  have hfound : strchr p sep ≠ none := by
    rw [Ne, strchr_eq_none]
    exact fun hno => hno hin
  unfold allowedCpu
  refine if_neg ?_
  rintro ⟨-, hminus, hcomma⟩
  rcases hsep with rfl | rfl
  · exact hfound hminus
  · exact hfound hcomma

theorem length_cpusLabel : cpusLabel.length = 19 := rfl

theorem CpuList.single?_eq_none {bound : ℕ} {l : CpuList bound}
    (h : ∀ n, l.items ≠ [.single n]) : l.single? = none := by
  unfold CpuList.single?
  split
  · rename_i n hn
    exact absurd hn (h n)
  · rfl

/-- **The check of a list.** The buffer holds a list of allowed CPUs, and a CPU is found
in it exactly if the list is a single number below `MAX_CPUS`. -/
theorem allowedCpu_list (l : CpuList (2 ^ 32)) {p : List Char}
    (h : IsRead (cpusLabel ++ itemsText l.items) p) :
    allowedCpu p = l.single?.filter (· < maxCpus) := by
  by_cases hsingle : ∃ n, l.items = [.single n]
  · obtain ⟨n, hn⟩ := hsingle
    have hval : n.value < 2 ^ 32 := l.below (.single n) (by rw [hn]; exact List.mem_cons_self)
    have hlen := n.length_le hval
    have htext : itemsText l.items = n.digits := by rw [hn]; rfl
    have hsome : l.single? = some n.value := by
      unfold CpuList.single?
      rw [hn]
    rw [htext] at h
    have hfits : (cpusLabel ++ n.digits).length < maxLine - 1 := by
      rw [List.length_append, length_cpusLabel]
      show 19 + n.digits.length < 8191
      omega
    rw [h.eq_of_lt hfits, List.append_assoc, allowedCpu_single n hval, hsome, Option.filter_some]
    simp only [decide_eq_true_eq]
  · have hnone := CpuList.single?_eq_none fun n hn => hsingle ⟨n, hn⟩
    rw [hnone, Option.filter_none]
    by_cases hnil : l.items = []
    · -- no number behind the label
      rw [hnil] at h
      rw [h.eq_of_lt (by decide)]
      decide
    · -- the first number is short enough for the buffer to have the separator too
      obtain ⟨i, hi, sep, more, htext, hsep⟩ :=
        exists_separator hnil fun n hn => hsingle ⟨n, hn⟩
      have hlen := i.first.length_le (l.first_lt hi)
      have hpre : cpusLabel ++ (i.first.digits ++ [sep]) <+: cpusLabel ++ itemsText l.items := by
        rw [htext]
        exact ⟨more, by simp⟩
      have hroom : (cpusLabel ++ (i.first.digits ++ [sep])).length ≤ maxLine - 1 := by
        rw [List.length_append, List.length_append, length_cpusLabel, List.length_singleton]
        show 19 + (i.first.digits.length + 1) ≤ 8191
        omega
      exact allowedCpu_separator hsep ((h.isPrefix hpre hroom).subset (by simp))

/-! ### What a status marks -/

namespace StatusLine

/-- A line is one line of one string. -/
theorem text_plain (line : StatusLine) : '\n' ∉ line.text ∧ '\x00' ∉ line.text := by
  cases line with
  | vmSize size hline hnul hcont =>
    show '\n' ∉ vmSizeLabel ++ size ∧ '\x00' ∉ vmSizeLabel ++ size
    rw [List.mem_append, List.mem_append, not_or, not_or]
    exact ⟨⟨by decide, hline⟩, by decide, hnul⟩
  | cpusAllowedList l =>
    have hitems : ∀ c : Char, digitVal c = 36 → c ≠ '-' → c ≠ ',' → c ∉ itemsText l.items :=
      fun c hd => notMem_itemsText (hd.symm ▸ by decide)
    show '\n' ∉ cpusLabel ++ itemsText l.items ∧ '\x00' ∉ cpusLabel ++ itemsText l.items
    rw [List.mem_append, List.mem_append, not_or, not_or]
    exact ⟨⟨by decide, hitems _ (by decide) (by decide) (by decide)⟩,
      by decide, hitems _ (by decide) (by decide) (by decide)⟩
  | other text hline hnul hlabel hcont => exact ⟨hline, hnul⟩

/-- No label is found where the buffer cuts a line. -/
theorem text_continues (line : StatusLine) : Continues line.text := by
  cases line with
  | vmSize size hline hnul hcont => exact hcont
  | cpusAllowedList l =>
    intro k
    -- past the label there are only characters of the list, and a label starts with a letter
    have hpast : 19 ≤ (maxLine - 1) * (k + 1) := by
      show 19 ≤ 8191 * (k + 1)
      omega
    have hdrop : (cpusLabel ++ itemsText l.items).drop ((maxLine - 1) * (k + 1)) =
        (itemsText l.items).drop ((maxLine - 1) * (k + 1) - 19) := by
      rw [List.drop_append, length_cpusLabel, List.drop_eq_nil_of_le hpast, List.nil_append]
    have hno : ∀ c : Char, 10 ≤ digitVal c → c ≠ '-' → c ≠ ',' →
        c ∉ (itemsText l.items).drop ((maxLine - 1) * (k + 1) - 19) :=
      fun c hd hr hc h => notMem_itemsText hd hr hc (List.mem_of_mem_drop h)
    show NoLabel ((cpusLabel ++ itemsText l.items).drop ((maxLine - 1) * (k + 1)))
    rw [hdrop]
    exact ⟨fun h => hno 'V' (by decide) (by decide) (by decide) (h.subset List.mem_cons_self),
      fun h => hno 'C' (by decide) (by decide) (by decide) (h.subset List.mem_cons_self)⟩
  | other text hline hnul hlabel hcont => exact hcont

/-- Two labels cannot both be at the start. -/
theorem not_vmSizeLabel_of_cpusLabel {s : List Char} (h : cpusLabel <+: s) :
    ¬ vmSizeLabel <+: s := by
  intro h'
  obtain ⟨a, rfl⟩ := h
  obtain ⟨b, hb⟩ := h'
  have hhead : some 'V' = some 'C' := congrArg List.head? hb
  exact absurd hhead (by decide)

/-- **What the buffer tells of a line.** -/
theorem read_spec (line : StatusLine) {p : List Char} (h : IsRead line.text p) :
    vmSizeLabel.isPrefixOf p = line.isVmSize ∧
      allowedCpu p = line.single?.filter (· < maxCpus) := by
  cases line with
  | vmSize size hline hnul hcont =>
    have hpre : vmSizeLabel <+: p := h.isPrefix (List.prefix_append _ _) (by decide)
    refine ⟨List.isPrefixOf_iff_prefix.mpr hpre, allowedCpu_noLabel fun hc => ?_⟩
    exact not_vmSizeLabel_of_cpusLabel hc hpre
  | cpusAllowedList l =>
    have hpre : cpusLabel <+: p := h.isPrefix (List.prefix_append _ _) (by decide)
    exact ⟨isPrefixOf_eq_false (not_vmSizeLabel_of_cpusLabel hpre), allowedCpu_list l h⟩
  | other text hline hnul hlabel hcont =>
    have hno : NoLabel p := hlabel.of_read h.isPrefix_line
    exact ⟨isPrefixOf_eq_false hno.1, allowedCpu_noLabel hno.2⟩

/-- A line is not both a size and a list. -/
theorem not_isVmSize (line : StatusLine) {f : ℕ → Bool} {c : ℕ}
    (h : line.single?.filter f = some c) : line.isVmSize = false := by
  cases line with
  | vmSize size hline hnul hcont => exact absurd h (by simp [single?])
  | cpusAllowedList l => rfl
  | other text hline hnul hlabel hcont => rfl

end StatusLine

/-- The loop over the lines, with `has_vmsize`. -/
def marked : List StatusLine → Bool → Option ℕ
  | [], _ => none
  | line :: lines, hasVmsize =>
    match line.single?.filter (· < maxCpus) with
    | none => marked lines (hasVmsize || line.isVmSize)
    | some hval => if hasVmsize || line.isVmSize then some hval
        else marked lines (hasVmsize || line.isVmSize)

theorem statusLoop_text (lines : List StatusLine) (v : Bool) :
    statusLoop (fgets (maxLine - 1) (maxLine - 1) (statusText lines)) v = marked lines v := by
  induction lines generalizing v with
  | nil => rfl
  | cons line lines ih =>
    have htext : statusText (line :: lines) = line.text ++ '\n' :: statusText lines := by
      unfold statusText
      rw [List.map_cons, List.flatMap_cons, List.append_assoc, List.singleton_append]
    obtain ⟨hline, hnul⟩ := line.text_plain
    obtain ⟨p, hread, hloop⟩ := statusLoop_line hline hnul line.text_continues (statusText lines)
    obtain ⟨hvm, hcpu⟩ := line.read_spec hread
    rw [htext, hloop v, statusLoop, cstr_eq_self (hread.notMem hnul), marked]
    simp only [hvm, hcpu, ih]

/-- The `k`-th line can mark the CPU: it is a list of allowed CPUs with this single number,
and a `VmSize` line is in front of it. -/
def Marks (v : Bool) (lines : List StatusLine) (k c : ℕ) : Prop :=
  lines[k]?.bind StatusLine.single? = some c ∧ c < maxCpus ∧
    (v || (lines.take k).any StatusLine.isVmSize) = true

/-- The status marks the CPU: it is the one of the first line that can mark one. -/
def MarksFirst (v : Bool) (lines : List StatusLine) (c : ℕ) : Prop :=
  ∃ k, Marks v lines k c ∧ ∀ j < k, ∀ d, ¬ Marks v lines j d

theorem marks_succ {v : Bool} {line : StatusLine} {lines : List StatusLine} {k c : ℕ} :
    Marks v (line :: lines) (k + 1) c ↔ Marks (v || line.isVmSize) lines k c := by
  unfold Marks
  rw [List.getElem?_cons_succ, List.take_succ_cons, List.any_cons, Bool.or_assoc]

/-- The line at the front comes first if it can mark a CPU. -/
theorem marksFirst_cons {v : Bool} {line : StatusLine} {lines : List StatusLine} {c : ℕ} :
    MarksFirst v (line :: lines) c ↔ Marks v (line :: lines) 0 c ∨
      (∀ d, ¬ Marks v (line :: lines) 0 d) ∧ MarksFirst (v || line.isVmSize) lines c := by
  constructor
  · rintro ⟨k, hk, hfirst⟩
    cases k with
    | zero => exact Or.inl hk
    | succ k =>
      refine Or.inr ⟨hfirst 0 (Nat.succ_pos k), k, marks_succ.mp hk, fun j hj d hd => ?_⟩
      exact hfirst (j + 1) (Nat.succ_lt_succ hj) d (marks_succ.mpr hd)
  · rintro (h0 | ⟨hno, k, hk, hfirst⟩)
    · exact ⟨0, h0, fun j hj => absurd hj (Nat.not_lt_zero j)⟩
    · refine ⟨k + 1, marks_succ.mpr hk, fun j hj d hd => ?_⟩
      cases j with
      | zero => exact hno d hd
      | succ j => exact hfirst j (Nat.lt_of_succ_lt_succ hj) d (marks_succ.mp hd)

theorem marks_zero {v : Bool} {line : StatusLine} {lines : List StatusLine} {c : ℕ} :
    Marks v (line :: lines) 0 c ↔ line.single?.filter (· < maxCpus) = some c ∧ v = true := by
  unfold Marks
  rw [Option.filter_eq_some_iff]
  simp [and_assoc]

/-- **The loop.** It stops at the first line that can mark a CPU. -/
theorem marked_eq_some {lines : List StatusLine} {v : Bool} {c : ℕ} :
    marked lines v = some c ↔ MarksFirst v lines c := by
  induction lines generalizing v with
  | nil =>
    constructor
    · intro h
      simp [marked] at h
    · rintro ⟨k, hk, -⟩
      simp [Marks] at hk
  | cons line lines ih =>
    rw [marksFirst_cons, marked, ← ih]
    simp only [marks_zero]
    cases hf : line.single?.filter (· < maxCpus) with
    | none => simp
    | some hval =>
      -- the line is a list, so the lines in front of it decide
      have hvm : line.isVmSize = false := line.not_isVmSize hf
      rw [hvm, Bool.or_false]
      by_cases hv : v = true
      · simp [hv]
      · simp [hv]

end Utils
end CsTrace
