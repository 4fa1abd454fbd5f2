import CoresightTrace.Framework.CText

/-!
# CPU lists

The kernel writes a set of CPUs as a line of numbers and ranges, such as `0,2-3`:
in `core_cpus_list` of a CPU's topology and behind `Cpus_allowed_list:` in the
status of a task. `CpuList` is such a line and `CpuList.Denotes` what it stands
for. Both readers in `utils.c` scan a number in it, and both rest on
`CpuItem.exists_digits`: an item starts with its first number, and the scan of that
number stops within the item.
-/

namespace CsTrace
namespace Utils

open CText

/-- A CPU number as the kernel writes it, in decimal and without leading zeros. -/
structure CpuNumber extends Numeral 10 where
  canonical : digits.head? = some '0' → digits = ['0']

/-- `0`. -/
def cpuZero : CpuNumber := ⟨.ofList ['0'] (by decide), fun _ => rfl⟩

/-- `1`. -/
def cpuOne : CpuNumber := ⟨.ofList ['1'] (by decide), by decide⟩

/-- A CPU, or the CPUs from one to another. -/
inductive CpuItem where
  | single (n : CpuNumber)
  | range (first last : CpuNumber) (le : first.value ≤ last.value)

namespace CpuItem

def first : CpuItem → CpuNumber
  | .single n => n
  | .range first _ _ => first

def last : CpuItem → CpuNumber
  | .single n => n
  | .range _ last _ => last

def text : CpuItem → List Char
  | .single n => n.digits
  | .range first last _ => first.digits ++ '-' :: last.digits

/-- The item stands for the CPU. -/
def Denotes (i : CpuItem) (c : ℕ) : Prop := i.first.value ≤ c ∧ c ≤ i.last.value

theorem first_le_last (i : CpuItem) : i.first.value ≤ i.last.value := by
  cases i with
  | single n => exact le_rfl
  | range first last le => exact le

/-- The text of an item is its first number and something that ends a number. -/
theorem exists_digits (i : CpuItem) : ∃ rest, i.text = i.first.digits ++ rest ∧ Ends rest := by
  cases i with
  | single n => exact ⟨[], (List.append_nil _).symm, fun c hc => by simp at hc⟩
  | range first last le => exact ⟨'-' :: last.digits, rfl, Ends.cons rfl⟩

theorem text_ne_nil (i : CpuItem) : i.text ≠ [] := by
  obtain ⟨rest, htext, -⟩ := i.exists_digits
  rw [htext]
  exact List.append_ne_nil_of_left_ne_nil i.first.nonempty rest

/-- An item is made of digits, and of a `-` if it is a range. -/
theorem notMem_text (i : CpuItem) {c : Char} (hd : digitVal c = 36) (hc : c ≠ '-') :
    c ∉ i.text := by
  cases i with
  | single n => exact n.notMem (by decide) hd
  | range first last le =>
    unfold text
    rw [List.mem_append, List.mem_cons, not_or, not_or]
    exact ⟨first.notMem (by decide) hd, hc, last.notMem (by decide) hd⟩

/-- No comma within an item, and no end of a string. -/
theorem text_plain (i : CpuItem) : ',' ∉ i.text ∧ '\x00' ∉ i.text :=
  ⟨i.notMem_text rfl (by decide), i.notMem_text rfl (by decide)⟩

end CpuItem

/-- The items with commas between them. -/
def itemsText : List CpuItem → List Char
  -- no comma behind the last item
  | [] => []
  | [i] => i.text
  | i :: j :: is => i.text ++ ',' :: itemsText (j :: is)

/-- A list of CPUs below a bound, as the kernel writes it. A list without items is an
empty line. -/
structure CpuList (bound : ℕ) where
  items : List CpuItem
  below : ∀ i ∈ items, i.last.value < bound

namespace CpuList

variable {bound : ℕ} (l : CpuList bound)

/-- The line, with its newline. -/
def text : List Char := itemsText l.items ++ ['\n']

/-- The list stands for the CPU. -/
def Denotes (c : ℕ) : Prop := ∃ i ∈ l.items, i.Denotes c

theorem first_lt {i : CpuItem} (h : i ∈ l.items) : i.first.value < bound :=
  lt_of_le_of_lt i.first_le_last (l.below i h)

end CpuList

end Utils
end CsTrace
