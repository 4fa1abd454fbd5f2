import CoresightTrace.Framework.CText

/-!
# The traced ranges

`setup_map_info()` reads `/proc/PID/maps` and keeps the ranges to trace: lines
with execute permission and a path. All entries but one are filled in the order
of the file, and the last one is kept for the library that `CS_TRACE_LIB` names.

A line of the file is a `MapsLine`, and `mapsText` is the file that the kernel
writes for a list of them. The scan reads the characters of that text, so
`line_text` has to find every field again: `sscanf` stops where a field ends, and
the first `/` of the line is the one that starts the path. What is left is the
choice of the lines, which `selected` states for the whole file and the loop makes
line by line (`scan_mapInfo`).
-/

namespace CsTrace
namespace Utils

open CText

/-! ### The file -/

/-- A line of `/proc/PID/maps`: the range, the permissions, the offset, the device
and the inode of the file, and its name, which is empty for an anonymous mapping. -/
structure MapsLine where
  start : Numeral 16
  stop : Numeral 16
  readable : Bool
  writable : Bool
  executable : Bool
  shared : Bool
  offset : Numeral 16
  devMajor : Numeral 16
  devMinor : Numeral 16
  inode : Numeral 10
  /-- The blanks in front of the name. -/
  pad : ℕ
  name : List Char
  start_lt : start.value < 2 ^ 64
  stop_lt : stop.value < 2 ^ 64
  offset_lt : offset.value < 2 ^ 64
  /-- The kernel writes a newline in a name as `\012`. -/
  name_line : '\n' ∉ name
  name_nul : '\x00' ∉ name

namespace MapsLine

/-- The permissions as the line has them. -/
def perms (l : MapsLine) : List Char :=
  [if l.readable then 'r' else '-', if l.writable then 'w' else '-',
    if l.executable then 'x' else '-', if l.shared then 's' else 'p']

/-- What follows the offset, up to the name. -/
def device (l : MapsLine) : List Char :=
  ' ' :: (l.devMajor.digits ++ ':' :: (l.devMinor.digits ++ ' ' ::
    (l.inode.digits ++ List.replicate l.pad ' ')))

/-- The line up to the name. -/
def fields (l : MapsLine) : List Char :=
  l.start.digits ++ '-' :: (l.stop.digits ++ ' ' :: (l.perms ++ ' ' ::
    (l.offset.digits ++ l.device)))

/-- The line, without its newline. -/
def text (l : MapsLine) : List Char := l.fields ++ l.name

/-- The path of the line: its name from the first `/` on. -/
def path (l : MapsLine) : List Char := l.name.dropWhile (· ≠ '/')

/-- The line has execute permission and contains a path. -/
def traced (l : MapsLine) : Bool := l.executable && decide ('/' ∈ l.name)

/-- The path of the line contains the name of the library. -/
def inLib (lib : List Char) (l : MapsLine) : Bool := decide (lib <:+: l.path)

end MapsLine

/-- The text of the file. -/
def mapsText (lines : List MapsLine) : List Char :=
  (lines.map MapsLine.text).flatMap (· ++ ['\n'])

/-! ### The scan -/

/-- `PATH_MAX`. -/
def pathMax : ℕ := 4096

/-- `struct map_info`. -/
structure MapInfo where
  start : ℕ
  stop : ℕ
  offset : ℕ
  /-- The address of the image, 0 for `NULL`. -/
  buf : ℕ
  path : List Char
deriving DecidableEq, Repr

/-- The variables of the scan: those that `sscanf` fills, which keep their value
where a line does not match the format, and the entries filled so far, whose
number is `count`. -/
structure Scan where
  start : ℕ
  stop : ℕ
  offset : ℕ
  x : Char
  mapInfo : List MapInfo
deriving DecidableEq, Repr

/-- `count`. -/
abbrev Scan.count (s : Scan) : ℕ := s.mapInfo.length

/-- `"%lx-%lx %c%c%c%c %lx"`. -/
def mapsFormat : List Directive :=
  [.num 16 64, .lit '-', .num 16 64, .blank, .chr, .chr, .chr, .chr, .blank, .num 16 64]

/-- The number converted at a place, or what its variable had. -/
def numAt (vals : List Scanned) (i old : ℕ) : ℕ :=
  match vals[i]? with
  | some (.num n) => n
  | _ => old

/-- The character converted at a place, or what its variable had. -/
def chrAt (vals : List Scanned) (i : ℕ) (old : Char) : Char :=
  match vals[i]? with
  | some (.chr c) => c
  | _ => old

/-- `sscanf(line, ..., &start, &end, &c, &c, &x, &c, &offset)`. -/
def Scan.convert (s : Scan) (line : List Char) : Scan :=
  let vals := sscanf line mapsFormat
  -- the third, fourth and sixth conversion go to `c`, which is not used
  { s with
    start := numAt vals 0 s.start
    stop := numAt vals 1 s.stop
    x := chrAt vals 4 s.x
    offset := numAt vals 6 s.offset }

/-- The line may take the last entry. -/
def isTraceLib (lib : Option (List Char)) (line : List Char) : Bool :=
  lib.any fun name => (strchr line '/').any fun path => (strstr path name).isSome

/-- The line gets the next entry, unless one of the checks has the loop go on. -/
def Scan.keep (lib : Option (List Char)) (infoCountMax : ℕ) (s : Scan) (line : List Char) : Scan :=
  -- not an executable region
  if s.x ≠ 'x' then s
  else if infoCountMax ≤ s.count then s
  -- the last entry is kept for the library
  else if s.count = infoCountMax - 1 ∧ isTraceLib lib line = false then s
  else match strchr line '/' with
    | none => s
    | some path =>
      -- `strncpy` leaves the last byte of the entry, which is 0
      { s with
        mapInfo := s.mapInfo ++ [{
          start := s.start
          stop := s.stop
          offset := s.offset
          buf := 0
          path := path.take (pathMax - 1) }] }

/-- The body of the loop, for what `getline` has read. -/
def Scan.line (lib : Option (List Char)) (infoCountMax : ℕ) (s : Scan) (read : List Char) : Scan :=
  let line := cstr (if read.getLast? = some '\n' then read.dropLast else read)
  (s.convert line).keep lib infoCountMax line

/-- The loop over the lines of the file. -/
def Scan.run (lib : Option (List Char)) (infoCountMax : ℕ) (s : Scan) (maps : List Char) : Scan :=
  (records '\n' maps).foldl (Scan.line lib infoCountMax) s

/-- The scan before the first line; the variables are not initialised. -/
def Scan.init (start stop offset : ℕ) (x : Char) : Scan := ⟨start, stop, offset, x, []⟩

/-! ### The fields of a line -/

namespace MapsLine

variable (l : MapsLine)

/-- The entry of a line. -/
def mapInfo : MapInfo where
  start := l.start.value
  stop := l.stop.value
  offset := l.offset.value
  buf := 0
  path := l.path.take (pathMax - 1)

/-- In front of the name a line has digits, letters and three separators. -/
theorem fields_chars {c : Char} (h : c ∈ l.fields) :
    digitVal c < 36 ∨ c ∈ ['-', ' ', ':'] := by
  have hnum : ∀ {base : ℕ} (n : Numeral base), base ≤ 36 → c ∈ n.digits → digitVal c < 36 :=
    fun n hb hc => lt_of_lt_of_le (n.digit c hc) hb
  have hperms : c ∈ l.perms → digitVal c < 36 ∨ c ∈ ['-', ' ', ':'] := by
    unfold perms
    simp only [List.mem_cons, List.not_mem_nil, or_false]
    rintro (rfl | rfl | rfl | rfl) <;> split <;> decide
  -- the parts of the line in their order
  unfold fields device at h
  simp only [List.mem_append, List.mem_cons, List.mem_replicate] at h
  rcases h with h | h | h | h | h | h | h | h | h | h | h | h | h | h
  · exact .inl (hnum _ (by decide) h)
  · exact .inr (by simp [h])
  · exact .inl (hnum _ (by decide) h)
  · exact .inr (by simp [h])
  · exact hperms h
  · exact .inr (by simp [h])
  · exact .inl (hnum _ (by decide) h)
  · exact .inr (by simp [h])
  · exact .inl (hnum _ (by decide) h)
  · exact .inr (by simp [h])
  · exact .inl (hnum _ (by decide) h)
  · exact .inr (by simp [h])
  · exact .inl (hnum _ (by decide) h)
  · exact .inr (by simp [h.2])

/-- Other characters can only be part of the name. -/
theorem notMem_fields {c : Char} (hd : digitVal c = 36) (hs : c ∉ ['-', ' ', ':']) :
    c ∉ l.fields := by
  intro h
  rcases l.fields_chars h with h' | h'
  · exact absurd hd h'.ne
  · exact hs h'

theorem notMem_text {c : Char} (hd : digitVal c = 36) (hs : c ∉ ['-', ' ', ':'])
    (hn : c ∉ l.name) : c ∉ l.text := by
  unfold text
  rw [List.mem_append, not_or]
  exact ⟨l.notMem_fields hd hs, hn⟩

/-- The first `/` of the line is the first one of the name. -/
theorem strchr_text : strchr l.text '/' = strchr l.name '/' :=
  strchr_append (l.notMem_fields (by decide) (by decide)) l.name

theorem strchr_name (h : '/' ∈ l.name) : strchr l.name '/' = some l.path := by
  unfold strchr path
  split
  · rename_i hnil
    exact absurd (by simpa using List.dropWhile_eq_nil_iff.mp hnil '/' h) id
  · rfl

/-- `sscanf` finds the fields of the line. -/
theorem sscanf_text : sscanf l.text mapsFormat =
    .num l.start.value :: .num l.stop.value :: (l.perms.map .chr ++ [.num l.offset.value]) := by
  obtain ⟨d, ds, hds⟩ := List.exists_cons_of_ne_nil l.offset.nonempty
  have hdigit : isSpace d = false := by
    have hd : digitVal d < 16 := l.offset.digit d (by rw [hds]; exact List.mem_cons_self)
    exact (not_space_of_digitVal (hd.trans (by decide))).1
  have hdev : Ends (l.device ++ l.name) := Ends.cons rfl
  have hperm : isSpace (if l.readable then 'r' else '-') = false := by
    cases l.readable <;> decide
  -- one directive after the other, each with the text that the one before it has left
  unfold mapsFormat text fields perms
  simp only [List.append_assoc, List.cons_append, List.nil_append]
  rw [sscanf_lx l.start _ l.start_lt (Ends.cons rfl), sscanf_lit,
    sscanf_lx l.stop _ l.stop_lt (Ends.cons rfl), sscanf_blank hperm]
  simp only [sscanf_chr]
  rw [hds, List.cons_append, sscanf_blank hdigit, ← List.cons_append, ← hds,
    sscanf_lx l.offset _ l.offset_lt hdev, sscanf]
  rfl

/-- The line gets the next entry when `count` are filled. -/
def taken (lib : Option (List Char)) (infoCountMax count : ℕ) : Bool :=
  l.traced && decide (count < infoCountMax) &&
    (decide (count + 1 < infoCountMax) || lib.any fun name => l.inLib name)

theorem isTraceLib_text (lib : Option (List Char)) (h : '/' ∈ l.name) :
    isTraceLib lib l.text = lib.any fun name => l.inLib name := by
  cases lib with
  | none => rfl
  | some name =>
    unfold isTraceLib
    rw [l.strchr_text, l.strchr_name h, Bool.eq_iff_iff]
    show (strstr l.path name).isSome = true ↔ decide (name <:+: l.path) = true
    rw [strstr_isSome, decide_eq_true_iff]

/-- What the scan's variables hold after the line. -/
def readBy (l : MapsLine) (mapInfo : List MapInfo) : Scan where
  start := l.start.value
  stop := l.stop.value
  offset := l.offset.value
  x := if l.executable then 'x' else '-'
  mapInfo := mapInfo

theorem convert_text (s : Scan) : s.convert l.text = l.readBy s.mapInfo := by
  unfold Scan.convert
  rw [l.sscanf_text]
  rfl

end MapsLine

/-- The checks of the loop together. -/
theorem keep_text (lib : Option (List Char)) (infoCountMax : ℕ) (l : MapsLine)
    (infos : List MapInfo) : (l.readBy infos).keep lib infoCountMax l.text =
      l.readBy (infos ++ if l.taken lib infoCountMax infos.length then [l.mapInfo] else []) := by
  have hskip : l.taken lib infoCountMax infos.length = false →
      l.readBy infos = l.readBy (infos ++
        if l.taken lib infoCountMax infos.length then [l.mapInfo] else []) := by
    intro h
    rw [h, if_neg Bool.false_ne_true, List.append_nil]
  have hcount : (l.readBy infos).count = infos.length := rfl
  unfold Scan.keep
  rw [hcount, l.strchr_text]
  -- the checks in the order of the source
  by_cases hx : l.executable = true
  · rw [if_neg (by simp [MapsLine.readBy, hx])]
    by_cases hfull : infoCountMax ≤ infos.length
    · rw [if_pos hfull]
      exact hskip (by simp [MapsLine.taken, hfull])
    · rw [if_neg hfull]
      by_cases hpath : '/' ∈ l.name
      · -- only the reservation of the last entry is left
        rw [l.isTraceLib_text lib hpath, l.strchr_name hpath]
        by_cases hlast : infos.length = infoCountMax - 1 ∧
            (lib.any fun name => l.inLib name) = false
        · rw [if_pos hlast]
          refine hskip ?_
          have hle : infoCountMax ≤ infos.length + 1 := by omega
          simp [MapsLine.taken, hlast.2, hle]
        · rw [if_neg hlast]
          have htaken : l.taken lib infoCountMax infos.length = true := by
            have hlt : infos.length < infoCountMax := Nat.lt_of_not_le hfull
            unfold MapsLine.taken MapsLine.traced
            by_cases hlib : (lib.any fun name => l.inLib name) = true
            · simp [hx, hpath, hlt, hlib]
            · have hmore : infos.length + 1 < infoCountMax := by
                rw [Bool.not_eq_true] at hlib
                have : infos.length ≠ infoCountMax - 1 := fun h => hlast ⟨h, hlib⟩
                omega
              simp [hx, hpath, hlt, hmore]
          rw [htaken, if_pos rfl]
          rfl
      · -- without a path nothing is stored, whichever check comes first
        rw [strchr_eq_none.mpr hpath, ite_self]
        exact hskip (by simp [MapsLine.taken, MapsLine.traced, hpath])
  · rw [if_pos (by simp [MapsLine.readBy, hx])]
    exact hskip (by simp [MapsLine.taken, MapsLine.traced, hx])

/-- **One line.** The loop's body reads the fields of the line and gives it the next
entry if it is one of those to trace and an entry is left for it. -/
theorem Scan.line_text (lib : Option (List Char)) (infoCountMax : ℕ) (s : Scan) (l : MapsLine) :
    s.line lib infoCountMax (l.text ++ ['\n']) = l.readBy (s.mapInfo ++
      if l.taken lib infoCountMax s.count then [l.mapInfo] else []) := by
  have hline : cstr (if (l.text ++ ['\n']).getLast? = some '\n' then (l.text ++ ['\n']).dropLast
      else l.text ++ ['\n']) = l.text := by
    rw [List.getLast?_concat, if_pos rfl, List.dropLast_concat]
    exact cstr_eq_self (l.notMem_text (by decide) (by decide) l.name_nul)
  unfold Scan.line
  rw [hline]
  show (s.convert l.text).keep lib infoCountMax l.text = _
  rw [l.convert_text]
  exact keep_text lib infoCountMax l s.mapInfo

/-! ### The lines selected -/

/-- The lines to trace: of those that may be traced the first `infoCountMax - 1`, and
the first later one of the library if `CS_TRACE_LIB` is set. -/
def selected (lib : Option (List Char)) (infoCountMax : ℕ) (lines : List MapsLine) :
    List MapsLine :=
  let executables := lines.filter MapsLine.traced
  executables.take (infoCountMax - 1) ++
    (lib.bind fun name => (executables.drop (infoCountMax - 1)).find? (MapsLine.inLib name)).toList

section Selected

variable (lib : Option (List Char)) (l : MapsLine) (lines : List MapsLine)

theorem selected_skip {n : ℕ} (h : l.traced = false) :
    selected lib n (l :: lines) = selected lib n lines := by
  unfold selected
  rw [List.filter_cons_of_neg (by simp [h])]

theorem selected_more {n : ℕ} (h : l.traced = true) :
    selected lib (n + 2) (l :: lines) = l :: selected lib (n + 1) lines := by
  unfold selected
  rw [List.filter_cons_of_pos h]
  rfl

/-- The last entry goes to the first line of the library. -/
theorem selected_last (h : l.traced = true) : selected lib 1 (l :: lines) =
    if (lib.any fun name => l.inLib name) = true then [l] else selected lib 1 lines := by
  unfold selected
  rw [List.filter_cons_of_pos h]
  cases lib with
  | none => rfl
  | some name =>
    show (List.find? (MapsLine.inLib name) (l :: lines.filter MapsLine.traced)).toList =
      if l.inLib name = true then [l] else
        (List.find? (MapsLine.inLib name) (lines.filter MapsLine.traced)).toList
    by_cases hlib : l.inLib name = true
    · rw [List.find?_cons_of_pos hlib, if_pos hlib]
      rfl
    · rw [List.find?_cons_of_neg hlib, if_neg hlib]

/-- One entry, at most, more than those in the order of the file. -/
theorem length_selected (n : ℕ) : (selected lib n lines).length ≤ n - 1 + lib.toList.length := by
  unfold selected
  rw [List.length_append, List.length_take]
  refine Nat.add_le_add (Nat.min_le_left _ _) ?_
  cases lib with
  | none => simp
  | some name =>
    show (Option.toList _).length ≤ 1
    exact Option.length_toList_le

end Selected

/-- The lines that get the entries left, which may be none. -/
def selectedFor (lib : Option (List Char)) : ℕ → List MapsLine → List MapsLine
  | 0, _ => []
  | n + 1, lines => selected lib (n + 1) lines

/-- With `n` entries left, a line gets one exactly if the loop gives it one. -/
theorem selectedFor_cons (lib : Option (List Char)) {infoCountMax count n : ℕ} (l : MapsLine)
    (lines : List MapsLine) (hn : count + n = infoCountMax) :
    selectedFor lib n (l :: lines) =
      if l.taken lib infoCountMax count = true then l :: selectedFor lib (n - 1) lines
      else selectedFor lib n lines := by
  by_cases ht : l.traced = true
  · rcases n with _ | _ | n
    · have hfull : infoCountMax ≤ count := by omega
      rw [if_neg (by simp [MapsLine.taken, hfull])]
      rfl
    · -- the last entry
      have hlt : count < infoCountMax := by omega
      have hle : infoCountMax ≤ count + 1 := by omega
      have htaken : l.taken lib infoCountMax count = lib.any fun name => l.inLib name := by
        simp [MapsLine.taken, ht, hlt, hle]
      rw [htaken]
      exact selected_last lib l lines ht
    · have hlt : count < infoCountMax := by omega
      have hlt' : count + 1 < infoCountMax := by omega
      rw [if_pos (by simp [MapsLine.taken, ht, hlt, hlt'])]
      exact selected_more lib l lines ht
  · rw [Bool.not_eq_true] at ht
    rw [if_neg (by simp [MapsLine.taken, ht])]
    cases n with
    | zero => rfl
    | succ n => exact selected_skip lib l lines ht

/-- **The scan.** With `n` entries left, the rest of the file fills those that it
selects for `n` entries. -/
theorem scan_mapInfo (lib : Option (List Char)) (infoCountMax : ℕ) (lines : List MapsLine)
    (s : Scan) (n : ℕ) (hn : s.count + n = infoCountMax) :
    ((lines.map (·.text ++ ['\n'])).foldl (Scan.line lib infoCountMax) s).mapInfo =
      s.mapInfo ++ (selectedFor lib n lines).map MapsLine.mapInfo := by
  induction lines generalizing s n with
  | nil => cases n <;> simp [selectedFor, selected]
  | cons l lines ih =>
    rw [List.map_cons, List.foldl_cons, Scan.line_text, selectedFor_cons lib l lines hn]
    by_cases htaken : l.taken lib infoCountMax s.count = true
    · -- the line takes an entry, and one less is left for the rest of the file
      rw [if_pos htaken, if_pos htaken]
      have hcount : (l.readBy (s.mapInfo ++ [l.mapInfo])).count + (n - 1) = infoCountMax := by
        have hlt : s.count < infoCountMax := by
          unfold MapsLine.taken at htaken
          simp only [Bool.and_eq_true, decide_eq_true_eq] at htaken
          exact htaken.1.2
        show (s.mapInfo ++ [l.mapInfo]).length + (n - 1) = infoCountMax
        rw [List.length_append, List.length_singleton]
        change s.mapInfo.length < infoCountMax at hlt
        change s.mapInfo.length + n = infoCountMax at hn
        omega
      rw [ih _ _ hcount, List.map_cons]
      show s.mapInfo ++ [l.mapInfo] ++ _ = _
      rw [List.append_assoc, List.singleton_append]
    · rw [if_neg htaken, if_neg htaken, List.append_nil]
      exact ih (l.readBy s.mapInfo) n hn

/-- The scan of a whole file, whatever its variables held before. -/
theorem run_mapInfo (lib : Option (List Char)) {infoCountMax : ℕ} (hmax : 1 ≤ infoCountMax)
    (lines : List MapsLine) (start stop offset : ℕ) (x : Char) :
    ((Scan.init start stop offset x).run lib infoCountMax (mapsText lines)).mapInfo =
      (selected lib infoCountMax lines).map MapsLine.mapInfo := by
  have hline : ∀ t ∈ lines.map MapsLine.text, '\n' ∉ t := by
    intro t ht
    obtain ⟨l, -, rfl⟩ := List.mem_map.mp ht
    exact l.notMem_text (by decide) (by decide) l.name_line
  -- with no entry filled, all of them are left
  obtain ⟨n, rfl⟩ := Nat.exists_eq_add_of_le' hmax
  unfold Scan.run mapsText
  rw [records_lines hline, List.map_map]
  exact scan_mapInfo lib (n + 1) lines (Scan.init start stop offset x) (n + 1) (Nat.zero_add _)

/-- **Selection of the traced ranges.** Whatever the file has and whatever the
variables of the scan held before, the scan fills the entries with the first
`info_count_max - 1` executable lines that have a path, and the last entry with the
first later one that belongs to the library of `CS_TRACE_LIB`, if it is set and
there is one. -/
theorem traced_ranges_selected (lib : Option (List Char)) (infoCountMax : ℕ)
    (hmax : 1 ≤ infoCountMax) (lines : List MapsLine) (start stop offset : ℕ) (x : Char) :
    let scan := (Scan.init start stop offset x).run lib infoCountMax (mapsText lines)
    scan.mapInfo = (selected lib infoCountMax lines).map MapsLine.mapInfo ∧
      scan.count = (selected lib infoCountMax lines).length ∧
      scan.count ≤ infoCountMax ∧
      (lib = none → scan.count ≤ infoCountMax - 1) := by
  intro scan
  have hinfo := run_mapInfo lib hmax lines start stop offset x
  have hcount : scan.count = (selected lib infoCountMax lines).length := by
    show scan.mapInfo.length = _
    rw [hinfo, List.length_map]
  have hlen := length_selected lib lines infoCountMax
  refine ⟨hinfo, hcount, ?_, ?_⟩
  · have : lib.toList.length ≤ 1 := Option.length_toList_le
    omega
  · rintro rfl
    rw [hcount]
    exact hlen

/-- A line of the first page of the address space, for a name. -/
def pageLine (executable : Bool) (name : List Char) (hl : '\n' ∉ name) (hn : '\x00' ∉ name) :
    MapsLine where
  start := .ofList ['0'] (by decide)
  stop := .ofList ['1', '0', '0', '0'] (by decide)
  readable := true
  writable := false
  executable := executable
  shared := false
  offset := .ofList ['0'] (by decide)
  devMajor := .ofList ['0', '8'] (by decide)
  devMinor := .ofList ['0', '2'] (by decide)
  inode := .ofList ['9'] (by decide)
  pad := 1
  name := name
  start_lt := by decide
  stop_lt := by decide
  offset_lt := by decide
  name_line := hl
  name_nul := hn

/-- With two entries, the data and the `[vdso]` of a program are left out, and so is
every library in front of the one that is traced. -/
theorem traced_ranges_selected_library :
    let lines := [pageLine true ['/', 'a'] (by decide) (by decide),
      pageLine false ['/', 'a'] (by decide) (by decide),
      pageLine true ['[', 'v', ']'] (by decide) (by decide),
      pageLine true ['/', 'c'] (by decide) (by decide),
      pageLine true ['/', 'z'] (by decide) (by decide)]
    ((Scan.init 0 0 0 'x').run (some ['z']) 2 (mapsText lines)).mapInfo.map MapInfo.path =
      [['/', 'a'], ['/', 'z']] := by
  intro lines
  rw [(traced_ranges_selected (some ['z']) 2 (by decide) lines 0 0 0 'x').1]
  decide

end Utils
end CsTrace
