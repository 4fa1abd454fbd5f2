import CoresightTrace.Framework.CWords

/-!
# The search for the u-dma-buf module

`check_udmabuf()` reads `/proc/modules` with a buffer of 256 characters and compares the
first word of what is in the buffer with the name of the module. A line of the file is not
bounded: it lists the modules that use this one. What does not fit is read by the next
calls as if it were lines of its own, and the first word of such a piece is compared as
well.

A piece that is not the first of its line starts among the fields behind the name. Its
first word is the end of a field, unless the piece is one word long; and it never is, since
it fills the buffer. So the search finds the module exactly if it is listed
(`check_udmabuf_iff`), whatever modules use which.
-/

namespace CsTrace
namespace Utils

open CText

/-- The name of the module. -/
def udmabufName : List Char := "u_dma_buf".toList

/-- A name the kernel gives to a module, or the letters of its taints. -/
structure ModuleName where
  chars : List Char
  word : IsWord isSpace chars
  plain : '\x00' ∉ chars

inductive ModuleState where
  | live
  | loading
  | unloading
deriving DecidableEq, Repr

/-- A line of `/proc/modules`. -/
structure ModuleLine where
  name : ModuleName
  /-- `MODULE_NAME_LEN`. -/
  short : name.chars.length ≤ 55
  size : ℕ
  refs : ℕ
  /-- The modules that use this one. -/
  users : List ModuleName
  permanent : Bool
  state : ModuleState
  address : ℕ
  taints : Option ModuleName

def ModuleState.text : ModuleState → List Char
  | .live => "Live".toList
  | .loading => "Loading".toList
  | .unloading => "Unloading".toList

/-- The users, each with a comma behind it; a dash if there is none. -/
def ModuleLine.usersText (l : ModuleLine) : List Char :=
  let listed := l.users.flatMap (·.chars ++ [',']) ++
    if l.permanent then "[permanent],".toList else []
  if listed = [] then ['-'] else listed

/-- What stands behind the name. -/
def ModuleLine.fields (l : ModuleLine) : List (List Char) :=
  [printed 10 l.size, printed 10 l.refs, l.usersText, l.state.text,
    '0' :: 'x' :: printed 16 l.address] ++
  l.taints.elim [] fun t => ['(' :: (t.chars ++ [')'])]

/-- The line without its newline. -/
def ModuleLine.text (l : ModuleLine) : List Char := l.name.chars ++ spaced l.fields

/-- The text of the file. -/
def modulesText (lines : List ModuleLine) : List Char := lines.flatMap (·.text ++ ['\n'])

/-- The loop finds the module in what is in the buffer. -/
def namesUdmabuf (line : List Char) : Bool := firstWord isSpace 63 (cstr line) == udmabufName

/-- `check_udmabuf()`, of the text of `/proc/modules`. -/
def checkUdmabuf (modules : List Char) : ℤ :=
  if (fgets 255 255 modules).any namesUdmabuf then 0 else -1

theorem udmabufName_word : IsWord isSpace udmabufName :=
  ⟨by decide, forall_mem_of_all (by decide)⟩

/-! ### The fields -/

/-- A field the search can pass over: a word that does not end with the name. -/
structure Passed (f : List Char) : Prop where
  word : IsWord isSpace f
  plain : '\x00' ∉ f
  other : ¬ udmabufName <:+ f

/-- Digits, with a mark or without, have no underscore. -/
theorem Passed.digits {f : List Char} (hne : f ≠ [])
    (hf : ∀ c ∈ f, digitVal c < 36) : Passed f := by
  refine ⟨⟨hne, fun c hc => (not_space_of_digitVal (hf c hc)).1⟩, ?_, ?_⟩
  · exact fun hc => absurd (hf _ hc) (by decide)
  · intro hsuffix
    have hmem : '_' ∈ f := hsuffix.subset (by decide)
    exact absurd (hf _ hmem) (by decide)

/-- A field with another last character. -/
theorem Passed.last {f : List Char} (hf : ∀ d ∈ f, isSpace d = false ∧ d ≠ '\x00') {c : Char}
    (hc : f.getLast? = some c) (hcf : c ≠ 'f') : Passed f := by
  refine ⟨⟨?_, fun d hd => (hf d hd).1⟩, fun hnul => (hf _ hnul).2 rfl, ?_⟩
  · rintro rfl
    simp at hc
  · rintro ⟨front, rfl⟩
    have hname : udmabufName.getLast? = some 'f' := by decide
    rw [List.getLast?_append, hname, Option.some_or] at hc
    exact hcf (Option.some.inj hc).symm

theorem printed_passed {base : ℕ} (h : 1 < base) (hb : base ≤ 16) (n : ℕ) :
    ∀ c ∈ printed base n, digitVal c < 36 :=
  fun c hc => (printed_digit h hb n c hc).trans_le (hb.trans (by decide))

/-- The list of the users ends with a comma or is a dash. -/
theorem usersText_passed (l : ModuleLine) : Passed l.usersText := by
  have husers : ∀ d ∈ l.users.flatMap (·.chars ++ [',']), isSpace d = false ∧ d ≠ '\x00' := by
    intro d hd
    obtain ⟨u, -, hd⟩ := List.mem_flatMap.mp hd
    rcases List.mem_append.mp hd with hd | hd
    · exact ⟨u.word.2 d hd, fun hnul => u.plain (hnul ▸ hd)⟩
    · rw [List.mem_singleton.mp hd]
      decide
  have hpermanent : ∀ d ∈ "[permanent],".toList, isSpace d = false ∧ d ≠ '\x00' :=
    forall_mem_of_all (by decide)
  unfold ModuleLine.usersText
  dsimp only
  cases l.permanent with
  | true =>
    have hlast : "[permanent],".toList.getLast? = some ',' := by decide
    rw [if_pos rfl, if_neg (by simp)]
    refine Passed.last (c := ',') ?_ ?_ (by decide)
    · rw [List.forall_mem_append]
      exact ⟨husers, hpermanent⟩
    · rw [List.getLast?_append, hlast, Option.some_or]
  | false =>
    rw [if_neg Bool.false_ne_true, List.append_nil]
    rcases List.eq_nil_or_concat' l.users with hnil | ⟨us, u, heq⟩
    · rw [hnil, List.flatMap_nil, if_pos rfl]
      exact Passed.last (c := '-') (forall_mem_of_all (by decide)) rfl (by decide)
    · rw [if_neg (by simp [heq])]
      refine Passed.last (c := ',') husers ?_ (by decide)
      rw [heq, List.flatMap_append, List.flatMap_singleton, ← List.append_assoc,
        List.getLast?_concat]

/-- **Every field is passed over.** -/
theorem ModuleLine.fields_passed (l : ModuleLine) : ∀ f ∈ l.fields, Passed f := by
  unfold ModuleLine.fields
  rw [List.forall_mem_append]
  constructor
  · simp only [List.forall_mem_cons, List.not_mem_nil, false_imp_iff, implies_true, and_true]
    refine ⟨?_, ?_, usersText_passed l, ?_, ?_⟩
    · exact .digits (printed_ne_nil _ _) (printed_passed (by decide) (by decide) _)
    · exact .digits (printed_ne_nil _ _) (printed_passed (by decide) (by decide) _)
    · cases l.state <;> exact Passed.digits (by decide) (forall_mem_of_all (by decide))
    · refine .digits (List.cons_ne_nil _ _) ?_
      rw [List.forall_mem_cons, List.forall_mem_cons]
      exact ⟨by decide, by decide, printed_passed (by decide) (by decide) _⟩
  · cases l.taints with
    | none => simp
    | some t =>
      simp only [Option.elim_some, List.forall_mem_singleton]
      refine Passed.last (c := ')') ?_ ?_ (by decide)
      · simp only [List.forall_mem_cons, List.forall_mem_append, List.not_mem_nil, false_imp_iff,
          implies_true, and_true]
        refine ⟨by decide, ?_, by decide⟩
        exact fun d hd => ⟨t.word.2 d hd, fun hnul => t.plain (hnul ▸ hd)⟩
      · rw [← List.cons_append, List.getLast?_concat]

theorem ModuleLine.plain (l : ModuleLine) : '\x00' ∉ l.text := by
  unfold ModuleLine.text spaced
  rw [List.mem_append, List.mem_flatMap, not_or]
  refine ⟨l.name.plain, ?_⟩
  rintro ⟨f, hf, hmem⟩
  rcases List.mem_cons.mp hmem with hc | hc
  · exact absurd hc (by decide)
  · exact (l.fields_passed f hf).plain hc

/-! ### Pieces of a line -/

theorem ModuleLine.notMem (l : ModuleLine) : '\n' ∉ l.text := by
  have hfree (w : List Char) (hw : IsWord isSpace w) : '\n' ∉ w :=
    fun hc => absurd (hw.2 '\n' hc) (by decide)
  unfold ModuleLine.text spaced
  rw [List.mem_append, List.mem_flatMap, not_or]
  refine ⟨hfree _ l.name.word, ?_⟩
  rintro ⟨f, hf, hmem⟩
  rcases List.mem_cons.mp hmem with hc | hc
  · exact absurd hc (by decide)
  · exact hfree f (l.fields_passed f hf).word hc

/-- Of a line no piece has a terminator in it. -/
theorem ModuleLine.cstr_piece (l : ModuleLine) {a p b : List Char}
    (heq : l.text ++ ['\n'] = a ++ p ++ b) : cstr p = p := by
  apply cstr_eq_self
  intro hnul
  have hmem : '\x00' ∈ l.text ++ ['\n'] := by
    rw [heq]
    simp [hnul]
  rcases List.mem_append.mp hmem with hc | hc
  · exact l.plain hc
  · exact absurd (List.mem_singleton.mp hc) (by decide)

/-- Behind the name of a line comes a blank. -/
theorem ModuleLine.eq_name_blank (l : ModuleLine) :
    ∃ c rest, isSpace c = true ∧ l.text ++ ['\n'] = l.name.chars ++ c :: rest := by
  unfold ModuleLine.text
  rw [List.append_assoc]
  cases l.fields with
  | nil => exact ⟨'\n', [], rfl, rfl⟩
  | cons f fs => exact ⟨' ', _, rfl, rfl⟩

/-- The first piece of a line has the name in front. -/
theorem namesUdmabuf_first (l : ModuleLine) :
    namesUdmabuf ((l.text ++ ['\n']).take 255) = decide (l.name.chars = udmabufName) := by
  have hpiece : l.text ++ ['\n'] =
      [] ++ (l.text ++ ['\n']).take 255 ++ (l.text ++ ['\n']).drop 255 := by
    rw [List.nil_append, List.take_append_drop]
  have hshort := l.short
  obtain ⟨c, rest, hc, htext⟩ := l.eq_name_blank
  unfold namesUdmabuf
  rw [l.cstr_piece hpiece, htext, List.take_append, List.take_of_length_le (by omega)]
  obtain ⟨k, hk⟩ : ∃ k, 255 - l.name.chars.length = k + 1 := ⟨254 - l.name.chars.length, by omega⟩
  rw [hk, List.take_succ_cons, firstWord_of_word l.name.word (by omega) hc, beq_eq_decide]

/-- **The other pieces do not count.** -/
theorem namesUdmabuf_later (l : ModuleLine) {a p b : List Char}
    (heq : l.text ++ ['\n'] = a ++ p ++ b) (ha : 255 ≤ a.length) (hend : p.length = 255 ∨ b = []) :
    namesUdmabuf p = false := by
  have hshort := l.short
  -- the piece is cut from the fields
  obtain ⟨a', hfields⟩ : ∃ a', spaced l.fields ++ ['\n'] = a' ++ p ++ b := by
    unfold ModuleLine.text at heq
    rw [List.append_assoc, List.append_assoc] at heq
    rcases List.append_eq_append_iff.mp heq with ⟨a', -, hrest⟩ | ⟨c, hname, -⟩
    · exact ⟨a', by rw [hrest, List.append_assoc]⟩
    · have hlen := congrArg List.length hname
      rw [List.length_append] at hlen
      omega
  have hwords : words isSpace (spaced l.fields ++ ['\n']) = l.fields := by
    have hspaced : words isSpace (spaced l.fields) = l.fields :=
      (words_spaced_iff rfl l.fields).mpr (fun f hf => (l.fields_passed f hf).word)
    rw [words_append rfl, hspaced]
    exact List.append_nil _
  by_contra hnames
  rw [Bool.not_eq_false] at hnames
  unfold namesUdmabuf at hnames
  rw [l.cstr_piece heq, beq_iff_eq] at hnames
  obtain ⟨front, rest, rfl, hblank, rfl | ⟨c, rest', rfl, hc⟩⟩ := eq_of_firstWord hnames (by decide)
  · rcases hend with hlen | rfl
    · -- the word is at the end of a full buffer, with blanks in front of it
      have hfront : 2 ≤ front.length := by
        have hname : udmabufName.length = 9 := by decide
        rw [List.append_nil, List.length_append, hname] at hlen
        omega
      obtain ⟨c₁, front, rfl⟩ := List.exists_cons_of_length_pos (by omega : 0 < front.length)
      rw [List.length_cons] at hfront
      obtain ⟨c₂, front, rfl⟩ := List.exists_cons_of_length_pos (by omega : 0 < front.length)
      refine not_two_blanks (fun f hf => (l.fields_passed f hf).word) rfl (c := '\n') rfl
        (hblank c₁ (by simp)) (hblank c₂ (by simp)) a' (front ++ udmabufName ++ b) ?_
      rw [hfields]
      simp
    · -- the line ends with its newline
      have hname : udmabufName.getLast? = some 'f' := by decide
      have hlast := congrArg List.getLast? hfields
      rw [List.append_nil, List.append_nil, ← List.append_assoc, List.getLast?_concat,
        List.getLast?_append, hname, Option.some_or] at hlast
      exact absurd hlast (by decide)
  · have htext : spaced l.fields ++ ['\n'] = (a' ++ front) ++ udmabufName ++ c :: (rest' ++ b) := by
      rw [hfields]
      simp
    obtain ⟨v, hv, hsuffix⟩ := suffix_of_words udmabufName_word hc (a' ++ front) (rest' ++ b)
    rw [← htext, hwords] at hv
    exact (l.fields_passed v hv).other hsuffix

/-- The search goes through the names. -/
theorem any_namesUdmabuf (lines : List ModuleLine) :
    (fgets 255 255 (modulesText lines)).any namesUdmabuf =
      lines.any fun l => decide (l.name.chars = udmabufName) := by
  induction lines with
  | nil => rfl
  | cons l lines ih =>
    have htext : modulesText (l :: lines) = l.text ++ '\n' :: modulesText lines := by
      simp [modulesText]
    obtain ⟨ps, hps, hpieces⟩ := fgets_line (n := 255) (by decide) l.notMem (modulesText lines)
    have hlater : ps.any namesUdmabuf = false := by
      rw [List.any_eq_false]
      intro p hp
      obtain ⟨a, b, heq, ha, hend⟩ := hpieces p hp
      simp [namesUdmabuf_later l heq ha hend]
    rw [htext, hps, List.any_cons, List.any_append, hlater, Bool.false_or, ih,
      namesUdmabuf_first, List.any_cons]

/-- **The module is found exactly if it is listed**, however long the lines are. -/
theorem check_udmabuf_iff (lines : List ModuleLine) :
    (checkUdmabuf (modulesText lines) = 0 ↔ ∃ l ∈ lines, l.name.chars = udmabufName) ∧
      (checkUdmabuf (modulesText lines) = -1 ↔ ∀ l ∈ lines, l.name.chars ≠ udmabufName) := by
  unfold checkUdmabuf
  rw [any_namesUdmabuf]
  constructor <;> simp

end Utils
end CsTrace
