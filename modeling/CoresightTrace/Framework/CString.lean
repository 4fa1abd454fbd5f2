import CoresightTrace.Framework.CText

/-!
# Strings in buffers and in the environment

A `CString` is a string of C, and a buffer `Holds` it when the terminator follows its
characters; what is behind the terminator is anything. The string functions work on
buffers, and the lemmas say what they do to the string held: a copy holds the string
copied (`holds_store`), and a part is taken out by moving what follows it down
(`Holds.memmove`).

The environment is the list of the strings `name=value` of a process. A name may stand
in it more than once: `getenv` reads the first, `setenv` replaces the first, and
`unsetenv` drops them all. What these do to the variable named, and that they leave the
others alone, is `getenv_setenv_self`, `getenv_setenv_of_ne` and their companions.
-/

namespace CText

/-- What stands in front of the first delimiter. -/
theorem takeWhile_delim {d : Char} {w : List Char} (hw : d ∉ w) (rest : List Char) :
    (w ++ d :: rest).takeWhile (· ≠ d) = w := by
  rw [List.takeWhile_append_of_pos (ne_delim hw), List.takeWhile_cons_of_neg (by simp),
    List.append_nil]

/-! ### Strings -/

/-- A string, without its terminator. -/
@[ext] structure CString where
  chars : List Char
  nul : '\x00' ∉ chars
deriving DecidableEq, Repr

namespace CString

/-- The string that starts at the head of a buffer. -/
def ofBuffer (buf : List Char) : CString where
  chars := cstr buf
  nul h := by simpa using List.mem_takeWhile_imp h

/-- The characters with the terminator. -/
def terminated (s : CString) : List Char := s.chars ++ ['\x00']

/-- `strlen`. -/
def strlen (s : CString) : ℕ := s.chars.length

instance : Append CString where
  append a b := ⟨a.chars ++ b.chars, by simp [a.nul, b.nul]⟩

@[simp] theorem chars_append (a b : CString) : (a ++ b).chars = a.chars ++ b.chars := rfl

end CString

/-- The buffer holds the string, and something behind its terminator. -/
def Holds (buf : List Char) (s : CString) : Prop := ∃ junk, buf = s.chars ++ '\x00' :: junk

/-- Characters stored in a buffer from an index on, which is also what `memcpy` does. -/
def store (buf : List Char) (i : ℕ) (bs : List Char) : List Char :=
  buf.take i ++ bs ++ buf.drop (i + bs.length)

/-- `memmove`, within a buffer. -/
def memmove (buf : List Char) (dst src n : ℕ) : List Char :=
  store buf dst ((buf.drop src).take n)

/-- `strspn`: how many characters at the start are among those accepted. -/
def strspn (s accept : List Char) : ℕ := (s.takeWhile (· ∈ accept)).length

/-- `malloc`: a block of the size asked for with anything in it, or nothing. -/
abbrev Malloc := (n : ℕ) → Option (Vector Char n)

/-- Memory is not exhausted. -/
def Malloc.Serves (malloc : Malloc) : Prop := ∀ n, (malloc n).isSome

/-- `strdup`: the block with the copy. -/
def strdup (malloc : Malloc) (s : CString) : Option (List Char) :=
  (malloc (s.strlen + 1)).map fun block => store block.toList 0 s.terminated

section Buffers

variable {buf : List Char} {s : CString}

theorem Holds.cstr (h : Holds buf s) : CText.cstr buf = s.chars := by
  obtain ⟨junk, rfl⟩ := h
  exact takeWhile_delim s.nul junk

theorem Holds.ofBuffer (h : Holds buf s) : CString.ofBuffer buf = s := by
  ext1
  exact h.cstr

/-- The string from an index on. -/
theorem Holds.cstr_drop {p q : List Char} (h : Holds buf s) (hs : s.chars = p ++ q) :
    CText.cstr (buf.drop p.length) = q := by
  obtain ⟨junk, rfl⟩ := h
  have hq : '\x00' ∉ q := fun hmem => s.nul (by rw [hs]; exact List.mem_append_right p hmem)
  rw [hs, List.append_assoc, List.drop_left]
  exact takeWhile_delim hq junk

/-- A string written with its terminator behind what is kept is held with it. -/
theorem holds_store {i : ℕ} {t u : CString} (hi : buf.take i = u.chars) (hs : s = u ++ t) :
    Holds (store buf i t.terminated) s := by
  refine ⟨buf.drop (i + t.terminated.length), ?_⟩
  unfold store CString.terminated
  rw [hi, hs, CString.chars_append]
  simp only [List.append_assoc, List.singleton_append]

theorem holds_strdup {malloc : Malloc} (h : strdup malloc s = some buf) : Holds buf s := by
  unfold strdup at h
  obtain ⟨block, -, rfl⟩ := Option.map_eq_some_iff.mp h
  exact holds_store (u := CString.ofBuffer []) rfl rfl

/-- A part of the string is taken out when what follows it is moved down, with the
terminator. -/
theorem Holds.memmove {p w q : List Char} {t : CString} (h : Holds buf s)
    (hs : s.chars = p ++ w ++ q) (ht : t.chars = p ++ q) :
    Holds (CText.memmove buf p.length (p.length + w.length) (q.length + 1)) t := by
  obtain ⟨junk, rfl⟩ := h
  have hmoved : ((s.chars ++ '\x00' :: junk).drop (p.length + w.length)).take (q.length + 1)
      = q ++ ['\x00'] := by
    rw [hs, ← List.length_append, List.append_assoc _ q, List.drop_left,
      List.take_length_add_append]
    rfl
  have hkept : (s.chars ++ '\x00' :: junk).take p.length = p := by
    rw [hs, List.append_assoc, List.append_assoc, List.take_left]
  refine ⟨(s.chars ++ '\x00' :: junk).drop (p.length + (q ++ ['\x00']).length), ?_⟩
  unfold CText.memmove store
  rw [hmoved, hkept, ht]
  simp only [List.append_assoc, List.singleton_append]

/-- The move stays within the buffer. -/
theorem Holds.length_memmove {p w q : List Char} (h : Holds buf s)
    (hs : s.chars = p ++ w ++ q) :
    (CText.memmove buf p.length (p.length + w.length) (q.length + 1)).length = buf.length := by
  obtain ⟨junk, rfl⟩ := h
  unfold CText.memmove store
  rw [hs]
  simp only [List.length_append, List.length_take, List.length_drop, List.length_cons]
  omega

/-- Behind the characters accepted at the start of a string comes the terminator just if
they are the whole string. -/
theorem getElem?_strspn {w : List Char} (hw : '\x00' ∉ w) (accept junk : List Char) :
    (w ++ '\x00' :: junk)[strspn w accept]? = some '\x00' ↔ ∀ c ∈ w, c ∈ accept := by
  unfold strspn
  induction w with
  | nil => simp
  | cons c w ih =>
    rw [List.mem_cons, not_or] at hw
    rw [List.forall_mem_cons]
    by_cases hc : c ∈ accept
    · rw [List.takeWhile_cons_of_pos (by simpa using hc), List.length_cons, List.cons_append,
        List.getElem?_cons_succ, ih hw.2]
      exact (and_iff_right hc).symm
    · -- the first character is not accepted, and it is no terminator
      rw [List.takeWhile_cons_of_neg (by simpa using hc), List.length_nil, List.cons_append,
        List.getElem?_cons_zero]
      constructor
      · intro h
        exact absurd (Option.some.inj h).symm hw.1
      · intro h
        exact absurd h.1 hc

theorem Holds.strspn (h : Holds buf s) (accept : List Char) :
    buf[CText.strspn (CText.cstr buf) accept]? = some '\x00' ↔ ∀ c ∈ s.chars, c ∈ accept := by
  rw [h.cstr]
  obtain ⟨junk, rfl⟩ := h
  exact getElem?_strspn s.nul accept junk

end Buffers

/-! ### The environment -/

/-- The environment of a process: its strings `name=value`. -/
abbrev Environ := List CString

/-- The string for a variable. -/
def envEntry (name value : CString) : CString := name ++ CString.ofBuffer ['='] ++ value

/-- The value that a string of the environment gives to the variable, if it is one for it. -/
def envValue (name entry : CString) : Option CString :=
  if (name.chars ++ ['=']).isPrefixOf entry.chars then
    some ⟨entry.chars.drop (name.strlen + 1), fun h => entry.nul (List.mem_of_mem_drop h)⟩
  else none

/-- `getenv`: the first string for the variable counts. -/
def getenv (environ : Environ) (name : CString) : Option CString :=
  environ.findSome? (envValue name)

/-- `unsetenv`: all strings for the variable go. -/
def unsetenv (environ : Environ) (name : CString) : Environ :=
  environ.filter fun entry => (envValue name entry).isNone

/-- The first string for the variable replaced, or a new one at the end. -/
def putEntry (name entry : CString) : Environ → Environ
  | [] => [entry]
  | e :: es => if (envValue name e).isSome then entry :: es else e :: putEntry name entry es

/-- `setenv`, which overwrites. -/
def setenv (malloc : Malloc) (environ : Environ) (name value : CString) : Environ :=
  -- without memory for the string the environment stays as it is
  match malloc (name.strlen + 1 + value.strlen + 1) with
  | none => environ
  | some _ => putEntry name (envEntry name value) environ

section Environment

variable {environ : Environ} {name name' value : CString}

theorem envValue_isSome {entry : CString} :
    (envValue name entry).isSome ↔ name.chars ++ ['='] <+: entry.chars := by
  unfold envValue
  rw [← List.isPrefixOf_iff_prefix]
  by_cases h : (name.chars ++ ['=']).isPrefixOf entry.chars = true
  · rw [if_pos h]
    exact iff_of_true rfl h
  · rw [if_neg h]
    exact iff_of_false Bool.false_ne_true h

theorem envValue_envEntry (name value : CString) :
    envValue name (envEntry name value) = some value := by
  have hchars : (envEntry name value).chars = name.chars ++ ['='] ++ value.chars := rfl
  have hpre : (name.chars ++ ['=']).isPrefixOf (envEntry name value).chars = true := by
    rw [hchars, List.isPrefixOf_iff_prefix]
    exact List.prefix_append _ _
  unfold envValue
  rw [if_pos hpre, Option.some.injEq]
  ext1
  show (envEntry name value).chars.drop (name.strlen + 1) = value.chars
  rw [hchars]
  exact List.drop_left' (by simp [CString.strlen])

/-- A string of the environment is for one variable only. -/
theorem eq_of_envValue {entry : CString} (hn : '=' ∉ name.chars) (hn' : '=' ∉ name'.chars)
    (h : (envValue name entry).isSome) (h' : (envValue name' entry).isSome) : name = name' := by
  obtain ⟨r, hr⟩ := envValue_isSome.mp h
  obtain ⟨r', hr'⟩ := envValue_isSome.mp h'
  rw [List.append_assoc, List.singleton_append] at hr hr'
  ext1
  -- both names are what stands in front of the first `=`
  calc name.chars = entry.chars.takeWhile (· ≠ '=') := by rw [← hr, takeWhile_delim hn]
    _ = name'.chars := by rw [← hr', takeWhile_delim hn']

theorem envValue_of_ne {entry : CString} (hn : '=' ∉ name.chars) (hn' : '=' ∉ name'.chars)
    (hne : name' ≠ name) (h : (envValue name entry).isSome) : envValue name' entry = none := by
  rw [← Option.not_isSome_iff_eq_none]
  intro h'
  exact hne (eq_of_envValue hn' hn h' h)

theorem getenv_cons (entry : CString) (environ : Environ) (name : CString) :
    getenv (entry :: environ) name = (envValue name entry).or (getenv environ name) := by
  unfold getenv
  rw [List.findSome?_cons]
  cases envValue name entry with
  | none => rfl
  | some v => rfl

theorem getenv_cons_self (name value : CString) (environ : Environ) :
    getenv (envEntry name value :: environ) name = some value := by
  rw [getenv_cons, envValue_envEntry, Option.some_or]

theorem getenv_cons_of_ne (hn : '=' ∉ name.chars) (hn' : '=' ∉ name'.chars) (hne : name' ≠ name)
    {entry : CString} (h : (envValue name entry).isSome) :
    getenv (entry :: environ) name' = getenv environ name' := by
  rw [getenv_cons, envValue_of_ne hn hn' hne h, Option.none_or]

theorem getenv_putEntry_self (name value : CString) (environ : Environ) :
    getenv (putEntry name (envEntry name value) environ) name = some value := by
  induction environ with
  | nil => exact getenv_cons_self name value []
  | cons e es ih =>
    rw [putEntry]
    by_cases he : (envValue name e).isSome
    · rw [if_pos he, getenv_cons_self]
    · rw [if_neg he, getenv_cons, Option.not_isSome_iff_eq_none.mp he, Option.none_or, ih]

theorem getenv_putEntry_of_ne (hn : '=' ∉ name.chars) (hn' : '=' ∉ name'.chars)
    (hne : name' ≠ name) :
    getenv (putEntry name (envEntry name value) environ) name' = getenv environ name' := by
  have hentry : (envValue name (envEntry name value)).isSome := by
    rw [envValue_envEntry]
    rfl
  induction environ with
  | nil => exact getenv_cons_of_ne hn hn' hne hentry
  | cons e es ih =>
    rw [putEntry]
    by_cases he : (envValue name e).isSome
    · rw [if_pos he, getenv_cons_of_ne hn hn' hne hentry, getenv_cons_of_ne hn hn' hne he]
    · rw [if_neg he, getenv_cons, getenv_cons, ih]

theorem getenv_setenv_self {malloc : Malloc} (hm : malloc.Serves) :
    getenv (setenv malloc environ name value) name = some value := by
  obtain ⟨block, hblock⟩ := Option.isSome_iff_exists.mp (hm (name.strlen + 1 + value.strlen + 1))
  unfold setenv
  rw [hblock]
  exact getenv_putEntry_self name value environ

theorem getenv_setenv_of_ne (malloc : Malloc) (hn : '=' ∉ name.chars) (hn' : '=' ∉ name'.chars)
    (hne : name' ≠ name) :
    getenv (setenv malloc environ name value) name' = getenv environ name' := by
  unfold setenv
  split
  · rfl
  · exact getenv_putEntry_of_ne hn hn' hne

theorem getenv_unsetenv_self (environ : Environ) (name : CString) :
    getenv (unsetenv environ name) name = none := by
  unfold getenv unsetenv
  rw [List.findSome?_eq_none_iff]
  intro e he
  have hnone : (envValue name e).isNone = true := (List.mem_filter.mp he).2
  exact Option.isNone_iff_eq_none.mp hnone

theorem getenv_unsetenv_of_ne (hn : '=' ∉ name.chars) (hn' : '=' ∉ name'.chars)
    (hne : name' ≠ name) : getenv (unsetenv environ name) name' = getenv environ name' := by
  unfold unsetenv
  induction environ with
  | nil => rfl
  | cons e es ih =>
    rw [List.filter_cons]
    cases he : envValue name e with
    | none => rw [Option.isNone_none, if_pos rfl, getenv_cons, getenv_cons, ih]
    | some v =>
      -- the string goes, and it was not for the other variable
      rw [Option.isNone_some, if_neg Bool.false_ne_true, ih,
        getenv_cons_of_ne hn hn' hne (by rw [he]; rfl)]

end Environment

end CText
