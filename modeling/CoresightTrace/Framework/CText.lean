import Mathlib.Data.List.Infix
import Mathlib.Data.List.TakeWhile
import Mathlib.Data.Nat.Notation
import Mathlib.Tactic.Ring

/-!
# The text functions of the C library

What a program reads of a text with `getline` and `getdelim`, with `strchr` and
`strstr`, with `strtol` and with `sscanf`. A text is a list of characters, and a
number is scanned as the standard says: blanks, a sign, the mark of the base, and
the longest run of digits after it.

The two rules the parsers are proved with are `scanNumber_digits`, a number in
front of a character that is no part of one, and `records_append`, the record in
front of a delimiter.
-/

namespace CText

/-! ### Characters -/

/-- `isspace`. -/
def isSpace (c : Char) : Bool := c.toNat == 32 || (decide (9 ≤ c.toNat) && decide (c.toNat ≤ 13))

/-- The value of a digit; 36 stands for a character that is no digit in any base. -/
def digitVal (c : Char) : ℕ :=
  if 48 ≤ c.toNat ∧ c.toNat ≤ 57 then c.toNat - 48
  else if 97 ≤ c.toNat ∧ c.toNat ≤ 122 then c.toNat - 87
  else if 65 ≤ c.toNat ∧ c.toNat ≤ 90 then c.toNat - 55
  else 36

/-- A digit in the given base. -/
def isDigit (base : ℕ) (c : Char) : Bool := decide (digitVal c < base)

/-- The number that digits denote, the most significant one first. -/
def ofDigits (base : ℕ) (ds : List Char) : ℕ := ds.foldl (fun v c => v * base + digitVal c) 0

/-- A digit is neither a blank nor a sign. -/
theorem not_space_of_digitVal {c : Char} (h : digitVal c < 36) :
    isSpace c = false ∧ c ≠ '-' ∧ c ≠ '+' := by
  refine ⟨?_, ?_, ?_⟩
  · unfold digitVal at h
    unfold isSpace
    split at h
    · simp; omega
    · split at h
      · simp; omega
      · split at h
        · simp; omega
        · omega
  · rintro rfl
    exact absurd h (by decide)
  · rintro rfl
    exact absurd h (by decide)

/-! ### Records -/

/-- What successive calls of `getdelim` read of a text: the pieces that end with
the delimiter, and what follows the last of them if anything does. `getline` is
`getdelim` with the newline. -/
def records (d : Char) : List Char → List (List Char)
  | [] => []
  | c :: cs =>
    if c = d then [c] :: records d cs
    else match records d cs with
      | [] => [[c]]
      | r :: rs => (c :: r) :: rs

@[simp] theorem records_nil (d : Char) : records d [] = [] := rfl

/-- A piece that ends with the delimiter is read at once. -/
theorem records_append {d : Char} {w : List Char} (hw : d ∉ w) (rest : List Char) :
    records d (w ++ d :: rest) = (w ++ [d]) :: records d rest := by
  induction w with
  | nil => simp [records]
  | cons c w ih =>
    -- the character in front joins the record that the rest starts with
    rw [List.mem_cons, not_or] at hw
    show records d (c :: (w ++ d :: rest)) = _
    rw [records, if_neg (Ne.symm hw.1), ih hw.2]
    rfl

/-- A piece without the delimiter is read to the end of the text. -/
theorem records_last {d : Char} {w : List Char} (hw : d ∉ w) (hne : w ≠ []) :
    records d w = [w] := by
  induction w with
  | nil => exact absurd rfl hne
  | cons c w ih =>
    rw [List.mem_cons, not_or] at hw
    rw [records, if_neg (Ne.symm hw.1)]
    by_cases hnil : w = []
    · rw [hnil, records_nil]
    · rw [ih hw.2 hnil]

/-- The text of lines, each with its newline, is read line by line. -/
theorem records_lines {d : Char} {lines : List (List Char)} (h : ∀ l ∈ lines, d ∉ l) :
    records d (lines.flatMap (· ++ [d])) = lines.map (· ++ [d]) := by
  induction lines with
  | nil => rfl
  | cons l lines ih =>
    rw [List.flatMap_cons, List.append_assoc, List.singleton_append,
      records_append (h l List.mem_cons_self),
      ih fun l' hl' => h l' (List.mem_cons_of_mem l hl'), List.map_cons]

/-- What successive calls of `fgets` read of a text, with a buffer for `n` characters of
which the first call finds `room` free: the pieces that end with a newline or with the
buffer full. -/
def fgets (n : ℕ) : ℕ → List Char → List (List Char)
  | _, [] => []
  | room, c :: cs =>
    -- the piece ends here, and the next call finds the whole buffer
    if c = '\n' ∨ room ≤ 1 then [c] :: fgets n n cs
    else match fgets n (room - 1) cs with
      | [] => [[c]]
      | r :: rs => (c :: r) :: rs

/-- A line that fits into the buffer is read at once. -/
theorem fgets_short {n room : ℕ} {w : List Char} (hw : '\n' ∉ w) (hlen : w.length < room)
    (rest : List Char) :
    fgets n room (w ++ '\n' :: rest) = (w ++ ['\n']) :: fgets n n rest := by
  induction w generalizing room with
  | nil => simp [fgets]
  | cons c w ih =>
    rw [List.mem_cons, not_or] at hw
    rw [List.length_cons] at hlen
    have hgo : ¬ (c = '\n' ∨ room ≤ 1) := by
      rintro (h | h)
      · exact hw.1 h.symm
      · omega
    show fgets n room (c :: (w ++ '\n' :: rest)) = _
    rw [fgets, if_neg hgo, ih hw.2 (by omega)]
    rfl

/-- Of a line that does not fit, the buffer takes what it can. -/
theorem fgets_long {n room : ℕ} {w : List Char} (hw : '\n' ∉ w) (hroom : 0 < room)
    (hlen : room ≤ w.length) (rest : List Char) :
    fgets n room (w ++ rest) = w.take room :: fgets n n (w.drop room ++ rest) := by
  induction w generalizing room with
  | nil => exact absurd hlen (by simpa using hroom.ne')
  | cons c w ih =>
    rw [List.mem_cons, not_or] at hw
    rw [List.length_cons] at hlen
    show fgets n room (c :: (w ++ rest)) = _
    rw [fgets]
    by_cases hlast : room = 1
    · -- the character fills the buffer
      subst hlast
      rw [if_pos (Or.inr le_rfl)]
      rfl
    · have hgo : ¬ (c = '\n' ∨ room ≤ 1) := by
        rintro (h | h)
        · exact hw.1 h.symm
        · omega
      obtain ⟨m, rfl⟩ : ∃ m, room = m + 1 := ⟨room - 1, by omega⟩
      rw [if_neg hgo, Nat.add_sub_cancel, ih hw.2 (by omega) (by omega)]
      rfl

/-! ### Strings -/

/-- The string that starts at the head of a buffer. -/
def cstr (s : List Char) : List Char := s.takeWhile (· ≠ '\x00')

/-- `strchr`: the string from the first occurrence of the character on. -/
def strchr (s : List Char) (c : Char) : Option (List Char) :=
  match s.dropWhile (· ≠ c) with
  | [] => none
  | found => some found

/-- `strstr`: the string from the first occurrence of the other string on. -/
def strstr (hay needle : List Char) : Option (List Char) :=
  hay.tails.find? (needle.isPrefixOf ·)

/-- All characters of a text without the delimiter pass the test for it. -/
theorem ne_delim {d : Char} {w : List Char} (hw : d ∉ w) : ∀ c ∈ w, decide (c ≠ d) = true := by
  intro c hc
  rw [decide_eq_true_iff]
  rintro rfl
  exact hw hc

theorem cstr_eq_self {s : List Char} (h : '\x00' ∉ s) : cstr s = s :=
  List.takeWhile_eq_self_iff.mpr (ne_delim h)

/-- What is before the character looked for is skipped. -/
theorem strchr_append {c : Char} {w : List Char} (hw : c ∉ w) (s : List Char) :
    strchr (w ++ s) c = strchr s c := by
  unfold strchr
  rw [List.dropWhile_append_of_pos (ne_delim hw)]

theorem strchr_isSome {c : Char} {s : List Char} : (strchr s c).isSome ↔ c ∈ s := by
  unfold strchr
  induction s with
  | nil => simp
  | cons a s ih =>
    by_cases hac : a = c
    · simp [hac]
    · rw [List.dropWhile_cons_of_pos (by simpa using hac), ih]
      simp [Ne.symm hac]

theorem strchr_eq_none {c : Char} {s : List Char} : strchr s c = none ↔ c ∉ s := by
  rw [← strchr_isSome, Option.not_isSome_iff_eq_none]

/-- `strstr` finds exactly the strings that occur. -/
theorem strstr_isSome {hay needle : List Char} :
    (strstr hay needle).isSome ↔ needle <:+: hay := by
  unfold strstr
  rw [List.find?_isSome]
  constructor
  · rintro ⟨s, hs, hp⟩
    exact List.infix_iff_prefix_suffix.mpr
      ⟨s, List.isPrefixOf_iff_prefix.mp hp, (List.mem_tails s hay).mp hs⟩
  · intro h
    obtain ⟨s, hp, hs⟩ := List.infix_iff_prefix_suffix.mp h
    exact ⟨s, (List.mem_tails s hay).mpr hs, List.isPrefixOf_iff_prefix.mpr hp⟩

/-- What `strstr` finds starts with the string looked for and ends where the text ends. -/
theorem strstr_eq_some {hay needle hit : List Char} (h : strstr hay needle = some hit) :
    needle <+: hit ∧ hit <:+ hay := by
  unfold strstr at h
  have hp : needle.isPrefixOf hit = true := List.find?_some h
  have hs : hit ∈ hay.tails := List.mem_of_find?_eq_some h
  exact ⟨List.isPrefixOf_iff_prefix.mp hp, (List.mem_tails hit hay).mp hs⟩

/-! ### Numbers -/

/-- A scanned number: its sign, its magnitude, and the text after it. -/
structure Number where
  negative : Bool
  magnitude : ℕ
  rest : List Char
deriving DecidableEq, Repr

/-- The text goes on with `0x` and a digit. -/
def marksHex (s : List Char) : Bool :=
  s.head? == some '0' && s[1]?.any (fun x => x == 'x' || x == 'X') && s[2]?.any (isDigit 16)

/-- The sign in front of a number. -/
def takeSign : List Char → Bool × List Char
  | '-' :: s => (true, s)
  | '+' :: s => (false, s)
  | s => (false, s)

/-- The base of the digits that follow, and these digits. With base 0 the text
says it, with base 16 the mark may stand there. -/
def takeBase (base : ℕ) (s : List Char) : ℕ × List Char :=
  -- without a digit behind it the `x` is not part of the number, which is then 0
  if (base = 0 ∨ base = 16) ∧ marksHex s then (16, s.drop 2)
  else if base = 0 then (if s.head? = some '0' then 8 else 10, s)
  else (base, s)

/-- The number a text starts with, as `strtol` and the conversions of `sscanf`
read it. -/
def scanNumber (base : ℕ) (s : List Char) : Option Number :=
  -- each part is looked for in what the one before it has left
  let signed := takeSign (s.dropWhile isSpace)
  let based := takeBase base signed.2
  let ds := based.2.takeWhile (isDigit based.1)
  if ds = [] then none
  else some ⟨signed.1, ofDigits based.1 ds, based.2.dropWhile (isDigit based.1)⟩

/-- `strtol`, of a 64-bit `long`; 0 if there is no number. -/
def strtol (s : List Char) (base : ℕ) : ℤ :=
  match scanNumber base s with
  | none => 0
  | some n =>
    -- a number out of range gives the nearest `long`
    if n.negative then max (-2 ^ 63) (-(n.magnitude : ℤ))
    else min (2 ^ 63 - 1) (n.magnitude : ℤ)

/-- `strtoul` of a scanned number, of a 64-bit `unsigned long`. -/
def Number.toUnsigned (n : Number) : ℕ :=
  -- a magnitude out of range gives the greatest value; a sign is applied after that test
  if 2 ^ 64 ≤ n.magnitude then 2 ^ 64 - 1
  else if n.negative then (2 ^ 64 - n.magnitude) % 2 ^ 64
  else n.magnitude

/-- The text does not go on with a digit or a letter. -/
def Ends (s : List Char) : Prop := ∀ c ∈ s.head?, digitVal c = 36

theorem Ends.cons {c : Char} {s : List Char} (h : digitVal c = 36) : Ends (c :: s) := by
  intro c' hc'
  obtain rfl : c = c' := by simpa using hc'
  exact h

theorem isDigit_eq_true {base : ℕ} {c : Char} : isDigit base c = true ↔ digitVal c < base :=
  decide_eq_true_iff

section Digits

variable {base : ℕ} {ds rest : List Char}

theorem takeWhile_digits (hds : ∀ c ∈ ds, digitVal c < base) (hb : base ≤ 36) (hr : Ends rest) :
    (ds ++ rest).takeWhile (isDigit base) = ds ∧ (ds ++ rest).dropWhile (isDigit base) = rest := by
  have hall : ∀ c ∈ ds, isDigit base c = true := fun c hc => isDigit_eq_true.mpr (hds c hc)
  rw [List.takeWhile_append_of_pos hall, List.dropWhile_append_of_pos hall]
  cases rest with
  | nil => simp
  | cons c rest =>
    -- what follows the digits is a digit in no base
    have hc : digitVal c = 36 := hr c rfl
    have hno : ¬ isDigit base c = true := by
      rw [isDigit_eq_true, hc]
      omega
    rw [List.takeWhile_cons_of_neg hno, List.dropWhile_cons_of_neg hno, List.append_nil]
    exact ⟨rfl, rfl⟩

/-- Decimal and hexadecimal digits do not mark a base: what stands behind the
first of them is a digit or ends the number, and is no `x`. -/
theorem marksHex_digits (hne : ds ≠ []) (hds : ∀ c ∈ ds, digitVal c < base) (hb : base ≤ 16)
    (hr : Ends rest) : marksHex (ds ++ rest) = false := by
  have hx : ∀ c ∈ (ds ++ rest)[1]?, digitVal c ≠ 33 := by
    intro c hc
    match ds, hne, hds with
    | [a], _, _ =>
      have hc' : c ∈ rest.head? := by simpa [List.head?_eq_getElem?] using hc
      rw [hr c hc']
      decide
    | a :: b :: ds, _, hds =>
      obtain rfl : b = c := by simpa using hc
      have := hds b (by simp)
      omega
  have hnone : (ds ++ rest)[1]?.any (fun x => x == 'x' || x == 'X') = false := by
    rw [Option.any_eq_false]
    intro c hc
    have h33 := hx c (by simpa using hc)
    rw [Bool.or_eq_false_iff]
    constructor
    · exact beq_false_of_ne fun h => h33 (h ▸ by decide)
    · exact beq_false_of_ne fun h => h33 (h ▸ by decide)
  unfold marksHex
  rw [hnone, Bool.and_false, Bool.false_and]

/-- Digits have no blank and no sign in front of them. -/
theorem takeSign_digits (hne : ds ≠ []) (hds : ∀ c ∈ ds, digitVal c < base) (hb : base ≤ 36) :
    takeSign ((ds ++ rest).dropWhile isSpace) = (false, ds ++ rest) := by
  obtain ⟨d, ds, rfl⟩ := List.exists_cons_of_ne_nil hne
  have hd : digitVal d < base := hds d List.mem_cons_self
  obtain ⟨hspace, hminus, hplus⟩ := not_space_of_digitVal (lt_of_lt_of_le hd hb)
  rw [List.cons_append, List.dropWhile_cons_of_neg (by simp [hspace])]
  unfold takeSign
  split
  · rename_i heq
    exact absurd (List.head_eq_of_cons_eq heq) hminus
  · rename_i heq
    exact absurd (List.head_eq_of_cons_eq heq) hplus
  · rfl

/-- **Numbers.** Digits in front of a character that is neither digit nor letter
are scanned to the last one, and the text goes on behind them. -/
theorem scanNumber_digits (hne : ds ≠ []) (hds : ∀ c ∈ ds, digitVal c < base) (h0 : 0 < base)
    (hb : base ≤ 16) (hr : Ends rest) :
    scanNumber base (ds ++ rest) = some ⟨false, ofDigits base ds, rest⟩ := by
  have hb' : base ≤ 36 := hb.trans (by decide)
  have hbase : takeBase base (ds ++ rest) = (base, ds ++ rest) := by
    unfold takeBase
    rw [marksHex_digits hne hds hb hr, if_neg (by simp), if_neg h0.ne']
  obtain ⟨htake, hdrop⟩ := takeWhile_digits hds hb' hr
  unfold scanNumber
  rw [takeSign_digits hne hds hb']
  simp only [hbase, htake, hdrop, if_neg hne]

/-- With base 0, decimal digits are read as such unless a 0 stands in front of
others. -/
theorem scanNumber_auto (hne : ds ≠ []) (hds : ∀ c ∈ ds, digitVal c < 10)
    (hzero : ds.head? = some '0' → ds = ['0']) (hr : Ends rest) :
    scanNumber 0 (ds ++ rest) = some ⟨false, ofDigits 10 ds, rest⟩ := by
  have hhead : (ds ++ rest).head? = ds.head? := List.head?_append_of_ne_nil _ hne
  have hhex := marksHex_digits hne hds (by decide) hr
  unfold scanNumber
  rw [takeSign_digits hne hds (by decide)]
  unfold takeBase
  simp only [hhex, Bool.false_eq_true, and_false, if_false, if_true, hhead]
  by_cases h : ds.head? = some '0'
  · -- the number is 0, and its only digit is an octal one as well
    obtain rfl := hzero h
    have h8 : ∀ c ∈ ['0'], digitVal c < 8 := by
      intro c hc
      rw [List.mem_singleton.mp hc]
      decide
    obtain ⟨htake, hdrop⟩ := takeWhile_digits h8 (by decide) hr
    rw [if_pos h, htake, hdrop]
    rfl
  · obtain ⟨htake, hdrop⟩ := takeWhile_digits hds (by decide) hr
    rw [if_neg h, htake, hdrop, if_neg hne]

end Digits

/-- The digits of a number as a text has them. -/
structure Numeral (base : ℕ) where
  digits : List Char
  nonempty : digits ≠ []
  digit : ∀ c ∈ digits, digitVal c < base

/-- The numeral of given digits. -/
def Numeral.ofList {base : ℕ} (ds : List Char) (h : (!ds.isEmpty && ds.all (isDigit base)) = true) :
    Numeral base where
  digits := ds
  nonempty := by
    rintro rfl
    exact Bool.false_ne_true h
  digit c hc := by
    rw [Bool.and_eq_true, List.all_eq_true] at h
    exact isDigit_eq_true.mp (h.2 c hc)

/-- The number denoted. -/
def Numeral.value {base : ℕ} (n : Numeral base) : ℕ := ofDigits base n.digits

/-- A character that is no digit is none of a numeral's. -/
theorem Numeral.notMem {base : ℕ} (n : Numeral base) {c : Char} (hb : base ≤ 36)
    (hc : digitVal c = 36) : c ∉ n.digits := by
  intro h
  have := n.digit c h
  omega

/-- A numeral that does not start with a 0 is at least the power of the base at its
first digit. -/
theorem pow_le_ofDigits {base : ℕ} {d : Char} (hd : 0 < digitVal d) (ds : List Char) :
    base ^ ds.length ≤ ofDigits base (d :: ds) := by
  -- each further digit multiplies what has been read by the base
  have hfold : ∀ (ds : List Char) (v : ℕ),
      v * base ^ ds.length ≤ ds.foldl (fun v c => v * base + digitVal c) v := by
    intro ds
    induction ds with
    | nil => intro v; simp
    | cons c ds ih =>
      intro v
      calc v * base ^ (c :: ds).length = v * base * base ^ ds.length := by
            rw [List.length_cons, pow_succ]; ring
        _ ≤ (v * base + digitVal c) * base ^ ds.length :=
            Nat.mul_le_mul_right _ (Nat.le_add_right _ _)
        _ ≤ _ := ih _
  calc base ^ ds.length ≤ (0 * base + digitVal d) * base ^ ds.length :=
        Nat.le_mul_of_pos_left _ (by omega)
    _ ≤ ofDigits base (d :: ds) := hfold ds _

/-- Only the digit 0 has the value 0. -/
theorem eq_zero_of_digitVal {c : Char} (h : digitVal c = 0) : c = '0' := by
  have hcode : c.toNat = ('0' : Char).toNat := by
    unfold digitVal at h
    show c.toNat = 48
    split at h
    · omega
    · split at h
      · omega
      · split at h <;> omega
  exact Char.toNat_inj.mp hcode

/-! ### Formats -/

/-- The directives of a format: a number in a base with the bits of its variable,
a character, a character that has to be there, and blanks. -/
inductive Directive where
  | num (base bits : ℕ)
  | chr
  | lit (c : Char)
  | blank
deriving DecidableEq, Repr

/-- What a directive stores. -/
inductive Scanned where
  | num (n : ℕ)
  | chr (c : Char)
deriving DecidableEq, Repr

/-- `sscanf`: the values of the conversions up to the first directive that fails.
Their number is the function's result, which at the end of a text is `EOF`
instead of 0. -/
def sscanf : List Char → List Directive → List Scanned
  | _, [] => []
  | s, .num base bits :: fmt =>
    match scanNumber base s with
    | none => []
    -- read as an `unsigned long` and stored in a variable of `bits` bits
    | some n => .num (n.toUnsigned % 2 ^ bits) :: sscanf n.rest fmt
  | s, .chr :: fmt =>
    match s with
    | [] => []
    | c :: s => .chr c :: sscanf s fmt
  | s, .lit c :: fmt =>
    match s with
    | [] => []
    | c' :: s => if c' = c then sscanf s fmt else []
  -- any number of blanks, also none
  | s, .blank :: fmt => sscanf (s.dropWhile isSpace) fmt

/-- A numeral is converted if its variable holds it. -/
theorem sscanf_numeral {base bits : ℕ} (n : Numeral base) {rest : List Char}
    (fmt : List Directive) (h0 : 0 < base) (hb : base ≤ 16) (hbits : bits ≤ 64)
    (hn : n.value < 2 ^ bits) (hr : Ends rest) :
    sscanf (n.digits ++ rest) (.num base bits :: fmt) = .num n.value :: sscanf rest fmt := by
  have hword : n.value < 2 ^ 64 := hn.trans_le (Nat.pow_le_pow_right (by decide) hbits)
  have huns : (Number.mk false n.value rest).toUnsigned = n.value := by
    unfold Number.toUnsigned
    rw [if_neg hword.not_ge, if_neg (by simp)]
  rw [sscanf, scanNumber_digits n.nonempty n.digit h0 hb hr]
  show Scanned.num ((Number.mk false n.value rest).toUnsigned % 2 ^ bits) :: _ = _
  rw [huns, Nat.mod_eq_of_lt hn]

/-- `%lx`. -/
theorem sscanf_lx (n : Numeral 16) (fmt : List Directive) {rest : List Char}
    (hn : n.value < 2 ^ 64) (hr : Ends rest) :
    sscanf (n.digits ++ rest) (.num 16 64 :: fmt) = .num n.value :: sscanf rest fmt :=
  sscanf_numeral n fmt (by decide) le_rfl le_rfl hn hr

/-- `%u`. -/
theorem sscanf_u (n : Numeral 10) (fmt : List Directive) {rest : List Char}
    (hn : n.value < 2 ^ 32) (hr : Ends rest) :
    sscanf (n.digits ++ rest) (.num 10 32 :: fmt) = .num n.value :: sscanf rest fmt :=
  sscanf_numeral n fmt (by decide) (by decide) (by decide) hn hr

@[simp] theorem sscanf_chr (c : Char) (s : List Char) (fmt : List Directive) :
    sscanf (c :: s) (.chr :: fmt) = .chr c :: sscanf s fmt := by
  rw [sscanf]

@[simp] theorem sscanf_lit (c : Char) (s : List Char) (fmt : List Directive) :
    sscanf (c :: s) (.lit c :: fmt) = sscanf s fmt := by
  rw [sscanf, if_pos rfl]

/-- One blank in front of a character that is none. -/
theorem sscanf_blank {c : Char} (hc : isSpace c = false) (s : List Char) (fmt : List Directive) :
    sscanf (' ' :: c :: s) (.blank :: fmt) = sscanf (c :: s) fmt := by
  rw [sscanf, List.dropWhile_cons_of_pos (by decide), List.dropWhile_cons_of_neg (by simp [hc])]

end CText
