import CoresightTrace.Framework.CString

/-!
# What `printf` writes

The other direction of `Framework/CText.lean`: the text a number is printed as, and
what `strtol` and `sscanf` read of it. A number that is printed without padding is
read back as it was by the conversion of its base (`scanNumber_printed`), and a number with
the mark `0x` in front also where the text is to say its base (`scanNumber_marked`).

A text of figures has a label on each line, and after a colon the figures, with a slash
between two of them. `figures` reads those of a label, and `figures_entriesText` says
that they are what was printed on its line.
-/

namespace CText

/-! ### Digits -/

theorem digitVal_digitChar {d : ℕ} (h : d < 16) : digitVal (Nat.digitChar d) = d := by
  have hall : ∀ d : Fin 16, digitVal (Nat.digitChar d) = d := by decide
  exact hall ⟨d, h⟩

theorem ofDigits_concat (base : ℕ) (ds : List Char) (c : Char) :
    ofDigits base (ds ++ [c]) = ofDigits base ds * base + digitVal c := by
  unfold ofDigits
  rw [List.foldl_append]
  rfl

/-- `%u` with base 10, `%x` with base 16, of any width of the variable. -/
def printed (base n : ℕ) : List Char := Nat.toDigits base n

theorem printed_ne_nil (base n : ℕ) : printed base n ≠ [] := Nat.toDigits_ne_nil

section Printed

variable {base : ℕ}

/-- The last digit is the remainder, and in front of it stands the quotient. -/
theorem printed_eq (h : 1 < base) (n : ℕ) :
    printed base n =
      if n < base then [Nat.digitChar n]
      else printed base (n / base) ++ [Nat.digitChar (n % base)] :=
  Nat.toDigits_eq_if h

theorem printed_digit (h : 1 < base) (hb : base ≤ 16) (n : ℕ) :
    ∀ c ∈ printed base n, digitVal c < base := by
  induction n using Nat.strong_induction_on with
  | h n ih =>
    intro c hc
    rw [printed_eq h] at hc
    split at hc
    · next hn =>
      rw [List.mem_singleton.mp hc, digitVal_digitChar (hn.trans_le hb)]
      exact hn
    · next hn =>
      rcases List.mem_append.mp hc with hc | hc
      · exact ih _ (Nat.div_lt_self (by omega) h) c hc
      · have hmod : n % base < base := Nat.mod_lt n (by omega)
        rw [List.mem_singleton.mp hc, digitVal_digitChar (hmod.trans_le hb)]
        exact hmod

/-- **The digits denote the number.** -/
theorem ofDigits_printed (h : 1 < base) (hb : base ≤ 16) (n : ℕ) :
    ofDigits base (printed base n) = n := by
  induction n using Nat.strong_induction_on with
  | h n ih =>
    rw [printed_eq h]
    split
    · next hn =>
      calc ofDigits base [Nat.digitChar n]
        _ = 0 * base + digitVal (Nat.digitChar n) := rfl
        _ = n := by rw [digitVal_digitChar (hn.trans_le hb), Nat.zero_mul, Nat.zero_add]
    · next hn =>
      have hmod : n % base < base := Nat.mod_lt n (by omega)
      calc ofDigits base (printed base (n / base) ++ [Nat.digitChar (n % base)])
        _ = ofDigits base (printed base (n / base)) * base + digitVal (Nat.digitChar (n % base)) :=
            ofDigits_concat _ _ _
        _ = n / base * base + n % base := by
            rw [ih _ (Nat.div_lt_self (by omega) h), digitVal_digitChar (hmod.trans_le hb)]
        _ = n := Nat.div_add_mod' n base

/-- **A number is read back as it was printed.** -/
theorem scanNumber_printed (h : 1 < base) (hb : base ≤ 16) (n : ℕ) {rest : List Char}
    (hr : Ends rest) : scanNumber base (printed base n ++ rest) = some ⟨false, n, rest⟩ := by
  rw [scanNumber_digits (printed_ne_nil base n) (printed_digit h hb n) (by omega) hb hr,
    ofDigits_printed h hb]

/-- A character that is no digit is in no number. -/
theorem notMem_printed (h : 1 < base) (hb : base ≤ 16) (n : ℕ) {c : Char}
    (hc : digitVal c = 36) : c ∉ printed base n := by
  intro hmem
  have hlt := printed_digit h hb n c hmem
  omega

end Printed

/-- Blanks in front of a number are skipped. -/
theorem scanNumber_blank (base : ℕ) {c : Char} (hc : isSpace c = true) (s : List Char) :
    scanNumber base (c :: s) = scanNumber base s := by
  unfold scanNumber
  rw [List.dropWhile_cons_of_pos hc]

/-- **A marked number is read back**, where the base is 16 and where the text says it. -/
theorem scanNumber_marked {base : ℕ} (hbase : base = 0 ∨ base = 16) (n : ℕ) {rest : List Char}
    (hr : Ends rest) :
    scanNumber base ('0' :: 'x' :: (printed 16 n ++ rest)) = some ⟨false, n, rest⟩ := by
  have hdigits := printed_digit (by decide : 1 < 16) le_rfl n
  obtain ⟨htake, hdrop⟩ := takeWhile_digits hdigits (by decide) hr
  have hmark : marksHex ('0' :: 'x' :: (printed 16 n ++ rest)) = true := by
    obtain ⟨d, ds, hds⟩ := List.exists_cons_of_ne_nil (printed_ne_nil 16 n)
    have hd : isDigit 16 d = true := isDigit_eq_true.mpr (hdigits d (by simp [hds]))
    simp [marksHex, hds, hd]
  have htext : takeSign (('0' :: 'x' :: (printed 16 n ++ rest)).dropWhile isSpace) =
      (false, '0' :: 'x' :: (printed 16 n ++ rest)) := rfl
  have hbased : takeBase base ('0' :: 'x' :: (printed 16 n ++ rest)) =
      (16, printed 16 n ++ rest) := by
    unfold takeBase
    rw [if_pos ⟨hbase, hmark⟩]
    rfl
  unfold scanNumber
  rw [htext]
  simp only [hbased, htake, hdrop, if_neg (printed_ne_nil 16 n), ofDigits_printed _ le_rfl,
    Nat.one_lt_ofNat]

/-! ### Labelled figures -/

/-- A line: its label, up to the colon, and its figures. -/
structure Entry where
  label : String
  values : List ℕ

/-- The figures of a line as they are printed. -/
def valuesText (vs : List ℕ) : List Char := ['/'].intercalate (vs.map (printed 10))

/-- A line without its newline. -/
def Entry.text (e : Entry) : List Char := e.label.toList ++ ':' :: ' ' :: valuesText e.values

/-- The text of the lines. -/
def entriesText (es : List Entry) : List Char := (es.map Entry.text).flatMap (· ++ ['\n'])

/-- The figures in a text. -/
def readValues (s : List Char) : List ℕ :=
  (s.splitOn '/').filterMap fun w => (scanNumber 10 w).map (·.magnitude)

/-- The figures after a label; none where there is no such line. -/
def figures (label : String) (text : List Char) : List ℕ :=
  match (records '\n' text).find? ((label.toList ++ [':']).isPrefixOf ·) with
  | none => []
  | some line => readValues ((line.drop (label.toList.length + 2)).dropLast)

/-- The label can be told from the figures, and the line from the others. -/
def Entry.Plain (e : Entry) : Prop :=
  ':' ∉ e.label.toList ∧ '\n' ∉ e.label.toList ∧ e.values ≠ []

instance (e : Entry) : Decidable e.Plain := inferInstanceAs (Decidable (_ ∧ _ ∧ _))

/-- The figures are read as they were printed. -/
theorem readValues_valuesText {vs : List ℕ} (hne : vs ≠ []) : readValues (valuesText vs) = vs := by
  have hslash : ∀ w ∈ vs.map (printed 10), '/' ∉ w := by
    intro w hw
    obtain ⟨v, -, rfl⟩ := List.mem_map.mp hw
    exact notMem_printed (by decide) (by decide) v rfl
  have hread : ((fun w => (scanNumber 10 w).map (·.magnitude)) ∘ printed 10) = some := by
    ext1 v
    have hscan : scanNumber 10 (printed 10 v ++ []) = some ⟨false, v, []⟩ :=
      scanNumber_printed (by decide) (by decide) v (by simp [Ends])
    rw [List.append_nil] at hscan
    simp [hscan]
  unfold readValues valuesText
  rw [List.splitOn_intercalate '/' hslash (by simpa using hne), List.filterMap_map, hread,
    List.filterMap_some]

/-- A label is in front of its own line only. -/
theorem isPrefixOf_line {e : Entry} (he : e.Plain) {label : String} (hl : ':' ∉ label.toList)
    (rest : List Char) :
    (label.toList ++ [':']).isPrefixOf (e.text ++ rest) = decide (e.label = label) := by
  rw [Bool.eq_iff_iff, List.isPrefixOf_iff_prefix, decide_eq_true_iff]
  unfold Entry.text
  constructor
  · rintro ⟨more, hmore⟩
    -- what is in front of the first colon is the label of either
    have hcut := congrArg (List.takeWhile (· ≠ ':')) hmore
    rw [List.append_assoc, List.singleton_append, takeWhile_delim hl, List.append_assoc,
      List.cons_append, takeWhile_delim he.1] at hcut
    exact String.ext hcut.symm
  · rintro rfl
    exact ⟨' ' :: valuesText e.values ++ rest, by simp⟩

/-- Figures are printed in digits and slashes. -/
theorem notMem_valuesText (vs : List ℕ) {c : Char} (hc : digitVal c = 36) (hslash : c ≠ '/') :
    c ∉ valuesText vs := by
  have hdigit (v : ℕ) : c ∉ printed 10 v := notMem_printed (by decide) (by decide) v hc
  unfold valuesText
  induction vs with
  | nil => simp
  | cons v vs ih =>
    rw [List.map_cons]
    by_cases hnil : vs = []
    · simp [hnil, hdigit]
    · rw [List.intercalate_cons_of_ne_nil (by simpa using hnil)]
      simp [hdigit, hslash, ih]

theorem Entry.Plain.notMem {e : Entry} (he : e.Plain) : '\n' ∉ e.text := by
  have hvalues := notMem_valuesText e.values (c := '\n') rfl (by decide)
  simp [Entry.text, he.2.1, hvalues]

/-- The line that is found for a label. -/
theorem find?_records {es : List Entry} (hplain : ∀ e ∈ es, e.Plain) {label : String}
    (hl : ':' ∉ label.toList) :
    (records '\n' (entriesText es)).find? ((label.toList ++ [':']).isPrefixOf ·) =
      (es.find? (·.label = label)).map (·.text ++ ['\n']) := by
  have hlines : ∀ l ∈ es.map Entry.text, '\n' ∉ l := by
    intro l hmem
    obtain ⟨e, he, rfl⟩ := List.mem_map.mp hmem
    exact (hplain e he).notMem
  unfold entriesText
  rw [records_lines hlines, List.map_map]
  clear hlines
  induction es with
  | nil => rfl
  | cons e es ih =>
    rw [List.map_cons, List.find?_cons, List.find?_cons, Function.comp_apply,
      isPrefixOf_line (hplain e List.mem_cons_self) hl,
      ih fun e' he' => hplain e' (List.mem_cons_of_mem e he')]
    cases decide (e.label = label) <;> rfl

/-- **The figures of a label** are those that were printed after it. -/
theorem figures_entriesText {es : List Entry} (hplain : ∀ e ∈ es, e.Plain) {label : String}
    (hl : ':' ∉ label.toList) :
    figures label (entriesText es) = ((es.find? (·.label = label)).map (·.values)).getD [] := by
  unfold figures
  rw [find?_records hplain hl]
  cases hfind : es.find? (·.label = label) with
  | none => rfl
  | some e =>
    have hlabel : e.label = label := by simpa using List.find?_some hfind
    have hvalues : ((e.text ++ ['\n']).drop (label.toList.length + 2)).dropLast =
        valuesText e.values := by
      unfold Entry.text
      rw [hlabel, List.append_assoc, List.drop_append]
      simp
    change readValues _ = e.values
    rw [hvalues]
    exact readValues_valuesText (hplain e (List.mem_of_find?_eq_some hfind)).2.2

end CText
