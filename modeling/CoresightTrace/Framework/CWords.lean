import CoresightTrace.Framework.CPrint

/-!
# Texts of words

A text is cut into words at its blanks: by a shell, which passes the words on as
arguments, or by the directive `%s` of `sscanf`, which reads the first of them. Which
characters are blank is a parameter.

* `words_spaced_iff` — words that are printed with a space in front of each are read back
  exactly if they are words, that is not empty and without blanks;
* `suffix_of_words` — a word that stands at the end of a part of a text, in front of a
  blank, is the end of a word of the text;
* `fgets_line` — the pieces in which a line is read that is longer than the buffer. The
  first word of a piece may be the end of a word of the line.
-/

namespace CText

variable {blank : Char → Bool}

/-- The words of a text. -/
def words (blank : Char → Bool) (s : List Char) : List (List Char) :=
  (s.splitOnP blank).filter (· ≠ [])

/-- Neither empty nor with a blank in it. -/
def IsWord (blank : Char → Bool) (w : List Char) : Prop := w ≠ [] ∧ ∀ c ∈ w, blank c = false

/-- Words with a space in front of each. -/
def spaced (ws : List (List Char)) : List Char := ws.flatMap (' ' :: ·)

/-- A property of the characters of a text, checked one by one. The search for an instance
may otherwise end at all the characters there are. -/
theorem forall_mem_of_all {s : List Char} {p : Char → Prop} [DecidablePred p]
    (h : s.all (fun c => decide (p c)) = true) : ∀ c ∈ s, p c := by
  intro c hc
  exact of_decide_eq_true (List.all_eq_true.mp h c hc)

theorem words_append {c : Char} (hc : blank c = true) (a b : List Char) :
    words blank (a ++ c :: b) = words blank a ++ words blank b := by
  unfold words
  rw [List.splitOnP_append_cons a b hc, List.filter_append]

theorem IsWord.words {w : List Char} (h : IsWord blank w) : CText.words blank w = [w] := by
  unfold CText.words
  rw [List.splitOnP_eq_singleton h.2]
  exact List.filter_cons_of_pos (by simpa using h.1)

/-- A text is cut into words only. -/
theorem isWord_of_mem_words {s w : List Char} (h : w ∈ words blank s) : IsWord blank w := by
  unfold words at h
  obtain ⟨hmem, hne⟩ := List.mem_filter.mp h
  refine ⟨by simpa using hne, ?_⟩
  clear hne h
  -- the pieces between two blanks have none
  induction s generalizing w with
  | nil =>
    rw [List.splitOnP_nil, List.mem_singleton] at hmem
    simp [hmem]
  | cons a s ih =>
    rw [List.splitOnP_cons_eq_if_modifyHead] at hmem
    split at hmem
    · rcases List.mem_cons.mp hmem with rfl | hmem
      · simp
      · exact ih hmem
    · next ha =>
      cases hsplit : s.splitOnP blank with
      | nil => exact absurd hsplit (List.splitOnP_ne_nil _ _)
      | cons v vs =>
        rw [hsplit] at hmem ih
        rcases List.mem_cons.mp hmem with rfl | hmem
        · rintro c (_ | ⟨_, hc⟩)
          · simpa using ha
          · exact ih List.mem_cons_self c hc
        · exact ih (List.mem_cons_of_mem v hmem)

/-- **Words are read back** exactly if they are words. -/
theorem words_spaced_iff (hspace : blank ' ' = true) (ws : List (List Char)) :
    words blank (spaced ws) = ws ↔ ∀ w ∈ ws, IsWord blank w := by
  constructor
  · intro heq w hw
    rw [← heq] at hw
    exact isWord_of_mem_words hw
  · intro hall
    induction ws with
    | nil => rfl
    | cons w ws ih =>
      have hw := hall w List.mem_cons_self
      have hrest := ih fun w' hw' => hall w' (List.mem_cons_of_mem w hw')
      have hfront : words blank (spaced (w :: ws)) = words blank (w ++ spaced ws) :=
        words_append hspace [] (w ++ spaced ws)
      rw [hfront]
      cases ws with
      | nil => exact (List.append_nil w).symm ▸ hw.words
      | cons v vs =>
        change words blank (w ++ ' ' :: (v ++ spaced vs)) = _
        rw [words_append hspace, hw.words]
        have hspaced : words blank (spaced (v :: vs)) = words blank (v ++ spaced vs) :=
          words_append hspace [] (v ++ spaced vs)
        rw [hspaced] at hrest
        rw [hrest]
        rfl

/-- What a text ends with is the end of its last word, if it is a word itself. -/
theorem words_append_word {w : List Char} (hw : IsWord blank w) (a : List Char) :
    ∃ ws u, words blank (a ++ w) = ws ++ [u ++ w] := by
  -- by the last blank of the text, if it has one
  induction a using List.reverseRecOn generalizing w with
  | nil => exact ⟨[], [], hw.words⟩
  | append_singleton a c ih =>
    rw [List.append_assoc, List.singleton_append]
    cases hc : blank c with
    | true =>
      rw [words_append hc, hw.words]
      exact ⟨words blank a, [], rfl⟩
    | false =>
      have hcw : IsWord blank (c :: w) := by
        refine ⟨List.cons_ne_nil c w, ?_⟩
        rintro d (_ | ⟨_, hd⟩)
        · exact hc
        · exact hw.2 d hd
      obtain ⟨ws, u, hws⟩ := ih hcw
      exact ⟨ws, u ++ [c], by rw [hws]; simp⟩

/-- **A word in front of a blank** is the end of a word of the text. -/
theorem suffix_of_words {w : List Char} (hw : IsWord blank w) {c : Char} (hc : blank c = true)
    (a b : List Char) : ∃ v ∈ words blank (a ++ w ++ c :: b), w <:+ v := by
  obtain ⟨ws, u, hws⟩ := words_append_word hw a
  rw [words_append hc, hws]
  exact ⟨u ++ w, by simp, ⟨u, rfl⟩⟩

/-! ### The first word -/

/-- The directive `%s` with a width: the first word, cut off at the width. -/
def firstWord (blank : Char → Bool) (width : ℕ) (s : List Char) : List Char :=
  ((s.dropWhile blank).takeWhile (!blank ·)).take width

theorem firstWord_of_word {w : List Char} (hw : IsWord blank w) {width : ℕ}
    (hlen : w.length ≤ width) {c : Char} (hc : blank c = true) (rest : List Char) :
    firstWord blank width (w ++ c :: rest) = w := by
  have hall : ∀ d ∈ w, (!blank d) = true := fun d hd => by simp [hw.2 d hd]
  obtain ⟨a, v, rfl⟩ := List.exists_cons_of_ne_nil hw.1
  have ha : ¬ blank a = true := by simp [hw.2 a List.mem_cons_self]
  unfold firstWord
  rw [List.cons_append, List.dropWhile_cons_of_neg ha, ← List.cons_append,
    List.takeWhile_append_of_pos hall, List.takeWhile_cons_of_neg (by simp [hc]), List.append_nil,
    List.take_of_length_le hlen]

/-- Where the first word stands, if it was not cut off. -/
theorem eq_of_firstWord {s w : List Char} {width : ℕ} (h : firstWord blank width s = w)
    (hlen : w.length < width) :
    ∃ front rest, s = front ++ w ++ rest ∧ (∀ c ∈ front, blank c = true) ∧
      (rest = [] ∨ ∃ c rest', rest = c :: rest' ∧ blank c = true) := by
  unfold firstWord at h
  have hwhole : (s.dropWhile blank).takeWhile (!blank ·) = w := by
    rw [← h, List.length_take] at hlen
    rw [← h, List.take_of_length_le (by omega)]
  refine ⟨s.takeWhile blank, (s.dropWhile blank).dropWhile (!blank ·), ?_, ?_, ?_⟩
  · rw [← hwhole, List.append_assoc, List.takeWhile_append_dropWhile,
      List.takeWhile_append_dropWhile]
  · exact fun c hc => List.mem_takeWhile_imp hc
  · cases hrest : (s.dropWhile blank).dropWhile (!blank ·) with
    | nil => exact .inl rfl
    | cons c rest =>
      have hhead := List.head?_dropWhile_not (!blank ·) (s.dropWhile blank)
      rw [hrest, List.head?_cons] at hhead
      exact .inr ⟨c, rest, rfl, by simpa using hhead⟩

/-- The text is cut in front of each word, and at the end. -/
theorem splitOnP_spaced {ws : List (List Char)} (hall : ∀ w ∈ ws, IsWord blank w)
    (hspace : blank ' ' = true) {c : Char} (hc : blank c = true) :
    (spaced ws ++ [c]).splitOnP blank = [] :: (ws ++ [[]]) := by
  induction ws with
  | nil => exact List.splitOnP_append_cons [] [] hc
  | cons w ws ih =>
    have hw := hall w List.mem_cons_self
    have hrest := ih fun w' hw' => hall w' (List.mem_cons_of_mem w hw')
    -- what follows the word starts with a blank, of the next word or the last one
    obtain ⟨d, r, hd, hdr⟩ : ∃ d r, blank d = true ∧ spaced ws ++ [c] = d :: r := by
      cases ws with
      | nil => exact ⟨c, [], hc, rfl⟩
      | cons v vs => exact ⟨' ', _, hspace, rfl⟩
    have hfront : (d :: r).splitOnP blank = [] :: r.splitOnP blank :=
      List.splitOnP_append_cons [] r hd
    rw [hdr, hfront, List.cons_inj_right] at hrest
    have htext : spaced (w :: ws) ++ [c] = [] ++ ' ' :: (w ++ d :: r) := by
      rw [← hdr]
      simp [spaced]
    rw [htext, List.splitOnP_append_cons _ _ hspace, List.splitOnP_nil,
      List.splitOnP_append_cons_of_forall_mem hw.2 d hd, hrest]
    rfl

/-- Between words with one space in front of each there are no two blanks. -/
theorem not_two_blanks {ws : List (List Char)} (hall : ∀ w ∈ ws, IsWord blank w)
    (hspace : blank ' ' = true) {c c₁ c₂ : Char} (hc : blank c = true) (h₁ : blank c₁ = true)
    (h₂ : blank c₂ = true) (a b : List Char) : spaced ws ++ [c] ≠ a ++ c₁ :: c₂ :: b := by
  intro heq
  have hsplit := splitOnP_spaced hall hspace hc
  rw [heq, List.splitOnP_append_cons _ _ h₁, ← List.nil_append (c₂ :: b),
    List.splitOnP_append_cons _ _ h₂, List.splitOnP_nil] at hsplit
  obtain ⟨x, A, hA⟩ := List.exists_cons_of_ne_nil (List.splitOnP_ne_nil blank a)
  obtain ⟨B, y, hB⟩ :=
    (List.eq_nil_or_concat' (b.splitOnP blank)).resolve_left (List.splitOnP_ne_nil blank b)
  rw [hA, hB, List.cons_append, List.cons.injEq, ← List.append_assoc, ← List.append_assoc] at hsplit
  -- the piece between the two blanks would be one of the words
  have hws := (List.append_inj' hsplit.2 rfl).1
  have hmem : [] ∈ ws := by
    rw [← hws]
    simp
  exact (hall [] hmem).1 rfl

/-! ### Lines in pieces -/

/-- **A line and the rest**: the first piece, and pieces that start behind it. -/
theorem fgets_line {n : ℕ} (hn : 0 < n) {w : List Char} (hw : '\n' ∉ w) (rest : List Char) :
    ∃ ps, fgets n n (w ++ '\n' :: rest) = (w ++ ['\n']).take n :: (ps ++ fgets n n rest) ∧
      ∀ p ∈ ps, ∃ a b, w ++ ['\n'] = a ++ p ++ b ∧ n ≤ a.length ∧ (p.length = n ∨ b = []) := by
  induction hk : w.length using Nat.strong_induction_on generalizing w with
  | _ k ih =>
    by_cases hfits : w.length < n
    · refine ⟨[], ?_, by simp⟩
      rw [fgets_short hw hfits, List.take_of_length_le (by simpa using Nat.succ_le_of_lt hfits)]
      rfl
    · have hlen : n ≤ w.length := Nat.le_of_not_lt hfits
      have hdrop : '\n' ∉ w.drop n := fun hc => hw (List.mem_of_mem_drop hc)
      obtain ⟨ps, hps, hpieces⟩ := ih (w.drop n).length (by rw [List.length_drop]; omega) hdrop rfl
      refine ⟨(w.drop n ++ ['\n']).take n :: ps, ?_, ?_⟩
      · rw [fgets_long hw hn hlen, hps, List.take_append_of_le_length hlen]
        rfl
      · rintro p (_ | ⟨_, hp⟩)
        · refine ⟨w.take n, (w.drop n ++ ['\n']).drop n, ?_, ?_, ?_⟩
          · rw [List.append_assoc, List.take_append_drop, ← List.append_assoc,
              List.take_append_drop]
          · rw [List.length_take]
            omega
          · rw [List.length_take, List.drop_eq_nil_iff]
            omega
        · obtain ⟨a, b, heq, ha, hend⟩ := hpieces p hp
          refine ⟨w.take n ++ a, b, ?_, ?_, hend⟩
          · rw [List.append_assoc, List.append_assoc, ← List.append_assoc a, ← heq,
              ← List.append_assoc, List.take_append_drop]
          · rw [List.length_append]
            omega

end CText
