import Mathlib.Data.List.Infix
import Mathlib.Logic.Relation
import Mathlib.Data.Nat.Notation

/-!
# Cutting the occurrences of a word

A program that removes a word from a text cuts an occurrence out, joins what is
left, and looks again, since joining may form an occurrence that was not there. One
such cut is the relation `Cut w`, and a text that no cut is left in is a `Residue`.

Every cut by a nonempty word shortens the text, so cutting ends whatever is cut
first. *What* it ends in depends on the choices in general. It does not when the word
is `Unbordered`: two occurrences of such a word never overlap (`Cut.diamond`), so
two cuts can be made in either order, and the residue is unique (`Residue.unique`).
In particular, a word appended to a text is cut off again (`Residue.of_append`).
-/

namespace Excision

open Relation

variable {α : Type*} {w s t : List α}

/-- `t` is `s` with one occurrence of `w` cut out. -/
def Cut (w s t : List α) : Prop := ∃ p q, s = p ++ w ++ q ∧ t = p ++ q

/-- `t` is what cuts make of `s`, with none left to make. -/
def Residue (w s t : List α) : Prop := ReflTransGen (Cut w) s t ∧ ¬ w <:+: t

/-- No word but the empty one and `w` itself is both a prefix and a suffix of `w`. -/
def Unbordered (w : List α) : Prop := ∀ b, b <+: w → b <:+ w → b ≠ w → b = []

/-! ### Cuts -/

theorem Cut.length (h : Cut w s t) : s.length = t.length + w.length := by
  obtain ⟨p, q, rfl, rfl⟩ := h
  calc (p ++ w ++ q).length = p.length + w.length + q.length := by
        rw [List.length_append, List.length_append]
    _ = (p.length + q.length) + w.length := Nat.add_right_comm _ _ _
    _ = (p ++ q).length + w.length := by rw [List.length_append]

/-- A cut by a nonempty word shortens the text. -/
theorem Cut.length_lt (h : Cut w s t) (hw : w ≠ []) : t.length < s.length := by
  rw [h.length]
  exact Nat.lt_add_of_pos_right (List.length_pos_of_ne_nil hw)

/-- A word appended can be cut off. -/
theorem Cut.append (u w : List α) : Cut w (u ++ w) u :=
  ⟨u, [], (List.append_nil _).symm, (List.append_nil _).symm⟩

/-- Where the word does not occur, nothing is cut. -/
theorem Cut.occurs (h : Cut w s t) : w <:+: s := by
  obtain ⟨p, q, rfl, rfl⟩ := h
  exact List.infix_append p w q

theorem Cut.eq_of_clean (hs : ¬ w <:+: s) (h : ReflTransGen (Cut w) s t) : t = s := by
  rcases h.cases_head with heq | ⟨r, hcut, -⟩
  · exact heq.symm
  · exact absurd hcut.occurs hs

/-- A text without the word is its own residue. -/
theorem Residue.refl (hs : ¬ w <:+: s) : Residue w s s := ⟨ReflTransGen.refl, hs⟩

/-- What is left after a cut is left of the whole. -/
theorem Residue.head {r : List α} (hcut : Cut w s r) (h : Residue w r t) : Residue w s t :=
  ⟨ReflTransGen.head hcut h.1, h.2⟩

/-! ### Unbordered words -/

/-- Of two occurrences of an unbordered word, the second starts where the first does or
behind its end. -/
theorem Unbordered.apart (hw : Unbordered w) {a q q' : List α} (h : w ++ q = a ++ w ++ q') :
    a = [] ∨ ∃ b, a = w ++ b ∧ q = b ++ w ++ q' := by
  rw [List.append_assoc] at h
  rcases List.append_eq_append_iff.mp h with ⟨b, ha, hq⟩ | ⟨b, hab, hb⟩
  · right
    exact ⟨b, ha, by rw [hq, List.append_assoc]⟩
  · -- the second occurrence starts within the first, and they share `b`
    have hsuf : b <:+ w := ⟨a, hab.symm⟩
    have hpre : b <+: w :=
      List.prefix_of_prefix_length_le ⟨q, hb.symm⟩ (List.prefix_append w q') hsuf.length_le
    by_cases hbw : b = w
    · left
      rw [hbw] at hab
      exact List.append_left_eq_self.mp hab.symm
    · right
      have hb0 : b = [] := hw b hpre hsuf hbw
      rw [hb0, List.append_nil] at hab
      rw [hb0, List.nil_append] at hb
      refine ⟨[], ?_, ?_⟩
      · rw [hab, List.append_nil]
      · rw [List.nil_append]
        exact hb.symm

/-- If the piece from the last letter `d` on occurs before the end, then it occurs in what is
in front of it. -/
theorem occurs_of_lastPiece {d : α} {c r u x : List α} (hx : d ∉ x) (hr : r ≠ [])
    (h : c ++ d :: x ++ r = u ++ d :: x) : d :: x <:+: u := by
  rw [List.append_assoc] at h
  rcases List.append_eq_append_iff.mp h with ⟨a, rfl, ha⟩ | ⟨a, rfl, ha⟩
  · cases a with
    | nil => exact absurd (List.append_right_eq_self.mp ha) hr
    | cons e a =>
      rw [List.cons_append, List.cons_append, List.cons.injEq] at ha
      obtain ⟨rfl, ha⟩ := ha
      rcases List.append_eq_append_iff.mp ha with ⟨e, rfl, -⟩ | ⟨e, rfl, he⟩
      · exact ⟨c, e, List.append_assoc _ _ _⟩
      · -- the letter would stand in the piece once more, unless the piece ends here
        cases e with
        | nil => exact ⟨c, [], by simp⟩
        | cons e' e =>
          rw [List.cons_append, List.cons.injEq] at he
          obtain ⟨rfl, -⟩ := he
          exact absurd (List.mem_append_right a List.mem_cons_self) hx
  · -- the occurrence starts no earlier than the last piece, and nothing is behind it
    have hlen : (d :: x).length = (a ++ (d :: x ++ r)).length := congrArg List.length ha
    have hpos : 0 < r.length := List.length_pos_of_ne_nil hr
    simp only [List.length_append] at hlen
    omega

/-- A word that starts with a letter is unbordered if its last piece, from the last such
letter on, does not occur before. -/
theorem Unbordered.of_lastPiece {d : α} {u x : List α} (hhead : u.head? = some d) (hx : d ∉ x)
    (hu : ¬ d :: x <:+: u) : Unbordered (u ++ d :: x) := by
  rintro b ⟨r, hr⟩ hsuf hne
  by_contra hb
  have hr0 : r ≠ [] := by
    rintro rfl
    exact hne (by rw [← hr, List.append_nil])
  have hd : d ∈ b := by
    apply List.mem_of_mem_head?
    calc b.head? = (b ++ r).head? := (List.head?_append_of_ne_nil b hb).symm
      _ = u.head?.or (d :: x).head? := by rw [hr, List.head?_append]
      _ = some d := by rw [hhead, Option.some_or]
  -- a suffix with the letter in it takes in the last piece
  have hpiece : d :: x <:+ b := by
    rcases List.suffix_or_suffix_of_suffix hsuf (List.suffix_append u (d :: x)) with h | h
    · rcases List.suffix_cons_iff.mp h with rfl | h
      · exact List.suffix_rfl
      · exact absurd (h.subset hd) hx
    · exact h
  obtain ⟨c, rfl⟩ := hpiece
  exact hu (occurs_of_lastPiece hx hr0 hr)

/-- Two cuts, the second of which starts no earlier, give the same or can be made one
after the other. -/
theorem Unbordered.joins (hw : Unbordered w) (p : List α) {a q q' : List α}
    (h : w ++ q = a ++ w ++ q') :
    p ++ q = p ++ a ++ q' ∨ ∃ r, Cut w (p ++ q) r ∧ Cut w (p ++ a ++ q') r := by
  rcases hw.apart h with rfl | ⟨b, rfl, rfl⟩
  · left
    rw [List.nil_append] at h
    rw [List.append_nil, List.append_cancel_left h]
  · right
    refine ⟨p ++ b ++ q', ⟨p ++ b, q', ?_, rfl⟩, ⟨p, b ++ q', ?_, ?_⟩⟩
    · simp only [List.append_assoc]
    · simp only [List.append_assoc]
    · rw [List.append_assoc]

/-- **Diamond.** Two cuts by an unbordered word give the same text, or one that a further
cut brings together. -/
theorem Cut.diamond {t' : List α} (hw : Unbordered w) (h : Cut w s t) (h' : Cut w s t') :
    t = t' ∨ ∃ r, Cut w t r ∧ Cut w t' r := by
  obtain ⟨p, q, hs, rfl⟩ := h
  obtain ⟨p', q', hs', rfl⟩ := h'
  have heq : p ++ (w ++ q) = p' ++ (w ++ q') := by
    rw [← List.append_assoc, ← List.append_assoc, ← hs, ← hs']
  -- either occurrence may be the one in front
  rcases List.append_eq_append_iff.mp heq with ⟨a, rfl, ha⟩ | ⟨a, rfl, ha⟩
  · rw [← List.append_assoc] at ha
    exact hw.joins p ha
  · rw [← List.append_assoc] at ha
    rcases hw.joins p' ha with hsame | ⟨r, hr, hr'⟩
    · exact Or.inl hsame.symm
    · exact Or.inr ⟨r, hr', hr⟩

theorem Cut.join {t' : List α} (hw : Unbordered w) (h : ReflTransGen (Cut w) s t)
    (h' : ReflTransGen (Cut w) s t') : Join (ReflTransGen (Cut w)) t t' := by
  refine church_rosser ?_ h h'
  intro a b c hab hac
  rcases Cut.diamond hw hab hac with rfl | ⟨r, hbr, hcr⟩
  · exact ⟨b, ReflGen.refl, ReflTransGen.refl⟩
  · exact ⟨r, ReflGen.single hbr, ReflTransGen.single hcr⟩

/-- **Unique residues.** The order of the cuts does not matter. -/
theorem Residue.unique {t' : List α} (hw : Unbordered w) (h : Residue w s t)
    (h' : Residue w s t') : t = t' := by
  obtain ⟨r, hr, hr'⟩ := Cut.join hw h.1 h'.1
  calc t = r := (Cut.eq_of_clean h.2 hr).symm
    _ = t' := Cut.eq_of_clean h'.2 hr'

/-- An unbordered word appended to a text does not change the residue. -/
theorem Residue.of_append {u t' : List α} (hw : Unbordered w) (h : Residue w (u ++ w) t)
    (h' : Residue w u t') : t = t' :=
  h.unique hw (h'.head (Cut.append u w))

end Excision
