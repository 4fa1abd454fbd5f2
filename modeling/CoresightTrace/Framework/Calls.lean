import Mathlib.Data.List.Basic
import Mathlib.Logic.Function.Basic
import Mathlib.Data.Nat.Notation

/-!
# Calls that count their errors

A driver does its work by calls into a library that keeps a count of the errors it met. The
result of a call is looked at or not; in places the driver looks at the count instead, which
catches what was not looked at, and whatever was counted before.

* `Op` is what a function of the driver does: a call, checked or not, or a test of the count.
  What a call does to the state when it fails is left open.
* `Tested.perform_iff` — a function that ends with a test returns without an error exactly
  if nothing was counted before and none of its calls counts anything; then it has done what
  its calls do (`Tested.perform_eq`).
* `attempt` is the loop that repeats such a function and clears the count in between. One
  clean attempt is enough (`attempt_of_clean`), and what it returns with is one
  (`attempt_ok`).
-/

namespace Calls

/-- What a call answers: whether it fails, and the errors it counts. -/
structure Outcome where
  failed : Bool
  errors : ℕ
  /-- A failure is counted. -/
  counted : failed = true → 0 < errors

/-- What a function does next. -/
inductive Op (σ : Type*) where
  /-- A call. `done` is what it does, and `left` what it leaves where it fails. -/
  | call (checked : Bool) (o : Outcome) (done left : σ → σ)
  /-- The count is tested. -/
  | test

/-- How a function returns. -/
structure Result (σ : Type*) where
  ok : Bool
  count : ℕ
  state : σ

variable {σ : Type*}

/-- A function, from a count and a state. It returns where a checked call fails and where a
test finds an error. -/
def perform : List (Op σ) → ℕ → σ → Result σ
  | [], k, s => ⟨true, k, s⟩
  | .test :: ops, k, s => if 0 < k then ⟨false, k, s⟩ else perform ops k s
  | .call checked o done left :: ops, k, s =>
    if o.failed then
      if checked then ⟨false, k + o.errors, left s⟩ else perform ops (k + o.errors) (left s)
    else perform ops (k + o.errors) (done s)

theorem perform_test (ops : List (Op σ)) (k : ℕ) (s : σ) :
    perform (.test :: ops) k s = if 0 < k then ⟨false, k, s⟩ else perform ops k s := rfl

theorem perform_call (checked : Bool) (o : Outcome) (done left : σ → σ) (ops : List (Op σ))
    (k : ℕ) (s : σ) :
    perform (.call checked o done left :: ops) k s =
      if o.failed then
        if checked then ⟨false, k + o.errors, left s⟩ else perform ops (k + o.errors) (left s)
      else perform ops (k + o.errors) (done s) := rfl

/-- The errors it counts. -/
def Op.errors : Op σ → ℕ
  | .call _ o _ _ => o.errors
  | .test => 0

/-- What it does where it does not fail. -/
def Op.done : Op σ → σ → σ
  | .call _ _ done _ => done
  | .test => id

/-- Nothing that is done counts an error. -/
def Clean (ops : List (Op σ)) : Prop := ∀ op ∈ ops, op.errors = 0

/-- What is done one by one. -/
def doneAll (ops : List (Op σ)) (s : σ) : σ := ops.foldl (fun s op => op.done s) s

theorem clean_append {a b : List (Op σ)} : Clean (a ++ b) ↔ Clean a ∧ Clean b := by
  unfold Clean
  exact List.forall_mem_append

@[simp]
theorem doneAll_nil (s : σ) : doneAll [] s = s := rfl

@[simp]
theorem doneAll_cons (op : Op σ) (ops : List (Op σ)) (s : σ) :
    doneAll (op :: ops) s = doneAll ops (op.done s) := rfl

@[simp]
theorem doneAll_append (a b : List (Op σ)) (s : σ) :
    doneAll (a ++ b) s = doneAll b (doneAll a s) :=
  List.foldl_append

/-- **A loop over devices**, each of which is set to `b`. They are read off the state by
`get` and put back by `P`. -/
theorem doneAll_loop {ι β : Type*} [DecidableEq ι] {get : σ → ι → β} {P : σ → (ι → β) → σ}
    (hget : ∀ s f, get (P s f) = f) (hset : ∀ s f g, P (P s f) g = P s g)
    (hsame : ∀ s, P s (get s) = s) {ops : ι → List (Op σ)} {b : β}
    (hops : ∀ i s, doneAll (ops i) s = P s (Function.update (get s) i b)) (l : List ι) (s : σ) :
    doneAll (l.flatMap ops) s = P s fun i => if i ∈ l then b else get s i := by
  induction l generalizing s with
  | nil => simpa using (hsame s).symm
  | cons i l ih =>
    rw [List.flatMap_cons, doneAll_append, hops, ih, hset, hget]
    congr 1
    ext j
    by_cases hj : j = i
    · simp [hj]
    · simp [hj]

/-- A call that counts nothing does not fail. -/
theorem Outcome.not_failed {o : Outcome} (h : o.errors = 0) : o.failed = false := by
  by_contra hfailed
  rw [Bool.not_eq_false] at hfailed
  have hpos := o.counted hfailed
  omega

/-- **Without errors everything is done.** -/
theorem perform_clean {ops : List (Op σ)} (h : Clean ops) (s : σ) :
    perform ops 0 s = ⟨true, 0, doneAll ops s⟩ := by
  induction ops generalizing s with
  | nil => rfl
  | cons op ops ih =>
    obtain ⟨hop, hops⟩ := List.forall_mem_cons.mp h
    cases op with
    | test => exact ih hops s
    | call checked o done left =>
      change o.errors = 0 at hop
      rw [perform_call, o.not_failed hop, hop, if_neg Bool.false_ne_true]
      exact ih hops (done s)

/-- Where nothing is counted in the end, nothing was counted. -/
theorem clean_of_perform {ops : List (Op σ)} {k : ℕ} {s : σ} (hok : (perform ops k s).ok = true)
    (hcount : (perform ops k s).count = 0) : k = 0 ∧ Clean ops := by
  induction ops generalizing k s with
  | nil => exact ⟨hcount, by simp [Clean]⟩
  | cons op ops ih =>
    cases op with
    | test =>
      rw [perform_test] at hok hcount
      split at hok
      · cases hok
      · next hzero =>
        rw [if_neg hzero] at hcount
        obtain ⟨hk, hops⟩ := ih hok hcount
        exact ⟨hk, List.forall_mem_cons.mpr ⟨rfl, hops⟩⟩
    | call checked o done left =>
      -- the rest starts with what this call has counted as well
      have hrest : ∃ t, (perform ops (k + o.errors) t).ok = true ∧
          (perform ops (k + o.errors) t).count = 0 := by
        rw [perform_call] at hok hcount
        by_cases hfailed : o.failed = true
        · rw [if_pos hfailed] at hok hcount
          cases checked with
          | true => cases hok
          | false => exact ⟨left s, hok, hcount⟩
        · rw [if_neg hfailed] at hok hcount
          exact ⟨done s, hok, hcount⟩
      obtain ⟨t, hok, hcount⟩ := hrest
      obtain ⟨hk, hops⟩ := ih hok hcount
      exact ⟨by omega, List.forall_mem_cons.mpr ⟨Nat.eq_zero_of_add_eq_zero_left hk, hops⟩⟩

theorem perform_append (a b : List (Op σ)) (k : ℕ) (s : σ) :
    perform (a ++ b) k s =
      if (perform a k s).ok then perform b (perform a k s).count (perform a k s).state
      else perform a k s := by
  induction a generalizing k s with
  | nil => rfl
  | cons op a ih =>
    cases op with
    | test =>
      rw [List.cons_append, perform_test, perform_test, ih]
      by_cases hk : 0 < k
      · rw [if_pos hk, if_pos hk]
        rfl
      · rw [if_neg hk, if_neg hk]
    | call checked o done left =>
      rw [List.cons_append, perform_call, perform_call, ih, ih]
      by_cases hfailed : o.failed = true
      · rw [if_pos hfailed, if_pos hfailed]
        cases checked <;> rfl
      · rw [if_neg hfailed, if_neg hfailed]

/-- A function that looks at the count in the end. -/
def Tested (ops : List (Op σ)) : Prop := ∃ front, ops = front ++ [.test]

theorem Tested.append {b : List (Op σ)} (h : Tested b) (a : List (Op σ)) : Tested (a ++ b) := by
  obtain ⟨front, rfl⟩ := h
  exact ⟨a ++ front, (List.append_assoc a front [.test]).symm⟩

/-- **A function that looks at the count in the end** returns without an error exactly if
there was none before and none of its calls counts one. -/
theorem Tested.perform_iff {ops : List (Op σ)} (h : Tested ops) {k : ℕ} {s : σ} :
    (perform ops k s).ok = true ↔ k = 0 ∧ Clean ops := by
  constructor
  · intro hok
    refine clean_of_perform hok ?_
    obtain ⟨front, rfl⟩ := h
    rw [perform_append] at hok ⊢
    split at hok
    · next hfront =>
      rw [if_pos hfront]
      rw [perform_test] at hok ⊢
      split at hok
      · cases hok
      · next hzero =>
        rw [if_neg hzero]
        exact Nat.eq_zero_of_not_pos hzero
    · next hfront => exact absurd hok hfront
  · rintro ⟨rfl, hclean⟩
    rw [perform_clean hclean]

/-- Then it has done everything. -/
theorem Tested.perform_eq {ops : List (Op σ)} (h : Tested ops) {k : ℕ} {s : σ}
    (hok : (perform ops k s).ok = true) : perform ops k s = ⟨true, 0, doneAll ops s⟩ := by
  obtain ⟨rfl, hclean⟩ := h.perform_iff.mp hok
  exact perform_clean hclean s

/-- What its calls keep, done or left, the function keeps. -/
theorem perform_invariant {I : σ → Prop} {ops : List (Op σ)}
    (hI : ∀ op ∈ ops, ∀ checked o done left, op = .call checked o done left →
      ∀ s, I s → I (done s) ∧ I (left s)) {k : ℕ} {s : σ} (hs : I s) :
    I (perform ops k s).state := by
  induction ops generalizing k s with
  | nil => exact hs
  | cons op ops ih =>
    have hops : ∀ op ∈ ops, ∀ checked o done left, op = .call checked o done left →
        ∀ s, I s → I (done s) ∧ I (left s) := fun op hop => hI op (List.mem_cons_of_mem _ hop)
    cases op with
    | test =>
      rw [perform_test]
      split
      · exact hs
      · exact ih hops hs
    | call checked o done left =>
      obtain ⟨hdone, hleft⟩ := hI _ List.mem_cons_self checked o done left rfl s hs
      rw [perform_call]
      split
      · split
        · exact hleft
        · exact ih hops hleft
      · exact ih hops hdone

/-! ### Attempts -/

/-- The function is tried until it returns without an error, and the count is cleared each
time it does not. What it does may depend on the state. -/
def attempt : List (σ → List (Op σ)) → ℕ → σ → Result σ
  | [], k, s => ⟨false, k, s⟩
  | f :: fs, k, s =>
    if (perform (f s) k s).ok then perform (f s) k s else attempt fs 0 (perform (f s) k s).state

/-- **What a loop returns with is a clean attempt**, from a state that the attempts before
left. -/
theorem attempt_ok {I : σ → Prop} {fs : List (σ → List (Op σ))}
    (hI : ∀ f ∈ fs, ∀ k s, I s → I (perform (f s) k s).state) {k : ℕ} {s : σ} (hs : I s)
    (hok : (attempt fs k s).ok = true) :
    ∃ f ∈ fs, ∃ j t, I t ∧ (perform (f t) j t).ok = true ∧ attempt fs k s = perform (f t) j t := by
  induction fs generalizing k s with
  | nil => cases hok
  | cons f fs ih =>
    unfold attempt at hok ⊢
    split at hok
    · next hf =>
      rw [if_pos hf]
      exact ⟨f, List.mem_cons_self, k, s, hs, hf, rfl⟩
    · next hf =>
      rw [if_neg hf]
      obtain ⟨g, hg, hrest⟩ := ih (fun g hg => hI g (List.mem_cons_of_mem _ hg))
        (hI f List.mem_cons_self k s hs) hok
      exact ⟨g, List.mem_cons_of_mem _ hg, hrest⟩

theorem attempt_invariant {I : σ → Prop} {fs : List (σ → List (Op σ))}
    (hI : ∀ f ∈ fs, ∀ k s, I s → I (perform (f s) k s).state) {k : ℕ} {s : σ} (hs : I s) :
    I (attempt fs k s).state := by
  induction fs generalizing k s with
  | nil => exact hs
  | cons f fs ih =>
    have hnext := hI f List.mem_cons_self k s hs
    unfold attempt
    split
    · exact hnext
    · exact ih (fun g hg => hI g (List.mem_cons_of_mem _ hg)) hnext

/-- **One clean attempt is enough**, if it is not the first one after an error. -/
theorem attempt_of_clean {fs : List (σ → List (Op σ))} {f : σ → List (Op σ)} (hf : f ∈ fs.tail)
    (hclean : ∀ s, Clean (f s)) (k : ℕ) (s : σ) : (attempt fs k s).ok = true := by
  have hlater (fs : List (σ → List (Op σ))) (hf : f ∈ fs) (s : σ) :
      (attempt fs 0 s).ok = true := by
    induction fs generalizing s with
    | nil => cases hf
    | cons g fs ih =>
      unfold attempt
      split
      · next hg => exact hg
      · next hg =>
        rcases List.mem_cons.mp hf with rfl | hf
        · exact absurd (by rw [perform_clean (hclean s)]) hg
        · exact ih hf _
  cases fs with
  | nil => cases hf
  | cons g fs =>
    unfold attempt
    split
    · next hg => exact hg
    · exact hlater fs hf _

end Calls
