import CoresightTrace.Hybrid.Simulation

/-!
# What a discarded input is shown

AFL++ reads a map for every input, so a discarded one is shown some map. This
module says which, on the history of the run:

* `discard_shows_no_new_edge` — the map has no bit AFL++ has not been shown: it
  is all zero, or an edge map some confirm has left in the shared buffer;
* `discard_shows_from_history` — the exact map: the one stored when the input
  last took over its slot, else the one last confirmed for the path, else the
  empty one.

An input takes over its slot in one of two ways only (`Offers`), and only while
the slot holds another key or none (`TakesOver`). `HeldSince` is the resulting
state of a slot on the history: a takeover with none after it. `holder_iff`
identifies it with the replayed slot.
-/

open BitCover

namespace CsTrace
namespace Hybrid

variable {n : ℕ}

/-! ### Takeovers -/

/-- The events that put a map forward for an input key, after the history `h`:
a confirm with neither pass overflowed, and a discard of a path whose cache slot
stems from a confirm of exactly its checksum. -/
inductive Offers (h : List (Event n)) : Event n → BitVec 64 → CovMap n → Prop
  | confirm (c : PathCall n) (edge : CovMap n) (hc : c.overflowed = false) :
      Offers h (.confirm c edge false) c.inputKey edge
  | discard (c : PathCall n) (shown m : CovMap n)
      (hc : lastClean h (cacheSlot (checksum c.map)) = some (checksum c.map, m)) :
      Offers h (.path c .discard shown) c.inputKey m

/-- The event `e`, occurring after `h`, has `k` take over its slot with `m`. -/
structure TakesOver (h : List (Event n)) (e : Event n) (k : BitVec 64) (m : CovMap n) : Prop where
  offers : Offers h e k m
  known : k ≠ 0
  /-- The slot holds another key, or none. -/
  other : (holder h (inputSlot k)).map Prod.fst ≠ some k

/-- `k` took over its slot with `m` and no key has taken the slot over since. -/
def HeldSince (h : List (Event n)) (k : BitVec 64) (m : CovMap n) : Prop :=
  ∃ later e h', h = later ++ e :: h' ∧ TakesOver h' e k m ∧
    ∀ l₁ e' l₂ k' m', later = l₁ ++ e' :: l₂ → inputSlot k' = inputSlot k →
      ¬ TakesOver (l₂ ++ e :: h') e' k' m'

theorem offers_iff (h : List (Event n)) (e : Event n) (k : BitVec 64) (m : CovMap n) :
    Offers h e k m ↔ offer h e = some (k, m) := by
  constructor
  · rintro (⟨c, edge, hc⟩ | ⟨c, shown, m, hc⟩)
    · simp [offer, hc]
    · simp [offer, cachedFor, DirectMap.lookup_eq_some_iff.mpr hc]
  · intro ho
    cases e with
    | purge => exact absurd ho (by simp [offer])
    | sample _ _ => exact absurd ho (by simp [offer])
    | path c verdict shown =>
      cases verdict with
      | confirm => exact absurd ho (by simp [offer])
      | discard =>
        simp only [offer, cachedFor, Option.map_eq_some_iff, Prod.mk.injEq] at ho
        obtain ⟨m', hm, rfl, rfl⟩ := ho
        exact .discard c shown m' (DirectMap.lookup_eq_some_iff.mp hm)
    | confirm c edge ov =>
      simp only [offer, Option.ite_none_right_eq_some, Option.some.injEq, Prod.mk.injEq,
        Bool.and_eq_true, Bool.not_eq_eq_eq_not, Bool.not_true] at ho
      obtain ⟨⟨rfl, hc⟩, rfl, rfl⟩ := ho
      exact .confirm c edge hc

/-- A slot after one more event: its takeover, or what it held. -/
theorem holder_cons_cases (e : Event n) (h : List (Event n)) (i : Fin inputSlots) :
    (∃ k m, TakesOver h e k m ∧ inputSlot k = i ∧ holder (e :: h) i = some (k, m)) ∨
      (holder (e :: h) i = holder h i ∧ ∀ k m, inputSlot k = i → ¬ TakesOver h e k m) := by
  cases ho : offer h e with
  | none =>
    refine Or.inr ⟨by rw [holder_cons_none ho], fun k m _ ht => ?_⟩
    -- a takeover is an offer, and there is none
    rw [(offers_iff h e k m).mp ht.offers] at ho
    exact absurd ho (by simp)
  | some p =>
    obtain ⟨k, m⟩ := p
    -- the offer is taken up by slot `i`, or it is not
    by_cases hcond : k ≠ 0 ∧ inputSlot k = i ∧ (holder h i).map Prod.fst ≠ some k
    · obtain ⟨h0, rfl, hne⟩ := hcond
      refine Or.inl ⟨k, m, ⟨(offers_iff h e k m).mpr ho, h0, hne⟩, rfl, ?_⟩
      simp only [holder, ho]
      exact if_pos ⟨h0, trivial, hne⟩
    · refine Or.inr ⟨by simp only [holder, ho]; exact if_neg hcond, fun k' m' hi ht => ?_⟩
      -- a takeover of slot `i` would be of the offer made
      obtain ⟨rfl, rfl⟩ : k = k' ∧ m = m' := by
        have := ((offers_iff h e k' m').mp ht.offers).symm.trans ho
        simp only [Option.some.injEq, Prod.mk.injEq] at this
        exact ⟨this.1.symm, this.2.symm⟩
      subst hi
      exact hcond ⟨ht.known, rfl, ht.other⟩

/-- A slot only ever holds keys of its own. -/
theorem inputSlot_of_holder {h : List (Event n)} {i : Fin inputSlots} {k : BitVec 64}
    {m : CovMap n} (hk : holder h i = some (k, m)) : inputSlot k = i := by
  induction h with
  | nil => exact absurd hk (by simp [holder])
  | cons e h ih =>
    rcases holder_cons_cases e h i with ⟨k', m', -, hi, hold⟩ | ⟨hold, -⟩
    · -- the newest event put its own key there
      rw [hold] at hk
      obtain ⟨rfl, -⟩ := Prod.mk.inj (Option.some.inj hk)
      exact hi
    · exact ih (hold ▸ hk)

/-- **The replayed slot.** It holds `k` with `m` exactly when `k` took it over
with `m` and nothing has since. -/
theorem holder_iff (h : List (Event n)) (k : BitVec 64) (m : CovMap n) :
    holder h (inputSlot k) = some (k, m) ↔ HeldSince h k m := by
  induction h with
  | nil =>
    refine iff_of_false (by simp [holder]) ?_
    rintro ⟨later, e, h', heq, -⟩
    exact absurd heq (by simp)
  | cons e h ih =>
    rcases holder_cons_cases e h (inputSlot k) with ⟨k', m', ht, hi, hold⟩ | ⟨hold, hno⟩
    · -- the newest event takes the slot over
      rw [hold]
      constructor
      · rintro heq
        obtain ⟨rfl, rfl⟩ := Prod.mk.inj (Option.some.inj heq)
        -- the newest event is the takeover, and nothing is later than it
        refine ⟨[], e, h, rfl, ht, fun l₁ e' l₂ k'' m'' hl => ?_⟩
        exact absurd hl (by simp)
      · rintro ⟨later, e₀, h', heq, ht₀, hlater⟩
        cases later with
        | nil =>
          obtain ⟨rfl, rfl⟩ := List.cons.inj heq
          -- one event makes one offer
          have h1 := (offers_iff _ _ _ _).mp ht.offers
          have h2 := (offers_iff _ _ _ _).mp ht₀.offers
          exact h1.symm.trans h2
        | cons e₁ later =>
          obtain ⟨rfl, rfl⟩ := List.cons.inj heq
          -- an older takeover is not the last one
          exact absurd ht (hlater [] e later k' m' rfl hi)
    · -- the slot is as before, and the newest event is no takeover of it
      rw [hold, ih]
      constructor
      · rintro ⟨later, e₀, h', rfl, ht₀, hlater⟩
        -- the same takeover, with one more event after it
        refine ⟨e :: later, e₀, h', rfl, ht₀, fun l₁ e' l₂ k' m' hl hi => ?_⟩
        cases l₁ with
        | nil =>
          obtain ⟨rfl, rfl⟩ := List.cons.inj hl
          exact hno k' m' hi
        | cons e₁ l₁ => exact hlater l₁ e' l₂ k' m' (List.cons.inj hl).2 hi
      · rintro ⟨later, e₀, h', heq, ht₀, hlater⟩
        cases later with
        | nil =>
          obtain ⟨rfl, rfl⟩ := List.cons.inj heq
          exact absurd ht₀ (hno k m rfl)
        | cons e₁ later =>
          obtain ⟨rfl, rfl⟩ := List.cons.inj heq
          refine ⟨later, e₀, h', rfl, ht₀, fun l₁ e' l₂ k' m' hl hi => ?_⟩
          exact hlater (e :: l₁) e' l₂ k' m' (by rw [hl]; rfl) hi

/-! ### The tables hold confirmed maps -/

theorem confirmed_of_lastClean {h : List (Event n)} {i : Fin cacheSlots} {k : BitVec 32}
    {m : CovMap n} (hl : lastClean h i = some (k, m)) : ∃ c ov, Event.confirm c m ov ∈ h := by
  -- the cache slot was filled by an event of the history, and only a confirm fills one
  obtain ⟨e, he, hem⟩ := List.exists_of_findSome?_eq_some hl
  match e with
  | .purge => exact absurd hem (by simp [cleanConfirm])
  | .sample _ _ => exact absurd hem (by simp [cleanConfirm])
  | .path _ _ _ => exact absurd hem (by simp [cleanConfirm])
  | .confirm c edge ov =>
    simp only [cleanConfirm, Option.ite_none_right_eq_some, Option.some.injEq, Prod.mk.injEq] at hem
    obtain ⟨-, -, rfl⟩ := hem
    exact ⟨c, ov, he⟩

theorem confirmed_of_holder {h : List (Event n)} {i : Fin inputSlots} {k : BitVec 64}
    {m : CovMap n} (hk : holder h i = some (k, m)) : ∃ c ov, Event.confirm c m ov ∈ h := by
  obtain rfl := inputSlot_of_holder hk
  obtain ⟨later, e, h', rfl, ht, -⟩ := (holder_iff h k m).mp hk
  -- the takeover was a confirm of the map, or showed one cached from a confirm
  rcases ht.offers with ⟨c, edge, -⟩ | ⟨c, shown, m, hc⟩
  · exact ⟨c, false, by simp⟩
  · obtain ⟨c', ov, hmem⟩ := confirmed_of_lastClean hc
    exact ⟨c', ov, by simp [hmem]⟩

/-! ### The shown map -/

section Discarded

variable {f : Front n} {π : PurgePolicy n} {c : PathCall n}

/-- The input's own map is shown again. -/
theorem Sim.shown_of_input (hS : Sim f) (hd : (f.pathResult π c).verdict = .discard)
    {m : CovMap n} (hk : c.inputKey ≠ 0) (hm : HeldSince f.hist c.inputKey m) :
    (f.pathResult π c).map = m ∧
      (f.pathResult π c).st.inputs (inputSlot c.inputKey) = some (c.inputKey, m) := by
  -- the slot of the model is the slot of the history
  have hslot : f.st.inputs (inputSlot c.inputKey) = some (c.inputKey, m) := by
    rw [hS.inputs]
    exact (holder_iff _ _ _).mpr hm
  obtain ⟨hmap, hin⟩ := hybridAfterPath_of_discard π c.map c.overflowed c.inputKey f.st hd
  obtain ⟨hshown, hkeep⟩ := discard_of_input (checksum c.map) m f.st hk hslot
  refine ⟨hmap.trans hshown, ?_⟩
  change (hybridAfterPath _ _ _ _ _).st.inputs _ = _
  rw [hin, hkeep, hslot]

/-- An input the history holds no map for misses its slot. -/
theorem Sim.input_absent (hS : Sim f)
    (hk : c.inputKey = 0 ∨ ¬ ∃ m, HeldSince f.hist c.inputKey m) :
    c.inputKey = 0 ∨ ∀ m, f.st.inputs (inputSlot c.inputKey) ≠ some (c.inputKey, m) := by
  refine hk.imp_right fun hno m hm => hno ⟨m, ?_⟩
  rw [hS.inputs] at hm
  exact (holder_iff _ _ _).mp hm

/-- Otherwise the map confirmed for the path is shown, and becomes the
input's. -/
theorem Sim.shown_of_cache (hS : Sim f) (hd : (f.pathResult π c).verdict = .discard)
    (hk : c.inputKey = 0 ∨ ¬ ∃ m, HeldSince f.hist c.inputKey m) {m : CovMap n}
    (hm : lastClean f.hist (cacheSlot (checksum c.map)) = some (checksum c.map, m)) :
    (f.pathResult π c).map = m ∧ (c.inputKey ≠ 0 →
      (f.pathResult π c).st.inputs (inputSlot c.inputKey) = some (c.inputKey, m)) := by
  obtain ⟨hmap, hin⟩ := hybridAfterPath_of_discard π c.map c.overflowed c.inputKey f.st hd
  obtain ⟨hshown, hstore⟩ :=
    discard_of_cache (checksum c.map) m f.st (hS.input_absent hk) (by rw [hS.cache]; exact hm)
  refine ⟨hmap.trans hshown, fun h0 => ?_⟩
  change (hybridAfterPath _ _ _ _ _).st.inputs _ = _
  rw [hin, hstore, if_neg h0, DirectMap.store_self]

/-- With neither, the empty map is shown. -/
theorem Sim.shown_of_neither (hS : Sim f) (hd : (f.pathResult π c).verdict = .discard)
    (hk : c.inputKey = 0 ∨ ¬ ∃ m, HeldSince f.hist c.inputKey m)
    (hm : ∀ m, lastClean f.hist (cacheSlot (checksum c.map)) ≠ some (checksum c.map, m)) :
    (f.pathResult π c).map = fun _ => 0 := by
  obtain ⟨hmap, -⟩ := hybridAfterPath_of_discard π c.map c.overflowed c.inputKey f.st hd
  obtain ⟨hshown, -⟩ :=
    discard_of_neither (checksum c.map) f.st (hS.input_absent hk) (by rw [hS.cache]; exact hm)
  exact hmap.trans hshown

/-- What a discard shows is empty or a confirmed edge map. -/
theorem Sim.shown_confirmed (hS : Sim f) (hd : (f.pathResult π c).verdict = .discard) :
    (f.pathResult π c).map = (fun _ => 0) ∨
      ∃ c' ov, Event.confirm c' (f.pathResult π c).map ov ∈ f.hist := by
  -- the three sources of a shown map, in the order `discard()` tries them
  by_cases hk : c.inputKey = 0 ∨ ¬ ∃ m, HeldSince f.hist c.inputKey m
  · by_cases hm : ∃ m, lastClean f.hist (cacheSlot (checksum c.map)) = some (checksum c.map, m)
    · obtain ⟨m, hm⟩ := hm
      rw [(hS.shown_of_cache hd hk hm).1]
      exact Or.inr (confirmed_of_lastClean hm)
    · push Not at hm
      exact Or.inl (hS.shown_of_neither hd hk hm)
  · push Not at hk
    obtain ⟨h0, m, hm⟩ := hk
    rw [(hS.shown_of_input hd h0 hm).1]
    exact Or.inr (confirmed_of_holder ((holder_iff _ _ _).mpr hm))

end Discarded

/-- **A discard shows no new edge.** In any run, whatever the purge checks
decide, the map a discarded input is left with has no bit outside what has been
confirmed, and is all zero or byte for byte an edge map confirmed earlier. -/
theorem discard_shows_no_new_edge {f : Front n} (hf : (hybridMachine n).Reachable f)
    (π : PurgePolicy n) (c : PathCall n) (hd : (f.pathResult π c).verdict = .discard) :
    peekNewBits (f.pathResult π c).st.virginEdge (classify (f.pathResult π c).map) = 0 ∧
      ((f.pathResult π c).map = (fun _ => 0) ∨
        ∃ c' ov, Event.confirm c' (f.pathResult π c).map ov ∈ f.hist) := by
  have hS := Sim.of_reachable hf
  have hshown := hS.shown_confirmed hd
  refine ⟨?_, hshown⟩
  have hedge : (f.pathResult π c).st.virginEdge = f.st.virginEdge :=
    hybridAfterPath_virginEdge _ _ _ _ _
  rw [peekNewBits_eq, newBitsLevel_eq_zero_iff, hedge, hS.edge,
    Set.disjoint_compl_right_iff_subset]
  -- an empty map has no bits, and a confirmed one none outside what is confirmed
  rcases hshown with hz | ⟨c', ov, hmem⟩
  · rw [hz]
    intro b hb
    rw [show (fun _ => (0 : Byte)) = (fun _ : Fin n => 0#8) from rfl, classify_zero,
      bits_zero] at hb
    exact absurd hb (Set.notMem_empty b)
  · exact fun b hb => ⟨c', _, ov, hmem, hb⟩

/-! A run of one input, confirmed and then run again. -/

/-- An input with one hit on its only tuple. -/
def rerunCall : PathCall 1 := ⟨fun _ => 1, false, 5⟩

/-- The filter after the input's path pass and its confirm. -/
def rerunFront : Front 1 :=
  ((Front.initial (fun _ => 0) (fun _ => 0) (fun _ => 0)).afterPath
    (sourcePolicy .exact) rerunCall).afterConfirm (sourcePolicy .exact) rerunCall (fun _ => 1) false

theorem rerunFront_reachable : (hybridMachine 1).Reachable rerunFront := by
  have hconfirm : ((Front.initial (fun _ => 0) (fun _ => 0) (fun _ => 0)).pathResult
      (sourcePolicy .exact) rerunCall).verdict = .confirm := by
    decide +kernel
  have hinit : (hybridMachine 1).Reachable
      (Front.initial (fun _ => 0) (fun _ => 0) (fun _ => 0)) := .of_init ⟨_, _, _, rfl⟩
  have hpath := hinit.step (.path _ (sourcePolicy .exact) rerunCall rfl)
  exact hpath.step (.confirm _ (sourcePolicy .exact) rerunCall (fun _ => 1) false
    (Front.awaiting_of_confirm hconfirm))

theorem rerunFront_discards :
    (rerunFront.pathResult (sourcePolicy .exact) rerunCall).verdict = .discard := by
  decide +kernel

theorem discard_shows_no_new_edge_rerun :
    (rerunFront.pathResult (sourcePolicy .exact) rerunCall).map = (fun _ => 1) ∧
      peekNewBits (rerunFront.pathResult (sourcePolicy .exact) rerunCall).st.virginEdge
        (classify (rerunFront.pathResult (sourcePolicy .exact) rerunCall).map) = 0 :=
  ⟨by decide +kernel,
    (discard_shows_no_new_edge rerunFront_reachable (sourcePolicy .exact) rerunCall
      rerunFront_discards).1⟩

/-- **The map shown for a discarded input.** A discard shows, on the history of
the run,

1. the map stored when the input last took over its slot, if it still holds it;
2. otherwise the raw edge map of the most recent confirm with neither pass
   overflowed in the path's cache slot, if that was of the path's own checksum,
   and this map is then what the input's slot holds;
3. otherwise the empty map.

A slot changes in no other way than by a takeover. -/
theorem discard_shows_from_history {f : Front n} (hf : (hybridMachine n).Reachable f)
    (π : PurgePolicy n) (c : PathCall n) (hd : (f.pathResult π c).verdict = .discard) :
    (∀ m, c.inputKey ≠ 0 → HeldSince f.hist c.inputKey m →
        (f.pathResult π c).map = m ∧
          (f.pathResult π c).st.inputs (inputSlot c.inputKey) = some (c.inputKey, m)) ∧
      ((c.inputKey = 0 ∨ ¬ ∃ m, HeldSince f.hist c.inputKey m) →
        (∀ m, lastClean f.hist (cacheSlot (checksum c.map)) = some (checksum c.map, m) →
          (f.pathResult π c).map = m ∧ (c.inputKey ≠ 0 →
            (f.pathResult π c).st.inputs (inputSlot c.inputKey) = some (c.inputKey, m))) ∧
        ((∀ m, lastClean f.hist (cacheSlot (checksum c.map)) ≠ some (checksum c.map, m)) →
          (f.pathResult π c).map = fun _ => 0)) ∧
      (∀ l f', (hybridMachine n).step f l f' → ∀ i, f'.st.inputs i ≠ f.st.inputs i →
        ∃ e h k m, f'.hist = e :: h ∧ TakesOver h e k m ∧ inputSlot k = i ∧
          f'.st.inputs i = some (k, m)) := by
  have hS := Sim.of_reachable hf
  refine ⟨fun m hk hm => hS.shown_of_input hd hk hm,
    fun hk => ⟨fun m hm => hS.shown_of_cache hd hk hm, hS.shown_of_neither hd hk⟩, ?_⟩
  intro l f' hstep i hne
  have hS' := Sim.of_reachable (hf.step hstep)
  -- each step adds one event to a history whose slots are those before the step
  obtain ⟨e, h, hh, hold⟩ : ∃ e h, f'.hist = e :: h ∧ holder h = holder f.hist := by
    cases hstep with
    | path π c _ => exact ⟨_, _, rfl, holder_notePurge _ _⟩
    | confirm π c edge ov _ => exact ⟨_, _, rfl, holder_notePurge _ _⟩
    | sample edge ov => exact ⟨_, _, rfl, rfl⟩
  rcases holder_cons_cases e h i with ⟨k, m, ht, hi, hnew⟩ | ⟨hsame, -⟩
  · exact ⟨e, h, k, m, hh, ht, hi, by rw [hS'.inputs, hh, hnew]⟩
  · exact absurd (by rw [hS'.inputs, hS.inputs, hh, hsame, hold]) hne

theorem discard_shows_from_history_rerun :
    HeldSince rerunFront.hist rerunCall.inputKey (fun _ => 1) ∧
      (rerunFront.pathResult (sourcePolicy .exact) rerunCall).map = fun _ => 1 := by
  have hheld : HeldSince rerunFront.hist rerunCall.inputKey (fun _ => 1) :=
    (holder_iff _ _ _).mp (by decide +kernel)
  exact ⟨hheld, ((discard_shows_from_history rerunFront_reachable (sourcePolicy .exact) rerunCall
    rerunFront_discards).1 _ (by decide) hheld).1⟩

end Hybrid
end CsTrace
