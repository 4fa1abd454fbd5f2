import CoresightTrace.Hybrid.Protocol

/-!
# The filter read off its history

What the filter remembers, stated on the calls of the run alone: which edge
bits have been confirmed, which paths led to new edges, which checksums led
nowhere, which paths have been tested since the last purge, which confirm a
cache slot stems from and which input an input slot belongs to. None of these
mentions a virgin map, a Bloom table or a cache.

`Sim` relates a front to its history: each of the filter's tables is the
corresponding reading of the history. `Sim.of_reachable` is the simulation: it
holds in every reachable front, whatever `purge_check()` decides. The results
on verdicts and on shown maps are read off it.

Histories are newest first, so "earlier than an event" is the tail after it:
`(e :: h') <:+ h` says that `e` occurred in `h`, with `h'` before it.
-/

open BitCover

namespace CsTrace
namespace Hybrid

variable {n : ℕ}

/-! ### Edges -/

/-- The bits of the edge maps confirmed in `h`. -/
def confirmedBits (h : List (Event n)) : Set (Bit n) :=
  {b | ∃ c edge ov, Event.confirm c edge ov ∈ h ∧ b ∈ bits (classify edge)}

/-- The classified edge map has a bit of no edge map confirmed in `h`. -/
def FoundNew (h : List (Event n)) (edge : CovMap n) : Prop :=
  ∃ b ∈ bits (classify edge), b ∉ confirmedBits h

@[simp] theorem confirmedBits_nil : confirmedBits ([] : List (Event n)) = ∅ := by
  simp [confirmedBits]

@[simp] theorem confirmedBits_purge (h : List (Event n)) :
    confirmedBits (.purge :: h) = confirmedBits h := by
  simp [confirmedBits]

@[simp] theorem confirmedBits_path (c : PathCall n) (v : HybridVerdict) (m : CovMap n)
    (h : List (Event n)) : confirmedBits (.path c v m :: h) = confirmedBits h := by
  simp [confirmedBits]

@[simp] theorem confirmedBits_sample (edge : CovMap n) (ov : Bool) (h : List (Event n)) :
    confirmedBits (.sample edge ov :: h) = confirmedBits h := by
  simp [confirmedBits]

theorem confirmedBits_confirm (c : PathCall n) (edge : CovMap n) (ov : Bool)
    (h : List (Event n)) :
    confirmedBits (.confirm c edge ov :: h) = bits (classify edge) ∪ confirmedBits h := by
  ext b
  simp only [confirmedBits, List.mem_cons, Event.confirm.injEq, Set.mem_ofPred_eq, Set.mem_union]
  constructor
  · -- a bit of the newest edge map, or of an older one
    rintro ⟨c', edge', ov', ⟨-, rfl, -⟩ | hmem, hb⟩
    · exact Or.inl hb
    · exact Or.inr ⟨c', edge', ov', hmem, hb⟩
  · rintro (hb | ⟨c', edge', ov', hmem, hb⟩)
    · exact ⟨c, edge, ov, Or.inl ⟨rfl, rfl, rfl⟩, hb⟩
    · exact ⟨c', edge', ov', Or.inr hmem, hb⟩

/-! ### Paths -/

/-- The bits of the classified path maps whose confirm found new edge bits. -/
def foundPaths (h : List (Event n)) : Set (Bit n) :=
  {b | ∃ c edge ov h', (Event.confirm c edge ov :: h') <:+ h ∧ FoundNew h' edge ∧
    b ∈ bits (classify c.map)}

/-- Some confirm of a path whose checksum satisfies `p` found no new edge
bits. -/
def Fruitless (h : List (Event n)) (p : BitVec 32 → Prop) : Prop :=
  ∃ c edge ov h', (Event.confirm c edge ov :: h') <:+ h ∧ ¬ FoundNew h' edge ∧ p (checksum c.map)

/-- The checksum filter on the history: both halves of the path's checksum are
halves of checksums, possibly of different paths, that led nowhere. -/
def Filtered (h : List (Event n)) (map : CovMap n) : Prop :=
  Fruitless h (fun k => upperHalf k = upperHalf (checksum map)) ∧
    Fruitless h (fun k => lowerHalf k = lowerHalf (checksum map))

/-- The part of the history before the most recent purge; empty when there has
been none. -/
def beforePurge : List (Event n) → List (Event n)
  | [] => []
  | .purge :: h => h
  | _ :: h => beforePurge h

/-- The bits of the classified path maps whose confirm had found new edge bits
before the most recent purge. -/
def recorded (h : List (Event n)) : Set (Bit n) := foundPaths (beforePurge h)

/-- The bits of the classified path maps that the checksum filter let through to
the novelty test since the most recent purge. -/
def tested (h : List (Event n)) : Set (Bit n) :=
  {b | ∃ c v shown later h', h = later ++ Event.path c v shown :: h' ∧ Event.purge ∉ later ∧
    ¬ Filtered h' c.map ∧ b ∈ bits (classify c.map)}

@[simp] theorem foundPaths_nil : foundPaths ([] : List (Event n)) = ∅ := by
  simp [foundPaths]

/-- An event that is no confirm adds none to look for. -/
theorem exists_confirm_cons {e : Event n} (he : ∀ c edge ov, e ≠ .confirm c edge ov)
    (h : List (Event n)) (P : PathCall n → CovMap n → List (Event n) → Prop) :
    (∃ c edge ov h', (Event.confirm c edge ov :: h') <:+ (e :: h) ∧ P c edge h') ↔
      ∃ c edge ov h', (Event.confirm c edge ov :: h') <:+ h ∧ P c edge h' := by
  simp only [List.suffix_cons_iff, List.cons.injEq]
  constructor
  · rintro ⟨c, edge, ov, h', ⟨hc, -⟩ | hs, hrest⟩
    · -- the newest event would be the confirm
      exact absurd hc.symm (he c edge ov)
    · exact ⟨c, edge, ov, h', hs, hrest⟩
  · rintro ⟨c, edge, ov, h', hs, hrest⟩
    exact ⟨c, edge, ov, h', Or.inr hs, hrest⟩

/-- The newest confirm is looked at with the history it found. -/
theorem exists_confirm_confirm (c : PathCall n) (edge : CovMap n) (ov : Bool)
    (h : List (Event n)) (P : PathCall n → CovMap n → List (Event n) → Prop) :
    (∃ c' edge' ov' h', (Event.confirm c' edge' ov' :: h') <:+ (.confirm c edge ov :: h) ∧
        P c' edge' h') ↔
      P c edge h ∨ ∃ c' edge' ov' h', (Event.confirm c' edge' ov' :: h') <:+ h ∧ P c' edge' h' := by
  simp only [List.suffix_cons_iff, List.cons.injEq, Event.confirm.injEq]
  constructor
  · rintro ⟨c', edge', ov', h', ⟨⟨rfl, rfl, rfl⟩, rfl⟩ | hs, hrest⟩
    · exact Or.inl hrest
    · exact Or.inr ⟨c', edge', ov', h', hs, hrest⟩
  · rintro (hrest | ⟨c', edge', ov', h', hs, hrest⟩)
    · exact ⟨c, edge, ov, h, Or.inl ⟨⟨rfl, rfl, rfl⟩, rfl⟩, hrest⟩
    · exact ⟨c', edge', ov', h', Or.inr hs, hrest⟩

/-- Only a confirm adds a found path. -/
theorem foundPaths_cons {e : Event n} (he : ∀ c edge ov, e ≠ .confirm c edge ov)
    (h : List (Event n)) : foundPaths (e :: h) = foundPaths h := by
  ext b
  exact exists_confirm_cons he h fun c edge h' => FoundNew h' edge ∧ b ∈ bits (classify c.map)

theorem foundPaths_confirm (c : PathCall n) (edge : CovMap n) (ov : Bool) (h : List (Event n)) :
    foundPaths (.confirm c edge ov :: h) =
      {b | FoundNew h edge ∧ b ∈ bits (classify c.map)} ∪ foundPaths h := by
  ext b
  exact exists_confirm_confirm c edge ov h fun c edge h' =>
    FoundNew h' edge ∧ b ∈ bits (classify c.map)

@[simp] theorem fruitless_nil (p : BitVec 32 → Prop) : ¬ Fruitless ([] : List (Event n)) p := by
  simp [Fruitless]

/-- Only a confirm can be fruitless. -/
theorem fruitless_cons {e : Event n} (he : ∀ c edge ov, e ≠ .confirm c edge ov)
    (h : List (Event n)) (p : BitVec 32 → Prop) : Fruitless (e :: h) p ↔ Fruitless h p :=
  exists_confirm_cons he h fun c edge h' => ¬ FoundNew h' edge ∧ p (checksum c.map)

theorem fruitless_confirm (c : PathCall n) (edge : CovMap n) (ov : Bool) (h : List (Event n))
    (p : BitVec 32 → Prop) :
    Fruitless (.confirm c edge ov :: h) p ↔
      (¬ FoundNew h edge ∧ p (checksum c.map)) ∨ Fruitless h p :=
  exists_confirm_confirm c edge ov h fun c edge h' => ¬ FoundNew h' edge ∧ p (checksum c.map)

@[simp] theorem tested_nil : tested ([] : List (Event n)) = ∅ := by
  simp [tested]

/-- A purge forgets every test. -/
@[simp] theorem tested_purge (h : List (Event n)) : tested (.purge :: h) = ∅ := by
  refine Set.eq_empty_of_forall_notMem ?_
  rintro b ⟨c, v, shown, later, h', heq, hlater, -⟩
  -- everything since the purge lies after it, so `later` would hold the purge
  cases later with
  | nil => exact absurd heq (by simp)
  | cons e later =>
    obtain ⟨rfl, -⟩ := List.cons.inj heq
    exact hlater List.mem_cons_self

/-- Neither a confirm nor a sample is a test. -/
theorem tested_cons {e : Event n} (hpurge : e ≠ .purge) (hpath : ∀ c v m, e ≠ .path c v m)
    (h : List (Event n)) : tested (e :: h) = tested h := by
  ext b
  constructor
  · rintro ⟨c, v, shown, later, h', heq, hlater, hrest⟩
    cases later with
    -- the newest event is not the test, which is then older
    | nil => exact absurd (List.cons.inj heq).1 (hpath c v shown)
    | cons e' later =>
      exact ⟨c, v, shown, later, h', (List.cons.inj heq).2,
        fun hm => hlater (List.mem_cons_of_mem _ hm), hrest⟩
  · rintro ⟨c, v, shown, later, h', rfl, hlater, hrest⟩
    refine ⟨c, v, shown, e :: later, h', rfl, ?_, hrest⟩
    simp only [List.mem_cons, not_or]
    exact ⟨hpurge.symm, hlater⟩

theorem tested_path (c : PathCall n) (v : HybridVerdict) (m : CovMap n) (h : List (Event n)) :
    tested (.path c v m :: h) =
      {b | ¬ Filtered h c.map ∧ b ∈ bits (classify c.map)} ∪ tested h := by
  ext b
  constructor
  · rintro ⟨c', v', shown, later, h', heq, hlater, hrest⟩
    cases later with
    | nil =>
      -- the newest event is the test
      simp only [List.nil_append, List.cons.injEq, Event.path.injEq] at heq
      obtain ⟨⟨rfl, rfl, rfl⟩, rfl⟩ := heq
      exact Or.inl hrest
    | cons e' later =>
      exact Or.inr ⟨c', v', shown, later, h', (List.cons.inj heq).2,
        fun hm => hlater (List.mem_cons_of_mem _ hm), hrest⟩
  · rintro (hrest | ⟨c', v', shown, later, h', rfl, hlater, hrest⟩)
    · exact ⟨c, v, m, [], h, rfl, List.not_mem_nil, hrest⟩
    · -- an older test is still one: no purge has come in between
      refine ⟨c', v', shown, .path c v m :: later, h', rfl, ?_, hrest⟩
      simp only [List.mem_cons, not_or]
      exact ⟨by simp, hlater⟩

/-! ### Tables -/

/-- The checksum and edge map of a confirm in cache slot `i` with neither pass
overflowed. -/
def cleanConfirm (i : Fin cacheSlots) : Event n → Option (BitVec 32 × CovMap n)
  | .confirm c edge ov =>
    if !ov && !c.overflowed && cacheSlot (checksum c.map) == i then some (checksum c.map, edge)
    else none
  | _ => none

/-- The most recent confirm with neither pass overflowed whose path checksum
falls in cache slot `i`: that checksum and the raw edge map. -/
def lastClean (h : List (Event n)) (i : Fin cacheSlots) : Option (BitVec 32 × CovMap n) :=
  h.findSome? (cleanConfirm i)

/-- The edge map of the path's own slot, when the most recent confirm there had
exactly the path's checksum. -/
def cachedFor (h : List (Event n)) (map : CovMap n) : Option (CovMap n) :=
  DirectMap.lookup cacheSlot (lastClean h) (checksum map)

/-- The input key and the map that an event occurring after `h` puts forward for
the key's slot: a confirm with neither pass overflowed its edge map, a discard
the map cached for its path. -/
def offer (h : List (Event n)) : Event n → Option (BitVec 64 × CovMap n)
  | .confirm c edge ov => if !ov && !c.overflowed then some (c.inputKey, edge) else none
  | .path c .discard _ => (cachedFor h c.map).map fun m => (c.inputKey, m)
  | _ => none

/-- The key most recently stored in input slot `i`, and the map stored when it
took the slot over. An offer is taken up only for a known key, and only while
the slot holds another key or none. -/
def holder : List (Event n) → Fin inputSlots → Option (BitVec 64 × CovMap n)
  | [], _ => none
  | e :: h, i =>
    match offer h e with
    | some (k, m) =>
      if k ≠ 0 ∧ inputSlot k = i ∧ (holder h i).map Prod.fst ≠ some k then some (k, m)
      else holder h i
    | none => holder h i

theorem lastClean_cons {e : Event n} (he : ∀ i, cleanConfirm i e = none) (h : List (Event n)) :
    lastClean (e :: h) = lastClean h := by
  funext i
  simp [lastClean, he i]

theorem lastClean_confirm (c : PathCall n) (edge : CovMap n) (ov : Bool) (h : List (Event n)) :
    lastClean (.confirm c edge ov :: h) =
      if !ov && !c.overflowed then
        DirectMap.store cacheSlot (lastClean h) (checksum c.map) edge
      else lastClean h := by
  funext i
  unfold lastClean
  rw [List.findSome?_cons]
  -- a truncated pass leaves the cache as it was
  by_cases hc : (!ov && !c.overflowed) = true
  · by_cases hi : cacheSlot (checksum c.map) = i
    · subst hi
      rw [if_pos hc]
      simp [cleanConfirm, hc]
    · have hne : (cacheSlot (checksum c.map) == i) = false := by simpa using hi
      -- another slot is found as before
      rw [if_pos hc, DirectMap.store_of_ne _ (Ne.symm hi)]
      simp [cleanConfirm, hc, hne]
  · rw [if_neg hc]
    rw [Bool.not_eq_true] at hc
    simp [cleanConfirm, hc]

theorem holder_cons_none {e : Event n} {h : List (Event n)} (he : offer h e = none) :
    holder (e :: h) = holder h := by
  funext i
  simp only [holder, he]

/-- An offer is taken up as `remember_input()` does. -/
theorem holder_cons_some {e : Event n} {h : List (Event n)} {k : BitVec 64} {m : CovMap n}
    (he : offer h e = some (k, m)) :
    holder (e :: h) =
      if k = 0 ∨ (DirectMap.lookup inputSlot (holder h) k).isSome then holder h
      else DirectMap.store inputSlot (holder h) k m := by
  -- the slot holds `k` exactly when a lookup of `k` answers
  have hkey : (holder h (inputSlot k)).map Prod.fst = some k ↔
      (DirectMap.lookup inputSlot (holder h) k).isSome = true := by
    rw [Option.isSome_iff_exists, Option.map_eq_some_iff]
    constructor
    · rintro ⟨⟨k', v⟩, hv, rfl⟩
      exact ⟨v, DirectMap.lookup_eq_some_iff.mpr hv⟩
    · rintro ⟨v, hv⟩
      exact ⟨(k, v), DirectMap.lookup_eq_some_iff.mp hv, rfl⟩
  funext i
  simp only [holder, he]
  by_cases hi : inputSlot k = i
  · subst hi
    -- in the key's own slot the replay's condition is the negation of the early return
    by_cases hcond : k = 0 ∨ (DirectMap.lookup inputSlot (holder h) k).isSome = true
    · rw [if_pos hcond, if_neg]
      rintro ⟨h0, -, hne⟩
      exact hcond.elim h0 fun hs => hne (hkey.mpr hs)
    · rw [if_neg hcond, DirectMap.store_self, if_pos]
      rw [not_or] at hcond
      exact ⟨hcond.1, rfl, fun hs => hcond.2 (hkey.mp hs)⟩
  · -- the other slots are left alone
    rw [if_neg fun hc => hi hc.2.1]
    split
    · rfl
    · rw [DirectMap.store_of_ne _ (Ne.symm hi)]

/-! ### Purges

What a purge leaves alone is also left alone by a purge check, whichever way it
decides. -/

theorem apply_notePurge {α : Sort*} (F : List (Event n) → α) {h : List (Event n)}
    (hF : F (.purge :: h) = F h) (p : Bool) : F (notePurge p h) = F h := by
  cases p
  · rfl
  · exact hF

@[simp] theorem lastClean_notePurge (p : Bool) (h : List (Event n)) :
    lastClean (notePurge p h) = lastClean h :=
  apply_notePurge lastClean (lastClean_cons (fun _ => rfl) h) p

@[simp] theorem holder_notePurge (p : Bool) (h : List (Event n)) :
    holder (notePurge p h) = holder h :=
  apply_notePurge holder (holder_cons_none rfl) p

@[simp] theorem confirmedBits_notePurge (p : Bool) (h : List (Event n)) :
    confirmedBits (notePurge p h) = confirmedBits h :=
  apply_notePurge confirmedBits (confirmedBits_purge h) p

@[simp] theorem foundPaths_notePurge (p : Bool) (h : List (Event n)) :
    foundPaths (notePurge p h) = foundPaths h :=
  apply_notePurge foundPaths (foundPaths_cons (by simp) h) p

@[simp] theorem fruitless_notePurge (p : Bool) (h : List (Event n)) (q : BitVec 32 → Prop) :
    Fruitless (notePurge p h) q ↔ Fruitless h q :=
  iff_of_eq (apply_notePurge (Fruitless · q) (propext (fruitless_cons (by simp) h q)) p)

@[simp] theorem foundNew_notePurge (p : Bool) (h : List (Event n)) (edge : CovMap n) :
    FoundNew (notePurge p h) edge ↔ FoundNew h edge := by
  simp [FoundNew]

/-- A purge moves the remembered paths to the ones that led to new edges. -/
theorem recorded_union_tested_notePurge (p : Bool) (h : List (Event n)) :
    recorded (notePurge p h) ∪ tested (notePurge p h) =
      if p then foundPaths h else recorded h ∪ tested h := by
  cases p
  · rfl
  · simp [notePurge, recorded, beforePurge]

end Hybrid
end CsTrace
