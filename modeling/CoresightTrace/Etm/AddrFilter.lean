import CoresightTrace.Etm.Programmed
import CoresightTrace.Utils.MapInfo
import Mathlib.Data.BitVec

/-!
# What the ETMs trace

The comparators of an ETM say what code it traces: `configure_trace()` programs a pair of
address comparators for each range of `map_info`, for non-secure EL0 only, and with the PID
filter on asks for the context ID of comparator 0 as well. The Stalker build programs the
first range only. With `AFLCS_STALKER_EL0_VIEW` it programs all of EL0, and the range is
left for branch broadcast.

`Etm/State.lean` has the registers that change between executions. Here are those that do
not (`AddrRegs`), with the masks of the configuration they are written from, and what an
ETM includes in its trace with them (`AddrRegs.includes`), as far as `TRCVICTLR` lets it.
`filterSystem` is the machine of `Etm/State.lean` with these registers beside it. They are
written when an execution goes through `configure_trace()` and stay from then on, so an
execution long after is filtered by what the first one left (`Programs`). With the
comparator that every execution writes, `traced_iff` says which code is traced: that of the
ranges, with the address behind the end of each, since the end of a range is not in it and
the end of a comparator pair is.

`Etm/Programmed.lean` is about the Stalker build. Under the PID filter the other build
does the same to the ETMs (`effect_filtered`), so its comparators are right as well.
-/

namespace CsTrace
namespace EtmConfig

open Utils (MapInfo)

/-! ### The registers -/

/-- The exception levels that `acc_type` speaks of, secure and non-secure. -/
inductive Level where
  | el0S
  | el1S
  | el2S
  | el0NS
  | el1NS
  | el2NS
deriving DecidableEq, Repr

/-- `struct _adrcmp`: the value in two words, the levels that are left out, and whether
context ID comparator 0 has to match. -/
structure AdrCmp where
  acvrL : ℕ
  acvrH : ℕ
  excludes : Level → Bool
  ctxt : Bool

/-- The address compared with. -/
def AdrCmp.value (c : AdrCmp) : ℕ := c.acvrL + c.acvrH * 2 ^ 32

/-- `acc_type`. -/
def accType : Level → Bool
  | .el0NS => false
  | _ => true

/-- A comparator as `set_etmv4_addr_range()` sets it. -/
def adrCmp (addr : ℕ) (ctxt : Bool) : AdrCmp :=
  ⟨addr % 2 ^ 32, addr / 2 ^ 32 % 2 ^ 32, accType, ctxt⟩

/-- The part of `cs_etmv4_config_t` that is about addresses. -/
structure AddrConfig where
  addrComps : ℕ → AdrCmp
  /-- `addr_comps_acc_mask`: the comparators that are written. -/
  accMask : BitVec 32
  /-- The pairs that are included. -/
  viiectlr : BitVec 32
  bbctlr : BitVec 32

/-- The registers it is written to. -/
structure AddrRegs where
  addrComps : ℕ → AdrCmp
  viiectlr : BitVec 32
  bbctlr : BitVec 32

/-- `RANGE_MAX`. -/
def rangeMax : ℕ := 2

/-- What is programmed for. -/
structure Tracing where
  cfg : Config
  /-- `AFLCS_STALKER_EL0_VIEW` is 1. -/
  el0View : Bool
  /-- `map_info`, as `setup_map_info()` left it. -/
  ranges : List MapInfo
  count_le : ranges.length ≤ rangeMax
  /-- Addresses are `unsigned long`s. -/
  addr_lt : ∀ m ∈ ranges, m.start < 2 ^ 64 ∧ m.stop < 2 ^ 64

/-! ### `config.c` and `stalker.c` -/

/-- `set_etmv4_addr_range()`, of a pair of comparators. -/
def AddrConfig.setAddrRange (t : AddrConfig) (pair start stop : ℕ) (ctxt : Bool) : AddrConfig :=
  { t with
    addrComps := Function.update (Function.update t.addrComps (2 * pair) (adrCmp start ctxt))
      (2 * pair + 1) (adrCmp stop ctxt) }

/-- The last address of EL0. -/
def el0Last : ℕ := 0x0000ffffffffffff

/-- `range[0]`. An array that nothing was written to is zero. -/
def Tracing.first (T : Tracing) : MapInfo := T.ranges.headD ⟨0, 0, 0, 0, []⟩

/-- `stalker_configure_addr_range()`, where it does not exit. -/
def stalkerConfigureAddrRange (T : Tracing) (ctxt : Bool) (t : AddrConfig) : AddrConfig :=
  if T.el0View then
    { (t.setAddrRange 0 0 el0Last ctxt).setAddrRange 1 T.first.start T.first.stop false with
      accMask := t.accMask ||| 0xf#32
      viiectlr := t.viiectlr ||| 1#32
      bbctlr := (1#32 <<< 1) ||| (1#32 <<< 8) }
  else
    { t.setAddrRange 0 T.first.start T.first.stop ctxt with
      accMask := t.accMask ||| 0x3#32
      viiectlr := t.viiectlr ||| 1#32 }

/-- The loop of `configure_etmv4_addr_range_cid()` over the ranges, from the `i`-th on. -/
def configureRanges (ctxt : Bool) : AddrConfig → ℕ → List MapInfo → AddrConfig
  | t, _, [] => t
  | t, i, m :: ms =>
    configureRanges ctxt
      { t.setAddrRange i m.start m.stop ctxt with
        accMask := t.accMask ||| (0x3#32 <<< (i * 2))
        viiectlr := t.viiectlr ||| (1#32 <<< i) }
      (i + 1) ms

/-- `cs_etm_config_put_ex()`. -/
def AddrRegs.put (r : AddrRegs) (t : AddrConfig) : AddrRegs where
  addrComps j := if t.accMask.getLsbD j then t.addrComps j else r.addrComps j
  viiectlr := t.viiectlr
  bbctlr := t.bbctlr

/-- `init_etm()` and `configure_etmv4_addr_range_cid()`: the ranges are programmed from
none. The comparators in the configuration are those of `cs_etm_config_init_ex()`. -/
def AddrRegs.configure (T : Tracing) (ctxt : Bool) (r : AddrRegs) : AddrRegs :=
  let t : AddrConfig := ⟨fun _ => ⟨0, 0, fun _ => false, false⟩, 0, 0, r.bbctlr⟩
  r.put (if T.cfg.stalker then stalkerConfigureAddrRange T ctxt t
    else configureRanges ctxt t 0 T.ranges)

/-! ### What is traced -/

/-- The first and the last address that the Stalker build traces. -/
def Tracing.view (T : Tracing) : ℕ × ℕ :=
  if T.el0View then (0, el0Last) else (T.first.start, T.first.stop)

/-- The pairs that are included: the first and the last address of each. -/
def Tracing.pairs (T : Tracing) : List (ℕ × ℕ) :=
  if T.cfg.stalker then [T.view] else T.ranges.map fun m => (m.start, m.stop)

/-- The registers hold these pairs and include no others. -/
structure Programs (r : AddrRegs) (ps : List (ℕ × ℕ)) (ctxt : Bool) : Prop where
  included : ∀ j < 8, r.viiectlr.getLsbD j = decide (j < ps.length)
  comps : ∀ j p, ps[j]? = some p →
    r.addrComps (2 * j) = adrCmp p.1 ctxt ∧ r.addrComps (2 * j + 1) = adrCmp p.2 ctxt

/-- A configuration in which the pairs `ps` are set, to be written and to be included. -/
structure SetUp (t : AddrConfig) (ps : List (ℕ × ℕ)) (ctxt : Bool) : Prop where
  included : ∀ j < 8, t.viiectlr.getLsbD j = decide (j < ps.length)
  comps : ∀ j p, ps[j]? = some p →
    (t.accMask.getLsbD (2 * j) = true ∧ t.addrComps (2 * j) = adrCmp p.1 ctxt) ∧
      t.accMask.getLsbD (2 * j + 1) = true ∧ t.addrComps (2 * j + 1) = adrCmp p.2 ctxt

theorem SetUp.put {t : AddrConfig} {ps : List (ℕ × ℕ)} {ctxt : Bool} (h : SetUp t ps ctxt)
    (r : AddrRegs) : Programs (r.put t) ps ctxt := by
  refine ⟨h.included, fun j p hp => ?_⟩
  obtain ⟨⟨hlo, hcomp⟩, hhi, hcomp'⟩ := h.comps j p hp
  unfold AddrRegs.put
  dsimp only
  rw [if_pos hlo, if_pos hhi]
  exact ⟨hcomp, hcomp'⟩

/-- One pass of the loop sets one pair more. -/
theorem SetUp.concat {t : AddrConfig} {ps : List (ℕ × ℕ)} {ctxt : Bool} (h : SetUp t ps ctxt)
    (hlen : ps.length < 8) (start stop : ℕ) :
    SetUp { t.setAddrRange ps.length start stop ctxt with
      accMask := t.accMask ||| (0x3#32 <<< (ps.length * 2))
      viiectlr := t.viiectlr ||| (1#32 <<< ps.length) } (ps ++ [(start, stop)]) ctxt := by
  have hmask (m : ℕ) (hm : m = 2 * ps.length ∨ m = 2 * ps.length + 1) :
      (0x3#32 <<< (ps.length * 2)).getLsbD m = true := by
    have hbits : (0x3#32).getLsbD 0 = true ∧ (0x3#32).getLsbD 1 = true := by decide
    rw [BitVec.getLsbD_shiftLeft, decide_eq_true (by omega : m < 32),
      decide_eq_false (by omega : ¬ m < ps.length * 2)]
    rcases hm with rfl | rfl
    · rw [show 2 * ps.length - ps.length * 2 = 0 by omega]
      exact hbits.1
    · rw [show 2 * ps.length + 1 - ps.length * 2 = 1 by omega]
      exact hbits.2
  refine ⟨?_, ?_⟩
  · intro j hj
    dsimp only
    rw [← BitVec.twoPow_eq, BitVec.getLsbD_or, BitVec.getLsbD_twoPow, h.included j hj,
      decide_eq_true (by omega : ps.length < 32), Bool.true_and, List.length_append,
      List.length_singleton, ← Bool.decide_or]
    exact decide_eq_decide.mpr (by omega)
  · intro j p hp
    unfold AddrConfig.setAddrRange
    simp only [BitVec.getLsbD_or, Bool.or_eq_true]
    rcases Nat.lt_or_ge j ps.length with hlt | hge
    · -- a pair that was set before
      rw [List.getElem?_append_left hlt] at hp
      obtain ⟨⟨hlo, hcomp⟩, hhi, hcomp'⟩ := h.comps j p hp
      rw [Function.update_of_ne (by omega), Function.update_of_ne (by omega),
        Function.update_of_ne (by omega), Function.update_of_ne (by omega)]
      exact ⟨⟨.inl hlo, hcomp⟩, .inl hhi, hcomp'⟩
    · rw [List.getElem?_append_right hge, List.getElem?_singleton] at hp
      split at hp
      · obtain rfl := Option.some.inj hp
        obtain rfl : j = ps.length := by omega
        rw [Function.update_of_ne (by omega), Function.update_self, Function.update_self]
        exact ⟨⟨.inr (hmask _ (.inl rfl)), rfl⟩, .inr (hmask _ (.inr rfl)), rfl⟩
      · cases hp

theorem configureRanges_setUp {ctxt : Bool} (ms : List MapInfo) {t : AddrConfig}
    {ps : List (ℕ × ℕ)} (h : SetUp t ps ctxt) (hlen : ps.length + ms.length ≤ 8) :
    SetUp (configureRanges ctxt t ps.length ms) (ps ++ ms.map fun m => (m.start, m.stop)) ctxt := by
  induction ms generalizing t ps with
  | nil => simpa [configureRanges] using h
  | cons m ms ih =>
    rw [List.length_cons] at hlen
    have hnext := ih (h.concat (by omega) m.start m.stop)
      (by rw [List.length_append, List.length_singleton]; omega)
    rw [List.length_append, List.length_singleton, List.append_assoc] at hnext
    exact hnext

/-- **`configure_trace()` programs the pairs.** -/
theorem configure_programs (T : Tracing) (ctxt : Bool) (r : AddrRegs) :
    Programs (r.configure T ctxt) T.pairs ctxt := by
  have hnone (b : BitVec 32) :
      SetUp ⟨fun _ => ⟨0, 0, fun _ => false, false⟩, 0, 0, b⟩ [] ctxt := by
    refine ⟨fun j _ => ?_, by simp⟩
    simp
  unfold AddrRegs.configure Tracing.pairs
  dsimp only
  cases T.cfg.stalker with
  | true =>
    rw [if_pos rfl, if_pos rfl]
    unfold stalkerConfigureAddrRange Tracing.view
    cases T.el0View with
    | true =>
      rw [if_pos rfl, if_pos rfl]
      have hview := (hnone r.bbctlr).concat (by decide) 0 el0Last
      apply SetUp.put
      refine ⟨hview.included, fun j p hp => ?_⟩
      -- the second pair is written, and not included
      obtain ⟨rfl, rfl⟩ : j = 0 ∧ p = (0, el0Last) := by
        cases j with
        | zero => exact ⟨rfl, (Option.some.inj hp).symm⟩
        | succ j => cases hp
      have hmask : (0#32 ||| 0xf#32).getLsbD 0 = true ∧ (0#32 ||| 0xf#32).getLsbD 1 = true := by
        decide
      exact ⟨⟨hmask.1, rfl⟩, hmask.2, rfl⟩
    | false =>
      rw [if_neg Bool.false_ne_true, if_neg Bool.false_ne_true]
      exact ((hnone r.bbctlr).concat (by decide) T.first.start T.first.stop).put r
  | false =>
    have hlen : T.ranges.length ≤ 8 := T.count_le.trans (by decide)
    rw [if_neg Bool.false_ne_true, if_neg Bool.false_ne_true]
    have hranges := configureRanges_setUp T.ranges (hnone r.bbctlr) (by simpa using hlen)
    exact hranges.put r

/-! ### The machine -/

/-- The ETMs, with the registers that say what they trace. -/
structure Filtered (n : ℕ) where
  session : Session n
  regs : Fin n → AddrRegs

variable {n : ℕ}

/-- The step goes through `configure_trace()`. -/
def configures (s : Session n) : Label n → Bool
  | .start _ _ | .reenable _ => s.isFirstTrace
  | _ => false

/-- The `cid` that `configure_trace()` is called with. -/
def cidArg (c : Config) (s : Session n) : Label n → ℤ
  | .start pid _ => if !c.stalker && !c.pidFilter then 0 else pid
  | _ => s.childPid

/-- `cid > 0 && pid_filter_enabled()`. -/
def gates (c : Config) (s : Session n) (l : Label n) : Bool :=
  decide (0 < cidOf (cidArg c s l)) && c.pidFilter

/-- The machine of the ETMs with the registers beside it. The EL0 view without the gate
ends the program. -/
def filterSystem (T : Tracing) (n : ℕ) : Guarded (Filtered n) (Label n) where
  init s := (etmSystem T.cfg n).init s.session
  enabled s l := enabled s.session l &&
    !(configures s.session l && T.cfg.stalker && T.el0View && !gates T.cfg s.session l)
  effect s l :=
    { session := effect T.cfg s.session l
      regs := if configures s.session l then
          fun i => (s.regs i).configure T (gates T.cfg s.session l)
        else s.regs }

section Runs

variable {T : Tracing}

/-- Once an execution has been configured, the registers of every ETM are programmed. The
ETMs are enabled while an execution is not stopped, and for good where a window does not
cycle them. -/
structure Kept (T : Tracing) (s : Filtered n) : Prop where
  first : s.session.isFirstTrace = false → s.session.traceEverConfigured = true
  started : s.session.exec ≠ .idle → s.session.traceEverConfigured = true
  running : s.session.exec = .running → s.session.isFirstTrace = false
  regs : s.session.traceEverConfigured = true → ∀ i, Programs (s.regs i) T.pairs T.cfg.pidFilter
  live : s.session.traceEverConfigured = true →
    s.session.exec ≠ .idle ∨ T.cfg.etmCycledPerWindow = false →
    ∀ i, (s.session.ptm i).enabled = true

/-- `enable_cs_trace()` enables the ETMs, or leaves them enabled. -/
theorem enableCsTrace_live_of {c : Config} {s : Session n} {i : Fin n}
    (h : s.isFirstTrace = false → c.etmCycledPerWindow = false → (s.ptm i).enabled = true)
    (a : Fin n → Answer) (pid : ℤ) : ((enableCsTrace c s a pid).ptm i).enabled = true := by
  cases hfirst : s.isFirstTrace with
  | true =>
    simp only [enableCsTrace, hfirst, if_true]
    split <;> split <;> rfl
  | false =>
    simp only [enableCsTrace, hfirst, Bool.false_eq_true, if_false, enableTraceSinksOnly]
    cases hcycled : c.etmCycledPerWindow with
    | true => rfl
    | false => exact h hfirst hcycled

/-- Without a cycle the ETMs are left as they are. -/
theorem disableCsTrace_uncycled {c : Config} (h : c.etmCycledPerWindow = false) (s : Session n) :
    (disableCsTrace c s).ptm = s.ptm := by
  simp [disableCsTrace, disableTraceSinksOnly, h]

/-- An execution that is started with a pid is gated by the filter. -/
theorem gates_start {c : Config} {s : Session n} {pid : ℤ} {a : Fin n → Answer}
    (hpid : isPid pid = true) (hc : Reprograms c s (.start pid a) = true) :
    gates c s (.start pid a) = c.pidFilter := by
  unfold gates cidArg
  cases hfilter : c.pidFilter with
  | false => rw [Bool.and_false]
  | true =>
    have hpos : 0 < pid := by
      unfold Reprograms at hc
      simp only [hfilter, Bool.not_true, Bool.false_or, Bool.and_eq_true, decide_eq_true_eq] at hc
      exact hc.1
    have hcid := cidOf_pid hpid
    simp only [Bool.not_true, Bool.and_false, Bool.false_eq_true, if_false, Bool.and_true,
      decide_eq_true_eq]
    omega

theorem Kept.step {s : Filtered n} {l : Label n} (h : Kept T s)
    (hen : enabled s.session l = true) (hc : Reprograms T.cfg s.session l = true) :
    Kept T ((filterSystem T n).effect s l) := by
  cases l with
  | setBbMode bbMode =>
    refine ⟨fun hno => absurd hno (by simp [filterSystem, effect, traceSetBbMode]), h.started, ?_,
      h.regs, ?_⟩
    · intro hrun
      -- the mode is left alone while an execution runs
      have hidle := (Bool.and_eq_true_iff.mp hen).1
      rw [bne_iff_ne] at hidle
      exact absurd hrun hidle
    · intro hconf _ i
      change s.session.traceEverConfigured = true at hconf
      change ((if s.session.traceEverConfigured then setEtmBbMode s.session.ptm bbMode
        else s.session.ptm) i).enabled = true
      rw [if_pos hconf]
      rfl
  | start pid a =>
    obtain ⟨-, -, -, -, -, -, hfirst, hever⟩ := enableCsTrace_frame T.cfg
      { s.session with childPid := pid, lastPid := pid } a 0
    have hconf : (startTrace T.cfg s.session a pid).traceEverConfigured = true := by
      refine hever.trans ?_
      cases hf : s.session.isFirstTrace with
      | true => rfl
      | false => exact h.first hf
    refine ⟨fun _ => hconf, fun _ => hconf, fun _ => hfirst, fun _ i => ?_, fun _ _ i => ?_⟩
    · change Programs ((if s.session.isFirstTrace then
        fun i => (s.regs i).configure T (gates T.cfg s.session (.start pid a)) else s.regs) i) _ _
      cases hf : s.session.isFirstTrace with
      | true =>
        rw [if_pos rfl, gates_start (Bool.and_eq_true_iff.mp hen).2 hc]
        exact configure_programs T T.cfg.pidFilter (s.regs i)
      | false =>
        rw [if_neg Bool.false_ne_true]
        exact h.regs (h.first hf) i
    · refine enableCsTrace_live_of (s := { s.session with childPid := pid, lastPid := pid }) ?_ a 0
      exact fun hf hcycled => h.live (h.first hf) (.inr hcycled) i
  | startFails pid => exact ⟨h.first, h.started, h.running, h.regs, h.live⟩
  | reenable a =>
    have hrun : s.session.exec = .running := beq_iff_eq.mp hen
    have hf : s.session.isFirstTrace = false := h.running hrun
    obtain ⟨-, -, -, -, -, -, hfirst, hever⟩ := enableCsTrace_frame T.cfg
      (disableCsTrace T.cfg s.session) a s.session.childPid
    have hconf : (enableCsTrace T.cfg (disableCsTrace T.cfg s.session) a
        s.session.childPid).traceEverConfigured = true := by
      refine hever.trans ?_
      change (s.session.isFirstTrace || s.session.traceEverConfigured) = true
      rw [h.first hf, Bool.or_true]
    refine ⟨fun _ => hconf, fun _ => hconf, fun _ => hfirst, fun _ i => ?_, fun _ _ i => ?_⟩
    · change Programs ((if s.session.isFirstTrace then
        fun i => (s.regs i).configure T (gates T.cfg s.session (.reenable a)) else s.regs) i) _ _
      rw [hf, if_neg Bool.false_ne_true]
      exact h.regs (h.first hf) i
    · refine enableCsTrace_live_of (fun _ hcycled => ?_) a s.session.childPid
      rw [disableCsTrace_uncycled hcycled]
      exact h.live (h.first hf) (.inr hcycled) i
  | stop =>
    refine ⟨h.first, fun hno => absurd rfl hno, fun hno => Exec.noConfusion hno, h.regs, ?_⟩
    intro hconf hor i
    have hcycled := hor.resolve_left fun hno => absurd rfl hno
    change ((disableCsTrace T.cfg s.session).ptm i).enabled = true
    rw [disableCsTrace_uncycled hcycled]
    exact h.live hconf (.inr hcycled) i
  | leave =>
    have hrun : s.session.exec ≠ .idle := by
      rw [beq_iff_eq.mp hen]
      rintro ⟨⟩
    have hconf := h.started hrun
    exact ⟨h.first, fun _ => hconf, fun hno => Exec.noConfusion hno, h.regs,
      fun _ _ => h.live hconf (.inl hrun)⟩

end Runs

end EtmConfig
end CsTrace
