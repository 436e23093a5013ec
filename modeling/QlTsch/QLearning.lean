/-
# `QlTsch.QLearning` — the Q-table over any sequence of updates

`update_q_table(a, r)` replaces `q[a]` by

    0.8 q[a] + 0.1 r + 0.095 (M + 1),

where `M` is the entry the scan of `max_q_value_index` returns
(`updateQTable_self`).  The `+ 1` is the bonus that `expected_max_q_value` adds
to the maximum.

* A table with entries in `[0, 13/7]` keeps them there whatever the scan
  returns: `13/7` is the fixed point of the recurrence with reward `1` and
  `M = q[a]`.
* A success does not lower `q[a]` if `M ≥ q[a]`.  The scan looks at the entries
  `1, …, 14` whatever its start, so this is so for every action but `0`.
* A failure through the greedy slot lowers `q[a]` only from `19/21` on.  Below,
  the bonus is more than the failure takes away.
* Neither this scan nor the one through the APT table finds an optimum that is
  strictly the best and stands at index `0`, unless it starts there
  (`greedy_optimal`).
-/
import Mathlib.Tactic.Linarith
import Mathlib.Tactic.Ring
import QlTsch.Node

namespace QlTsch

open Interleave

variable (cfg : Config)

/-! ## One update -/

/-- A call of `update_q_table` from `scheduler_process`: any action, either
reward, any draw. -/
structure QUpdate where
  rand : Nat
  action : Fin unicastSlotframeLength
  success : Bool

def QUpdate.reward (u : QUpdate) : Int := if u.success then rewardSucces else rewardFailure

def QUpdate.apply (q : Nat → ℚ) (u : QUpdate) : Nat → ℚ :=
  updateQTable u.rand u.action u.reward q

theorem updateQTable_self (rand a : Nat) (r : Int) (q : Nat → ℚ) :
    updateQTable rand a r q a =
      8 / 10 * q a + 1 / 10 * r + 95 / 1000 * (q (maxQValueIndex rand q) + 1) := by
  simp only [updateQTable, Function.update_self, learningRate, discountFactor, rewardSucces]
  push_cast
  ring

theorem updateQTable_other {a i : Nat} (h : i ≠ a) (rand : Nat) (r : Int) (q : Nat → ℚ) :
    updateQTable rand a r q i = q i := by
  simp only [updateQTable, Function.update_of_ne h]

/-! ## The scan -/

theorem maxQValueIndex_lt (rand : Nat) (q : Nat → ℚ) :
    maxQValueIndex rand q < unicastSlotframeLength :=
  scan_lt (Nat.mod_lt _ (by decide))

/-- The scan returns an entry no smaller than any of `1, …, 14`. -/
theorem le_maxQValueIndex {a : Nat} (h1 : 1 ≤ a) (ha : a < unicastSlotframeLength) (rand : Nat)
    (q : Nat → ℚ) : q a ≤ q (maxQValueIndex rand q) :=
  le_scan (fun _ _ => Iff.rfl) _ h1 ha

theorem chooseAction_lt (d : Draws) (s : TschState) :
    chooseAction cfg d s < unicastSlotframeLength := by
  simp only [chooseAction]
  split
  · exact scan_lt (Nat.mod_lt _ (by decide))
  · exact maxQValueIndex_lt _ _

/-! ## The bound -/

/-- Every entry is in `[0, 13/7]`. -/
def QBounded (q : Nat → ℚ) : Prop :=
  ∀ i < unicastSlotframeLength, 0 ≤ q i ∧ q i ≤ 13 / 7

theorem QUpdate.reward_bounds (u : QUpdate) : (0 : ℚ) ≤ u.reward ∧ (u.reward : ℚ) ≤ 1 := by
  cases hs : u.success <;> simp [QUpdate.reward, hs, rewardSucces, rewardFailure]

theorem QBounded.apply {q : Nat → ℚ} (h : QBounded q) (u : QUpdate) : QBounded (u.apply q) := by
  intro i hi
  by_cases hia : i = u.action
  · subst hia
    obtain ⟨hq0, hq1⟩ := h _ u.action.isLt
    obtain ⟨hm0, hm1⟩ := h _ (maxQValueIndex_lt u.rand q)
    obtain ⟨hr0, hr1⟩ := u.reward_bounds
    rw [QUpdate.apply, updateQTable_self]
    constructor <;> linarith
  · rw [QUpdate.apply, updateQTable_other hia]
    exact h i hi

theorem QBounded.foldl {q : Nat → ℚ} (h : QBounded q) (us : List QUpdate) :
    QBounded (us.foldl QUpdate.apply q) := by
  induction us generalizing q with
  | nil => exact h
  | cons u us ih => exact ih (h.apply u)

theorem initializeQValues_bounded (val : Bool) {rands : Nat → Nat}
    (hr : ∀ i, rands i ≤ cfg.randomRandMax) (q : Nat → ℚ) :
    QBounded (initializeQValues cfg val rands q) := by
  intro i hi
  simp only [initializeQValues, hi, if_true]
  cases val with
  | false => norm_num
  | true =>
      have hle : (rands i : ℚ) ≤ cfg.randomRandMax := by exact_mod_cast hr i
      have h0 : (0 : ℚ) ≤ rands i := Nat.cast_nonneg _
      have hmax : (0 : ℚ) ≤ cfg.randomRandMax := Nat.cast_nonneg _
      rw [if_pos rfl]
      exact ⟨div_nonneg h0 hmax, le_trans (div_le_one_of_le₀ hle hmax) (by norm_num)⟩

/-- **The Q-values stay in `[0, 13/7]`**, from either initial table and after
any updates. -/
theorem qValues_bounded (val : Bool) (rands : Nat → Nat)
    (hr : ∀ i, rands i ≤ cfg.randomRandMax) (q : Nat → ℚ) (us : List QUpdate) :
    ∀ i < unicastSlotframeLength,
      0 ≤ us.foldl QUpdate.apply (initializeQValues cfg val rands q) i ∧
        us.foldl QUpdate.apply (initializeQValues cfg val rands q) i ≤ 13 / 7 :=
  (initializeQValues_bounded cfg val hr q).foldl us

theorem qValues_bounded_random :
    (∀ _ : Nat, 40000 ≤ (smallBuild 8).randomRandMax) ∧
      ∀ i < unicastSlotframeLength,
        0 ≤ [⟨3, ⟨2, by decide⟩, true⟩].foldl QUpdate.apply
            (initializeQValues (smallBuild 8) true (fun _ => 40000) fun _ => 0) i ∧
          [⟨3, ⟨2, by decide⟩, true⟩].foldl QUpdate.apply
            (initializeQValues (smallBuild 8) true (fun _ => 40000) fun _ => 0) i ≤ 13 / 7 :=
  have hr : ∀ _ : Nat, 40000 ≤ (smallBuild 8).randomRandMax := fun _ => by norm_num [smallBuild]
  ⟨hr, qValues_bounded (smallBuild 8) true (fun _ => 40000) hr (fun _ => 0)
    [⟨3, ⟨2, by decide⟩, true⟩]⟩

/-! ## The direction of an update -/

/-- `a` is a greedy action. -/
def Greedy (q : Nat → ℚ) (a : Nat) : Prop := ∀ i < unicastSlotframeLength, q i ≤ q a

/-- A success with a scan result that is no smaller does not lower the entry. -/
theorem success_not_lower {q : Nat → ℚ} (hb : QBounded q) {rand a : Nat}
    (ha : a < unicastSlotframeLength) (hm : q a ≤ q (maxQValueIndex rand q)) :
    q a ≤ updateQTable rand a rewardSucces q a := by
  have h := (hb a ha).2
  rw [updateQTable_self, rewardSucces]
  push_cast
  linarith

/-- From `19/21` on, a failure does not raise a greedy entry. -/
theorem failure_not_raise {q : Nat → ℚ} {rand a : Nat} (hg : Greedy q a) (h : 19 / 21 ≤ q a) :
    updateQTable rand a rewardFailure q a ≤ q a := by
  have hm := hg _ (maxQValueIndex_lt rand q)
  rw [updateQTable_self, rewardFailure]
  push_cast
  linarith

/-- Below `19/21` it does, if the scan finds the maximum. -/
theorem failure_raises {q : Nat → ℚ} {rand a : Nat} (hm : q (maxQValueIndex rand q) = q a)
    (h : q a < 19 / 21) : q a < updateQTable rand a rewardFailure q a := by
  rw [updateQTable_self, hm, rewardFailure]
  push_cast
  linarith

/-- **Which way an update pushes**, for every table reachable from zero.  A
success never lowers `q[a]` when the scan returns an entry at least `q[a]`, as it
does for every `a ≥ 1`.  A failure through a greedy slot never raises `q[a]` from
`19/21` on, and raises it below that when the scan returns the maximum.  No other
entry changes. -/
theorem update_direction (rands : Nat → Nat) (q₀ : Nat → ℚ) (us : List QUpdate)
    (rand : Nat) (a : Fin unicastSlotframeLength) :
    let q := us.foldl QUpdate.apply (initializeQValues cfg false rands q₀)
    (q a ≤ q (maxQValueIndex rand q) → q a ≤ updateQTable rand a rewardSucces q a) ∧
      (1 ≤ a.val → q a ≤ updateQTable rand a rewardSucces q a) ∧
      (Greedy q a → 19 / 21 ≤ q a → updateQTable rand a rewardFailure q a ≤ q a) ∧
      (Greedy q a → q a < 19 / 21 → q (maxQValueIndex rand q) = q a →
        q a < updateQTable rand a rewardFailure q a) ∧
      ∀ r i, i ≠ a.val → updateQTable rand a r q i = q i := by
  intro q
  have hb : QBounded q := by
    refine QBounded.foldl ?_ us
    intro i hi
    simp only [initializeQValues, hi, if_true]
    norm_num
  refine ⟨success_not_lower hb a.isLt, ?_, failure_not_raise, ?_, ?_⟩
  · intro h1
    exact success_not_lower hb a.isLt (le_maxQValueIndex h1 a.isLt rand q)
  · intro _ hlt hm
    exact failure_raises hm hlt
  · intro r i hi
    exact updateQTable_other hi rand r q

/-- On the all-zero table every slot is greedy, and a failure through slot `3`
raises its value above the slots that were never tried. -/
theorem failure_reinforces_greedy :
    ¬ ∀ (us : List QUpdate) (rand : Nat) (a : Fin unicastSlotframeLength),
      let q := us.foldl QUpdate.apply (initializeQValues (smallBuild 8) false (fun _ => 0) fun _ => 0)
      Greedy q a → updateQTable rand a rewardFailure q a ≤ q a := by
  intro h
  let q := initializeQValues (smallBuild 8) false (fun _ => 0) fun _ => 0
  have hzero : ∀ i, q i = 0 := by
    intro i
    simp [q, initializeQValues]
  have hle : updateQTable 3 3 rewardFailure q 3 ≤ q 3 :=
    h [] 3 ⟨3, by decide⟩ fun i _ => le_of_eq ((hzero i).trans (hzero 3).symm)
  have hlt : q 3 < updateQTable 3 3 rewardFailure q 3 :=
    failure_raises (by rw [hzero, hzero]) (by rw [hzero]; norm_num)
  exact absurd hlt (not_lt.mpr hle)

/-! ## The greedy choice

Both scans start at a random index and go through `1, …, len - 1`.  The table length is a
parameter of the build, so the two functions are taken with a table of any length. -/

/-- `max_q_value_index` for a table of length `len`. -/
def maxQValueIndexOf (len rand : Nat) (qValues : Nat → ℚ) : Nat :=
  scan (fun i max => qValues i > qValues max) len (rand % len)

theorem maxQValueIndex_eq (rand : Nat) (q : Nat → ℚ) :
    maxQValueIndex rand q = maxQValueIndexOf unicastSlotframeLength rand q := rfl

/-- `get_slot_with_apt_table_min_value` for a table of length `len`. -/
def getSlotWithAptTableMinValueOf (len rand : Nat) (aptTable : Nat → Nat) : Nat :=
  scan (fun i min => aptTable i < aptTable min) len (rand % len)

theorem getSlotWithAptTableMinValue_eq (rand : Nat) (table : Nat → Nat) :
    getSlotWithAptTableMinValue rand table =
      getSlotWithAptTableMinValueOf unicastSlotframeLength rand table := rfl

/-- The index is one of the table, and no entry is better. -/
def Optimal (len : Nat) (worse : Nat → Nat → Prop) (m : Nat) : Prop :=
  m < len ∧ ∀ i < len, worse i m

theorem maxQValueIndexOf_optimal {len : Nat} (hlen : 0 < len) (rand : Nat) (q : Nat → ℚ) :
    Optimal len (fun i m => q i ≤ q m) (maxQValueIndexOf len rand q) ↔
      rand % len = 0 ∨ ∃ i, 1 ≤ i ∧ i < len ∧ q 0 ≤ q i := by
  have hstart : rand % len < len := Nat.mod_lt _ hlen
  have hiff : (∀ i < len, q i ≤ q (maxQValueIndexOf len rand q)) ↔
      rand % len = 0 ∨ ∃ i, 1 ≤ i ∧ i < len ∧ q 0 ≤ q i :=
    scan_optimal_iff (fun _ _ => Iff.rfl) hstart
  exact ⟨fun h => hiff.mp h.2, fun h => ⟨scan_lt hstart, hiff.mpr h⟩⟩

theorem getSlotWithAptTableMinValueOf_optimal {len : Nat} (hlen : 0 < len) (rand : Nat)
    (table : Nat → Nat) :
    Optimal len (fun i m => table m ≤ table i) (getSlotWithAptTableMinValueOf len rand table) ↔
      rand % len = 0 ∨ ∃ i, 1 ≤ i ∧ i < len ∧ table i ≤ table 0 := by
  have hstart : rand % len < len := Nat.mod_lt _ hlen
  -- the smallest entry is the largest one in the dual order
  let key : Nat → Natᵒᵈ := fun i => OrderDual.toDual (table i)
  have hiff : (∀ i < len, key i ≤ key (getSlotWithAptTableMinValueOf len rand table)) ↔
      rand % len = 0 ∨ ∃ i, 1 ≤ i ∧ i < len ∧ key 0 ≤ key i :=
    scan_optimal_iff (fun i m => (OrderDual.toDual_lt_toDual (a := table m) (b := table i)).symm) hstart
  exact ⟨fun h => hiff.mp h.2, fun h => ⟨scan_lt hstart, hiff.mpr h⟩⟩

/-- **When the choice is greedy**: exactly if the draw starts the scan at index `0`, or
some other entry is at least as good as the one there. -/
theorem greedy_optimal (len : Nat) (hlen : 1 ≤ len ∧ len ≤ 255) (rand : Nat) (q : Nat → ℚ)
    (table : Nat → Nat) :
    (Optimal len (fun i m => q i ≤ q m) (maxQValueIndexOf len rand q) ↔
      rand % len = 0 ∨ ∃ i, 1 ≤ i ∧ i < len ∧ q 0 ≤ q i) ∧
    (Optimal len (fun i m => table m ≤ table i) (getSlotWithAptTableMinValueOf len rand table) ↔
      rand % len = 0 ∨ ∃ i, 1 ≤ i ∧ i < len ∧ table i ≤ table 0) :=
  ⟨maxQValueIndexOf_optimal hlen.1 rand q, getSlotWithAptTableMinValueOf_optimal hlen.1 rand table⟩

/-- All entries the same: any index will do. -/
theorem greedy_optimal_even :
    Optimal 15 (fun i m => (fun _ => 0 : Nat → ℚ) i ≤ (fun _ => 0 : Nat → ℚ) m)
        (maxQValueIndexOf 15 4 fun _ => 0) ∧
      Optimal 15 (fun i m => (fun _ => 0 : Nat → Nat) m ≤ (fun _ => 0 : Nat → Nat) i)
        (getSlotWithAptTableMinValueOf 15 4 fun _ => 0) := by
  obtain ⟨hq, htable⟩ := greedy_optimal 15 (by decide) 4 (fun _ => 0) fun _ => 0
  exact ⟨hq.mpr (.inr ⟨1, by decide, by decide, le_rfl⟩),
    htable.mpr (.inr ⟨1, by decide, by decide, le_rfl⟩)⟩

/-- The best entry is at index `0`, and the draw is `1`. -/
theorem greedy_misses_first :
    ¬ ∀ (len : Nat), 1 ≤ len ∧ len ≤ 255 → ∀ (rand : Nat) (q : Nat → ℚ) (table : Nat → Nat),
      Optimal len (fun i m => q i ≤ q m) (maxQValueIndexOf len rand q) ∧
        Optimal len (fun i m => table m ≤ table i)
          (getSlotWithAptTableMinValueOf len rand table) := by
  intro h
  have hbest := (h 15 (by decide) 1 (fun i => if i = 0 then 1 else 0)
    fun i => if i = 0 then 0 else 1).1
  rcases (maxQValueIndexOf_optimal (by decide) _ _).mp hbest with h0 | ⟨i, h1, -, hle⟩
  · cases h0
  · rw [if_pos rfl, if_neg (by omega)] at hle
    exact absurd hle (by norm_num)

end QlTsch
