/-
# `QlTsch.QlConvergence` — what the Q-table comes to

An update of entry `a` is a weighted sum of `q[a]` (weight 8/10), the reward and the
entry the scan finds (weight 95/1000).  The scan does not stretch distances
(`abs_maxQValue_sub_le`), so the update brings any two tables within 179/200 of their
distance at the entry it writes: an asynchronous contraction (`tableContraction`).
All this is about exact arithmetic, where the code has floats.

* What the table was at first is forgotten, one factor 179/200 for each pass over the
  actions, whatever the rewards are (`qTables_forget`).
* Where each action always works or always fails, the table `qStar` is the fixed point
  of every update: 13/7 for an action that works and 19/14 for one that fails.  The
  learned table is within `13/7 * (179/200) ^ n` of it after `n` passes, and after 19
  passes the greedy choice works (`scheduler_learns`).
* A learner that tries every action again and again comes arbitrarily close to it
  (`learner_converges`).

The updates of a run of `scheduler_process` are those of its credits, whatever the
slot interrupts and the other processes do in between (`Learned`).
-/
import Mathlib.Tactic.NormNum
import QlTsch.Lib.AsyncContraction
import QlTsch.NodeCalls
import QlTsch.QLearning

namespace QlTsch

open Interleave Interleave.Prog

variable {cfg : Config}

/-! ## The scan does not stretch -/

theorem le_maxQValue_of_found {rand a : Nat} (q p : Nat → ℚ) (ha : a = maxQValueIndex rand p) :
    q a ≤ q (maxQValueIndex rand q) := by
  rcases scan_mem (fun i max => p i > p max) unicastSlotframeLength
    (rand % unicastSlotframeLength) with hstart | ⟨h1, hlt⟩
  · have hstart : maxQValueIndex rand p = rand % unicastSlotframeLength := hstart
    rw [ha, hstart]
    exact start_le_scan (fun _ _ => Iff.rfl) _ _
  · rw [ha]
    exact le_maxQValueIndex h1 hlt rand q

theorem abs_maxQValue_sub_le {q p : Nat → ℚ} {B : ℚ}
    (h : ∀ i < unicastSlotframeLength, |q i - p i| ≤ B) (rand : Nat) :
    |q (maxQValueIndex rand q) - p (maxQValueIndex rand p)| ≤ B := by
  have hq := abs_le.mp (h _ (maxQValueIndex_lt rand q))
  have hp := abs_le.mp (h _ (maxQValueIndex_lt rand p))
  have hpq : p (maxQValueIndex rand q) ≤ p (maxQValueIndex rand p) := le_maxQValue_of_found p q rfl
  have hqp : q (maxQValueIndex rand p) ≤ q (maxQValueIndex rand q) := le_maxQValue_of_found q p rfl
  rw [abs_le]
  constructor <;> linarith

/-! ## Updates -/

/-- A call of `update_q_table`, with the draw of its scan. -/
structure Lesson where
  rand : Nat
  action : Nat
  reward : Int
deriving DecidableEq, Repr

def Lesson.apply (q : Nat → ℚ) (l : Lesson) : Nat → ℚ := updateQTable l.rand l.action l.reward q

/-- The table after a list of updates. -/
def learn (ls : List Lesson) (q : Nat → ℚ) : Nat → ℚ := ls.foldl Lesson.apply q

/-- The actions contain `n` passes over all actions, one after the other. -/
def Passes : Nat → List Nat → Prop
  | 0, _ => True
  | n + 1, as => ∃ p rest, as = p ++ rest ∧ (∀ a < unicastSlotframeLength, a ∈ p) ∧ Passes n rest

/-- Two tables under the same updates. -/
def tableContraction : AsyncContraction ((Nat → ℚ) × (Nat → ℚ)) Lesson Nat ℚ where
  entries := Finset.range unicastSlotframeLength
  error qp i := |qp.1 i - qp.2 i|
  target := Lesson.action
  update l qp := (l.apply qp.1, l.apply qp.2)
  factor := 179 / 200
  factor_nonneg := by norm_num
  factor_le_one := by norm_num
  good _ := True
  allowed _ := True
  good_update _ _ := trivial
  pull {qp l B} _ _ ht h := by
    have hself := abs_le.mp (h _ ht)
    have hmax := abs_le.mp (abs_maxQValue_sub_le (fun i hi => h i (Finset.mem_range.mpr hi)) l.rand)
    show |updateQTable l.rand l.action l.reward qp.1 l.action -
      updateQTable l.rand l.action l.reward qp.2 l.action| ≤ _
    rw [updateQTable_self, updateQTable_self, abs_le]
    constructor <;> linarith
  keep {qp l i} hi := by
    show |updateQTable _ _ _ qp.1 i - updateQTable _ _ _ qp.2 i| ≤ _
    rw [updateQTable_other hi, updateQTable_other hi]

theorem after_tableContraction (ls : List Lesson) (q p : Nat → ℚ) :
    tableContraction.after ls (q, p) = (learn ls q, learn ls p) := by
  induction ls generalizing q p with
  | nil => rfl
  | cons l ls ih => exact ih (l.apply q) (l.apply p)

theorem Passes.lessons {n : Nat} {ls : List Lesson} (h : Passes n (ls.map Lesson.action)) :
    tableContraction.Passes n ls := by
  induction n generalizing ls with
  | zero => trivial
  | succ n ih =>
      obtain ⟨p, rest, hsplit, hall, hrest⟩ := h
      obtain ⟨ls₁, ls₂, rfl, rfl, rfl⟩ := List.map_eq_append_iff.mp hsplit
      refine ⟨ls₁, ls₂, rfl, ?_, ih hrest⟩
      intro a ha
      exact List.mem_map.mp (hall a (Finset.mem_range.mp ha))

/-- **The first table is forgotten.**  Two tables that see the same updates, with any
actions, rewards and draws, come nearer by a factor 179/200 with each pass over the
actions, and nothing that comes later takes them apart again. -/
theorem qTables_forget {q p : Nat → ℚ} {B : ℚ} (h : ∀ i < unicastSlotframeLength, |q i - p i| ≤ B)
    {n : Nat} {ls : List Lesson} (hn : Passes n (ls.map Lesson.action)) :
    ∀ i < unicastSlotframeLength, |learn ls q i - learn ls p i| ≤ (179 / 200) ^ n * B := by
  intro i hi
  have hB : 0 ≤ B := (abs_nonneg _).trans (h i hi)
  have hstart : tableContraction.Within B (q, p) :=
    ⟨trivial, fun a ha => h a (Finset.mem_range.mp ha)⟩
  have hend := hstart.passes hB (fun _ _ => trivial) hn.lessons
  rw [after_tableContraction] at hend
  exact hend.2 i (Finset.mem_range.mpr hi)

/-- One pass over the actions, all of them successes. -/
def onePass : List Lesson := (List.range unicastSlotframeLength).map fun a => ⟨0, a, rewardSucces⟩

theorem passes_onePass : Passes 1 (onePass.map Lesson.action) := by
  refine ⟨onePass.map Lesson.action, [], (List.append_nil _).symm, ?_, trivial⟩
  decide

theorem qTables_forget_onePass :
    |learn onePass (fun _ => 0) 14 - learn onePass (fun _ => 1) 14| ≤ (179 / 200) ^ 1 * 1 :=
  qTables_forget (fun _ _ => by norm_num) passes_onePass 14 (by decide)

/-! ## Actions that always work, or always fail -/

section
variable (works : Nat → Bool)

/-- The reward of an action that always works, or always fails. -/
def steadyReward (a : Nat) : Int := if works a then rewardSucces else rewardFailure

def Lesson.Steady (l : Lesson) : Prop := l.reward = steadyReward works l.action

/-- The table that stays as it is. -/
def qStar (a : Nat) : ℚ := if works a then 13 / 7 else 19 / 14

/-- Some action the scan always looks at works. -/
def SomeWorks : Prop := ∃ a, 1 ≤ a ∧ a < unicastSlotframeLength ∧ works a = true

end

section
variable {works : Nat → Bool}

theorem qStar_bounds (works : Nat → Bool) (a : Nat) : 0 ≤ qStar works a ∧ qStar works a ≤ 13 / 7 := by
  simp only [qStar]
  split <;> norm_num

theorem qStar_max (hw : SomeWorks works) (rand : Nat) :
    qStar works (maxQValueIndex rand (qStar works)) = 13 / 7 := by
  obtain ⟨a, h1, hlt, ha⟩ := hw
  have hle := le_maxQValueIndex h1 hlt rand (qStar works)
  have htop : qStar works a = 13 / 7 := by simp only [qStar, ha, if_true]
  exact le_antisymm (qStar_bounds works _).2 (htop ▸ hle)

/-- Every update leaves `qStar` as it is. -/
theorem qStar_fixed (hw : SomeWorks works) {l : Lesson} (hl : l.Steady works) :
    l.apply (qStar works) = qStar works := by
  funext i
  by_cases hi : i = l.action
  · subst hi
    rw [Lesson.apply, updateQTable_self, qStar_max hw, hl]
    simp only [qStar, steadyReward]
    split <;> norm_num [rewardSucces, rewardFailure]
  · exact updateQTable_other hi _ _ _

theorem learn_qStar (hw : SomeWorks works) {ls : List Lesson} (hl : ∀ l ∈ ls, l.Steady works) :
    learn ls (qStar works) = qStar works := by
  induction ls with
  | nil => rfl
  | cons l ls ih =>
      show learn ls (l.apply (qStar works)) = _
      rw [qStar_fixed hw (hl l List.mem_cons_self)]
      exact ih fun l' hl' => hl l' (List.mem_cons_of_mem l hl')

theorem QBounded.near_qStar {q : Nat → ℚ} (hq : QBounded q) (works : Nat → Bool) :
    ∀ i < unicastSlotframeLength, |q i - qStar works i| ≤ 13 / 7 := by
  intro i hi
  obtain ⟨h0, h1⟩ := hq i hi
  obtain ⟨hs0, hs1⟩ := qStar_bounds works i
  rw [abs_le]
  constructor <;> linarith

/-- **Convergence**: after `n` passes every entry is within `13/7 * (179/200) ^ n`. -/
theorem learn_near_qStar (hw : SomeWorks works) {q : Nat → ℚ} (hq : QBounded q) {ls : List Lesson}
    (hl : ∀ l ∈ ls, l.Steady works) {n : Nat} (hn : Passes n (ls.map Lesson.action)) :
    ∀ i < unicastSlotframeLength, |learn ls q i - qStar works i| ≤ (179 / 200) ^ n * (13 / 7) := by
  intro i hi
  have h := qTables_forget (hq.near_qStar works) hn i hi
  rw [learn_qStar hw hl] at h
  exact h

/-- A table near `qStar` makes the greedy choice work: the entries of the actions that
work are half a unit above the others. -/
theorem works_of_near (hw : SomeWorks works) {q : Nat → ℚ}
    (h : ∀ i < unicastSlotframeLength, |q i - qStar works i| < 1 / 4) (rand : Nat) :
    works (maxQValueIndex rand q) = true := by
  obtain ⟨a, h1, hlt, ha⟩ := hw
  by_contra hbad
  have hle := le_maxQValueIndex h1 hlt rand q
  have hgood := abs_lt.mp (h a hlt)
  have hfound := abs_lt.mp (h _ (maxQValueIndex_lt rand q))
  simp only [qStar, ha, if_true] at hgood
  simp only [qStar, hbad, if_false] at hfound
  linarith

/-- After 19 passes the table is that near. -/
theorem quarter_of_passes {n : Nat} (hn : 19 ≤ n) : (179 / 200 : ℚ) ^ n * (13 / 7) < 1 / 4 := by
  have hpow : (179 / 200 : ℚ) ^ n ≤ (179 / 200) ^ 19 :=
    pow_le_pow_of_le_one (by norm_num) (by norm_num) hn
  have h19 : (179 / 200 : ℚ) ^ 19 * (13 / 7) < 1 / 4 := by norm_num
  linarith

end

/-! ## Runs of the scheduler -/

/-- The table and the record of the credits are left alone. -/
structure KeepsLearning (s s' : TschState) : Prop where
  qValues : s'.node.qValues = s.node.qValues
  credits : s'.ghost.credits = s.ghost.credits

/-- A step of a round: it leaves both alone, or it is a call of `update_q_table`. -/
inductive LearnStep (s s' : TschState) : Prop where
  | keep (h : KeepsLearning s s')
  | credit (rand : Nat) (reward : Int) (h : s' = s.creditAction rand reward)

/-- The update of a credit, with the draw `rand`. -/
def Credit.lesson (c : Credit) (rand : Nat) : Lesson := ⟨rand, c.action, c.reward⟩

/-- The table is what the credits have made of `q₀`. -/
def Learned (q₀ : Nat → ℚ) (s : TschState) : Prop :=
  ∃ rands : List Nat, rands.length = s.ghost.credits.length ∧
    s.node.qValues = learn (List.zipWith Credit.lesson s.ghost.credits rands) q₀

theorem KeepsLearning.refl (s : TschState) : KeepsLearning s s := ⟨rfl, rfl⟩

theorem Learned.keep {q₀ : Nat → ℚ} {s s' : TschState} (h : Learned q₀ s) (hk : KeepsLearning s s') :
    Learned q₀ s' := by
  rw [Learned, hk.credits, hk.qValues]
  exact h

theorem Learned.step {q₀ : Nat → ℚ} {s s' : TschState} (h : Learned q₀ s) (hs : LearnStep s s') :
    Learned q₀ s' := by
  cases hs with
  | keep hk => exact h.keep hk
  | credit rand reward hs' =>
      obtain ⟨rands, hlen, hq⟩ := h
      subst hs'
      refine ⟨rands ++ [rand], ?_, ?_⟩
      · show (rands ++ [rand]).length = (s.ghost.credits ++ [_]).length
        rw [List.length_append, List.length_append, hlen]
        rfl
      · show updateQTable rand s.node.currentAction reward s.node.qValues =
          learn (List.zipWith Credit.lesson (s.ghost.credits ++ [_]) (rands ++ [rand])) q₀
        rw [List.zipWith_append hlen.symm, hq, learn, learn, List.foldl_append]
        rfl

theorem KeepsLearning.of_record {s s' : TschState} (h : KeepsRecord s s') : KeepsLearning s s' :=
  ⟨by rw [h.node], by rw [h.ghost]⟩

/-- Between two actions of the scheduler: a slot interrupt, or another process, which leaves
the table and the record of the credits alone. -/
def Meanwhile (cfg : Config) (s s' : TschState) : Prop :=
  (∃ i, slotStep cfg i s = some s') ∨ KeepsLearning s s'

theorem Meanwhile.keeps {s s' : TschState} (h : Meanwhile cfg s s') : KeepsLearning s s' := by
  rcases h with ⟨i, hi⟩ | hk
  · exact ⟨congrArg NodeVars.qValues (node_of_owned (slotStep_owned hi)),
      congrArg Owned.credits (slotStep_owned hi)⟩
  · exact hk

theorem guar_schedulerRound (fuel : Nat) (d : Draws) : (schedulerRound cfg fuel d).Guar LearnStep := by
  have W : SchedWrites cfg LearnStep :=
    queueWrites_keepsRecord.toSchedWrites.mono fun _ _ h => .keep (.of_record h)
  have hround := W.schedulerRound (fun _ _ _ _ _ _ _ _ => .keep ⟨rfl, rfl⟩)
    (fun _ _ _ => .keep ⟨rfl, rfl⟩) (fun _ _ => .keep ⟨rfl, rfl⟩) (fun _ => .keep ⟨rfl, rfl⟩)
    (fun _ _ _ => .credit _ _ rfl) (fun _ _ => .keep ⟨rfl, rfl⟩) (fun _ _ => .keep ⟨rfl, rfl⟩) fuel d
  exact hround.guar (fun _ _ h => h) (fun s => .keep (.refl s)) (fun _ _ => .keep ⟨rfl, rfl⟩)
    fun _ _ => .keep ⟨rfl, rfl⟩

/-- **The table is what the credits have made of it**, in every run of the scheduler. -/
theorem learned_of_run (fuel : Nat) (ds : List Draws) {s : TschState} (hcredits : s.ghost.credits = [])
    {c : Prog TschState Unit × TschState}
    (hr : Run (Meanwhile cfg) (fun _ _ => True) (Prog.forEach ds (schedulerRound cfg fuel), s) c) :
    Learned s.node.qValues c.2 := by
  refine Run.keeps (fun _ _ h hm => h.keep hm.keeps) (fun _ _ h hs => h.step hs)
    (Guar.forEach (guar_schedulerRound fuel) ds) ?_ hr
  refine ⟨[], ?_, ?_⟩ <;> rw [hcredits] <;> rfl

theorem zipWith_lesson_action {cs : List Credit} {rands : List Nat} (h : rands.length = cs.length) :
    (List.zipWith Credit.lesson cs rands).map Lesson.action = cs.map Credit.action := by
  induction cs generalizing rands with
  | nil => rfl
  | cons c cs ih =>
      cases rands with
      | nil => cases h
      | cons r rands => exact congrArg (c.action :: ·) (ih (Nat.succ.inj h))

/-- **What a node learns**, its table in exact arithmetic.  Whatever the slot operation and the
other processes do: if up to now each action has always been credited a success or always a
failure, one of the actions `1, …, 14` works, and all actions have been credited `n` times
over, then the table is within `13/7 * (179/200) ^ n` of `qStar`; from 19 times on the greedy
choice works, whatever the draw is. -/
theorem scheduler_learns (fuel : Nat) (ds : List Draws) {s : TschState} (hq : QBounded s.node.qValues)
    (hcredits : s.ghost.credits = []) {c : Prog TschState Unit × TschState}
    (hr : Run (Meanwhile cfg) (fun _ _ => True) (Prog.forEach ds (schedulerRound cfg fuel), s) c)
    {works : Nat → Bool} (hw : SomeWorks works)
    (hsteady : ∀ cr ∈ c.2.ghost.credits, cr.reward = steadyReward works cr.action)
    {n : Nat} (hn : Passes n (c.2.ghost.credits.map Credit.action)) :
    (∀ i < unicastSlotframeLength,
        |c.2.node.qValues i - qStar works i| ≤ (179 / 200) ^ n * (13 / 7)) ∧
      (19 ≤ n → ∀ rand, works (maxQValueIndex rand c.2.node.qValues) = true) := by
  obtain ⟨rands, hlen, hlearn⟩ := learned_of_run fuel ds hcredits hr
  have hl : ∀ l ∈ List.zipWith Credit.lesson c.2.ghost.credits rands, l.Steady works := by
    intro l hl
    obtain ⟨i, hi, rfl⟩ := List.mem_iff_getElem.mp hl
    rw [List.getElem_zipWith]
    exact hsteady _ (List.getElem_mem _)
  have hnear : ∀ i < unicastSlotframeLength,
      |c.2.node.qValues i - qStar works i| ≤ (179 / 200) ^ n * (13 / 7) := by
    rw [hlearn]
    exact learn_near_qStar hw hq hl (by rw [zipWith_lesson_action hlen]; exact hn)
  refine ⟨hnear, ?_⟩
  intro h19 rand
  exact works_of_near hw (fun i hi => (hnear i hi).trans_lt (quarter_of_passes h19)) rand

/-- A transmission is recorded, good or bad. -/
def recordStatus (status : Nat) (s : TschState) : Option TschState :=
  some { s with slot := { s.slot with transStatus := status } }

/-- Rounds that take the actions in turn; before each, a transmission is recorded, a good one
if its action works. -/
def inTurn (works : Nat → Bool) : List (Option Nat) :=
  (List.range unicastSlotframeLength).flatMap fun a =>
    some (if works a then 1 else 2) :: List.replicate 19 none

def inTurnDraws : List Draws := (List.range unicastSlotframeLength).map fun a => ⟨0, 0, a + 1⟩

theorem scheduler_learns_first :
    ∃ c : Prog TschState Unit × TschState,
      Run (Meanwhile (smallBuild 8)) (fun _ _ => True)
        (Prog.forEach inTurnDraws (schedulerRound (smallBuild 8) 1), TschState.boot (smallBuild 8)) c ∧
      c.2.ghost.credits.map Credit.action = List.range unicastSlotframeLength ∧
      ∀ i < unicastSlotframeLength,
        |c.2.node.qValues i - qStar (fun a => a == 4) i| ≤ (179 / 200) ^ 1 * (13 / 7) := by
  obtain ⟨c, hrun, hc⟩ := exists_run recordStatus (fun _ _ => true)
    (Meanwhile (smallBuild 8)) (fun _ _ => True) (fun _ _ _ h => by cases h; exact .inr ⟨rfl, rfl⟩)
    (fun _ _ _ => trivial) (inTurn fun a => a == 4)
    (Prog.forEach inTurnDraws (schedulerRound (smallBuild 8) 1), TschState.boot (smallBuild 8))
    (fun c => decide (c.2.ghost.credits.map (fun cr => (cr.action, cr.reward)) =
      (List.range unicastSlotframeLength).map fun a => (a, steadyReward (fun a => a == 4) a)))
    (by decide +kernel)
  have hcredits := of_decide_eq_true hc
  have hactions : c.2.ghost.credits.map Credit.action = List.range unicastSlotframeLength := by
    have hfst := congrArg (List.map Prod.fst) hcredits
    rw [List.map_map, List.map_map] at hfst
    exact hfst.trans (List.map_id _)
  have hworks : SomeWorks fun a => a == 4 := ⟨4, by decide, by decide, rfl⟩
  have hpass : Passes 1 (c.2.ghost.credits.map Credit.action) :=
    ⟨_, [], (List.append_nil _).symm, fun a ha => hactions ▸ List.mem_range.mpr ha, trivial⟩
  refine ⟨c, hrun, hactions, (scheduler_learns 1 _ ?_ rfl hrun hworks ?_ hpass).1⟩
  · intro i _
    show 0 ≤ (0 : ℚ) ∧ (0 : ℚ) ≤ 13 / 7
    norm_num
  · intro cr hcr
    have hmem := List.mem_map_of_mem (f := fun cr => (cr.action, cr.reward)) hcr
    rw [hcredits] at hmem
    obtain ⟨a, -, ha⟩ := List.mem_map.mp hmem
    rw [Prod.mk.injEq] at ha
    rw [← ha.1, ← ha.2]

/-! ## A learner that goes on for ever -/

/-- The first `n` updates of an infinite sequence. -/
def firstLessons (u : Nat → Lesson) (n : Nat) : List Lesson := (List.range n).map u

theorem states_tableContraction (u : Nat → Lesson) (q p : Nat → ℚ) (n : Nat) :
    tableContraction.states u (q, p) n = (learn (firstLessons u n) q, learn (firstLessons u n) p) := by
  have h := AsyncContraction.states_add (A := tableContraction) u (q, p) 0 n
  rw [Nat.zero_add, ← List.range_eq_range'] at h
  rw [h]
  exact after_tableContraction (firstLessons u n) q p

/-- **A learner that tries every action again and again** comes as near to `qStar` as one
likes, and from some update on its greedy choice always works. -/
theorem learner_converges {q : Nat → ℚ} (hq : QBounded q) {works : Nat → Bool} (hw : SomeWorks works)
    {u : Nat → Lesson} (hsteady : ∀ n, (u n).Steady works)
    (hfair : ∀ a < unicastSlotframeLength, ∀ n, ∃ m, n ≤ m ∧ (u m).action = a) :
    (∀ δ > 0, ∃ N, ∀ n ≥ N, ∀ i < unicastSlotframeLength,
        |learn (firstLessons u n) q i - qStar works i| ≤ δ) ∧
      ∃ N, ∀ n ≥ N, ∀ rand, works (maxQValueIndex rand (learn (firstLessons u n) q)) = true := by
  have hstart : tableContraction.Within (13 / 7) (q, qStar works) :=
    ⟨trivial, fun i hi => hq.near_qStar works i (Finset.mem_range.mp hi)⟩
  have hfair' : tableContraction.Fair u := fun a ha => hfair a (Finset.mem_range.mp ha)
  have hall : ∀ δ > 0, ∃ N, ∀ n ≥ N, ∀ i < unicastSlotframeLength,
      |learn (firstLessons u n) q i - qStar works i| ≤ δ := by
    intro δ hδ
    obtain ⟨N, hN⟩ := hstart.tendsto (by norm_num) (fun _ => trivial) hfair' (by norm_num
      [tableContraction]) hδ
    refine ⟨N, fun n hn i hi => ?_⟩
    have hnear := hN n hn i (Finset.mem_range.mpr hi)
    rw [states_tableContraction, learn_qStar hw fun l hl => ?_] at hnear
    · exact hnear
    · obtain ⟨m, -, rfl⟩ := List.mem_map.mp hl
      exact hsteady m
  refine ⟨hall, ?_⟩
  obtain ⟨N, hN⟩ := hall (1 / 5) (by norm_num)
  refine ⟨N, fun n hn => works_of_near hw fun i hi => ?_⟩
  exact (hN n hn i hi).trans_lt (by norm_num)

theorem learner_converges_inTurn :
    ∃ N, ∀ n ≥ N, ∀ rand, (maxQValueIndex rand (learn (firstLessons
      (fun m => ⟨m, m % 15, steadyReward (fun a => a == 4) (m % 15)⟩) n) fun _ => 0) == 4) = true := by
  have hworks : SomeWorks fun a => a == 4 := ⟨4, by decide, by decide, rfl⟩
  refine (learner_converges ?_ hworks ?_ ?_).2
  · intro i _
    norm_num
  · intro n
    rfl
  · intro a ha n
    have ha : a < 15 := ha
    refine ⟨15 * n + a, by omega, ?_⟩
    show (15 * n + a) % 15 = a
    omega

end QlTsch
