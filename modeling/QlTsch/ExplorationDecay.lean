/-
# `QlTsch.ExplorationDecay` — the exploration threshold over the life of a node

`policy_check` explores with probability `10000 / cycles_since_start`, and never more
than `epsilon_fixed`.  The law over all policy updates (`PolicyLaw`): with `n` updates
completed the threshold is `min(epsilon_fixed, 10000 / n)`, so that it only falls.

`cycles_since_start` is a `uint16_t`.  After 65536 updates it is 0 again, and the node
explores as it did at first.  A run is read as the sequence of its policy checks and
its completed updates (`policyEvents`); in every run the check after `n` updates goes by
`n % 65536` (`PolicyRecord`), and the law holds up to the 65536th check
(`exploration_decays`) and not beyond (`exploration_starts_over`).
-/
import QlTsch.Lib.Guarantee
import QlTsch.NodeCalls
import QlTsch.QlInvariant

namespace QlTsch

open Interleave Interleave.Prog

variable {cfg : Config}

/-! ## The law -/

inductive PolicyEvent where
  /-- `policy_check`, with its threshold -/
  | check (threshold : ℚ)
  /-- `cycles_since_start++` -/
  | done
deriving DecidableEq

def PolicyEvent.threshold? : PolicyEvent → Option ℚ
  | .check ε => some ε
  | .done => none

def PolicyEvent.isDone : PolicyEvent → Bool
  | .check _ => false
  | .done => true

/-- The thresholds of all policy checks. -/
def thresholds (es : List PolicyEvent) : List ℚ := es.filterMap PolicyEvent.threshold?

/-- How many policy updates have been completed. -/
def updates (es : List PolicyEvent) : Nat := es.countP PolicyEvent.isDone

/-- The threshold after `n` policy updates. -/
def explorationLaw (n : Nat) : ℚ := if n = 0 then epsilonFixed else min epsilonFixed (10000 / n)

/-- **Exploration only decays.** -/
structure PolicyLaw (es : List PolicyEvent) : Prop where
  law : ∀ before ε after, es = before ++ .check ε :: after → ε = explorationLaw (updates before)
  decays : (thresholds es).Pairwise (· ≥ ·)

@[simp] theorem thresholds_append (es fs : List PolicyEvent) :
    thresholds (es ++ fs) = thresholds es ++ thresholds fs := List.filterMap_append

@[simp] theorem updates_append (es fs : List PolicyEvent) :
    updates (es ++ fs) = updates es + updates fs := List.countP_append

theorem explorationLaw_antitone {m n : Nat} (h : m ≤ n) : explorationLaw n ≤ explorationLaw m := by
  rcases Nat.eq_zero_or_pos m with rfl | hm
  · simp only [explorationLaw, if_true]
    split
    · exact le_rfl
    · exact min_le_left _ _
  · have hn : 0 < n := hm.trans_le h
    simp only [explorationLaw, if_neg hm.ne', if_neg hn.ne']
    have hcast : (m : ℚ) ≤ n := Nat.cast_le.mpr h
    have hpos : (0 : ℚ) < m := Nat.cast_pos.mpr hm
    gcongr

/-- The threshold of the code is that of the law while the counter counts. -/
theorem epsilonNew_eq (n : Nat) : epsilonNew n = explorationLaw n := by
  simp only [epsilonNew, explorationLaw]
  split
  · rfl
  · split
    · rename_i h
      exact (min_eq_left h.le).symm
    · rename_i h
      exact (min_eq_right (not_lt.mp h)).symm

theorem split_concat {es : List PolicyEvent} {e : PolicyEvent} {before after : List PolicyEvent}
    {ε : ℚ} (h : es ++ [e] = before ++ .check ε :: after) :
    (es = before ∧ e = .check ε) ∨ ∃ after', es = before ++ .check ε :: after' := by
  rcases List.eq_nil_or_concat after with rfl | ⟨after, x, rfl⟩
  · obtain ⟨rfl, he⟩ := List.append_inj' h rfl
    exact .inl ⟨rfl, List.singleton_inj.mp he⟩
  · have h : es ++ [e] = (before ++ .check ε :: after) ++ [x] := by simpa using h
    exact .inr ⟨after, (List.append_inj' h rfl).1⟩

theorem decays_of_law {es : List PolicyEvent}
    (h : ∀ before ε after, es = before ++ .check ε :: after → ε = explorationLaw (updates before)) :
    (thresholds es).Pairwise (· ≥ ·) := by
  induction es using List.reverseRecOn with
  | nil => exact List.Pairwise.nil
  | append_singleton es e ih =>
      have hes : ∀ before ε after, es = before ++ .check ε :: after →
          ε = explorationLaw (updates before) := by
        intro before ε after hsplit
        refine h before ε (after ++ [e]) ?_
        rw [hsplit, List.append_assoc, List.cons_append]
      rw [thresholds_append]
      cases e with
      | done => exact (List.append_nil (thresholds es)).symm ▸ ih hes
      | check ε =>
          refine List.pairwise_append.mpr ⟨ih hes, List.pairwise_singleton _ _, ?_⟩
          intro δ hδ ε' hε'
          obtain rfl : ε' = ε := List.mem_singleton.mp hε'
          -- an earlier check has seen fewer updates
          obtain ⟨x, hx, hxδ⟩ := List.mem_filterMap.mp hδ
          cases x with
          | done => cases hxδ
          | check δ' =>
              cases hxδ
              obtain ⟨before, after, rfl⟩ := List.append_of_mem hx
              rw [hes before δ after rfl, h _ ε' [] rfl]
              refine explorationLaw_antitone ?_
              rw [updates_append]
              exact Nat.le_add_right _ _

theorem exists_check {es : List PolicyEvent} {n : Nat} (h : n < (thresholds es).length) :
    ∃ before ε after, es = before ++ .check ε :: after ∧ (thresholds before).length = n := by
  induction es using List.reverseRecOn with
  | nil => exact absurd h (Nat.not_lt_zero n)
  | append_singleton es e ih =>
      by_cases hn : n < (thresholds es).length
      · obtain ⟨before, ε, after, rfl, hlen⟩ := ih hn
        exact ⟨before, ε, after ++ [e], by simp, hlen⟩
      · cases e with
        | done =>
            rw [thresholds_append, List.length_append] at h
            exact absurd h hn
        | check ε =>
            refine ⟨es, ε, [], rfl, ?_⟩
            rw [thresholds_append, List.length_append] at h
            have h : n < (thresholds es).length + 1 := h
            omega

/-! ## The events of a run -/

/-- A policy check chooses an action, which is pending from then on; an update is completed
where the counter changes. -/
def policyEvents (s s' : TschState) : List PolicyEvent :=
  (if s.ghost.pendingAction = none ∧ s'.ghost.pendingAction ≠ none then
    [.check (epsilonNew s.node.cyclesSinceStart)] else []) ++
  if s'.node.cyclesSinceStart ≠ s.node.cyclesSinceStart then [.done] else []

/-- The counter and the pending action are left alone. -/
structure KeepsPolicy (s s' : TschState) : Prop where
  cycles : s'.node.cyclesSinceStart = s.node.cyclesSinceStart
  pending : s'.ghost.pendingAction = s.ghost.pendingAction

/-- What else is going on: the slot interrupts, and everything the other processes do. -/
def PolicyEnv (es : List PolicyEvent) (s s' : TschState) : Prop := es = [] ∧ KeepsPolicy s s'

/-- The steps of a round. -/
inductive PolicyStep (s s' : TschState) : Prop where
  | keep (h : KeepsPolicy s s')
  | check (hs : s.ghost.pendingAction = none) (hs' : s'.ghost.pendingAction ≠ none)
      (h : s'.node.cyclesSinceStart = s.node.cyclesSinceStart)
  | done (hs : s.ghost.pendingAction ≠ none) (hs' : s'.ghost.pendingAction = none)
      (h : s'.node.cyclesSinceStart = (s.node.cyclesSinceStart + 1) % 65536)

/-- The events so far, and the state they lead to: the counter has counted the updates
modulo 65536, checks and updates alternate. -/
structure PolicyRecord (es : List PolicyEvent) (s : TschState) : Prop where
  cycles : s.node.cyclesSinceStart = updates es % 65536
  checks : (thresholds es).length = updates es + if s.ghost.pendingAction = none then 0 else 1
  split : ∀ before ε after, es = before ++ .check ε :: after →
    (thresholds before).length = updates before ∧ ε = epsilonNew (updates before % 65536)

theorem KeepsPolicy.refl (s : TschState) : KeepsPolicy s s := ⟨rfl, rfl⟩

theorem KeepsPolicy.events {s s' : TschState} (h : KeepsPolicy s s') : policyEvents s s' = [] := by
  simp only [policyEvents, h.cycles, h.pending, ne_eq, not_true_eq_false, if_false,
    and_not_self_iff, List.append_nil]

namespace PolicyRecord

variable {es : List PolicyEvent} {s s' : TschState}

theorem keep (h : PolicyRecord es s) (hk : KeepsPolicy s s') : PolicyRecord es s' :=
  ⟨hk.cycles.trans h.cycles, by rw [hk.pending]; exact h.checks, h.split⟩

theorem step (h : PolicyRecord es s) (hs : PolicyStep s s') :
    PolicyRecord (es ++ policyEvents s s') s' := by
  cases hs with
  | keep hk =>
      rw [hk.events, List.append_nil]
      exact h.keep hk
  | check hnone hsome hcycles =>
      have hevents : policyEvents s s' = [.check (epsilonNew s.node.cyclesSinceStart)] := by
        simp only [policyEvents, hnone, hsome, hcycles, ne_eq, not_false_eq_true, and_self, if_true,
          not_true_eq_false, if_false, List.append_nil]
      have hchecks : (thresholds es).length = updates es := by
        rw [h.checks, if_pos hnone]
        rfl
      rw [hevents]
      refine ⟨?_, ?_, ?_⟩
      · rw [hcycles, h.cycles, updates_append]
        rfl
      · rw [thresholds_append, updates_append, List.length_append, hchecks, if_neg hsome]
        rfl
      · intro before ε after hsplit
        rcases split_concat hsplit with ⟨rfl, he⟩ | ⟨after', hsplit⟩
        · cases he
          exact ⟨hchecks, by rw [h.cycles]⟩
        · exact h.split before ε after' hsplit
  | done hsome hnone hcycles =>
      have hne : s'.node.cyclesSinceStart ≠ s.node.cyclesSinceStart := by
        rw [hcycles]
        omega
      have hevents : policyEvents s s' = [.done] := by
        simp only [policyEvents, hsome, hne, ne_eq, false_and, if_false, not_false_eq_true, if_true,
          List.nil_append]
      rw [hevents]
      refine ⟨?_, ?_, ?_⟩
      · have hone : updates [.done] = 1 := rfl
        rw [hcycles, h.cycles, updates_append, hone, Nat.mod_add_mod]
      · rw [thresholds_append, updates_append, List.length_append, h.checks, if_neg hsome,
          if_pos hnone]
        rfl
      · intro before ε after hsplit
        rcases split_concat hsplit with ⟨-, he⟩ | ⟨after', hsplit⟩
        · cases he
        · exact h.split before ε after' hsplit

/-- **The law holds for 65536 checks**, and fails at the next. -/
theorem law_iff (h : PolicyRecord es s) : PolicyLaw es ↔ (thresholds es).length ≤ 65536 := by
  constructor
  · intro hlaw
    by_contra hlong
    obtain ⟨before, ε, after, hsplit, hlen⟩ := exists_check (not_le.mp hlong)
    obtain ⟨hupdates, hcode⟩ := h.split before ε after hsplit
    have hspec := hlaw.law before ε after hsplit
    rw [← hupdates, hlen] at hcode hspec
    rw [hspec] at hcode
    norm_num [explorationLaw, epsilonNew, epsilonFixed] at hcode
  · intro hshort
    have hlaw : ∀ before ε after, es = before ++ .check ε :: after →
        ε = explorationLaw (updates before) := by
      intro before ε after hsplit
      obtain ⟨hupdates, hcode⟩ := h.split before ε after hsplit
      have hlt : updates before < 65536 := by
        have hlen := congrArg (fun es => (thresholds es).length) hsplit
        have hone : thresholds (.check ε :: after) = ε :: thresholds after := rfl
        simp only [thresholds_append, hone, List.length_append, List.length_cons] at hlen
        omega
      rw [hcode, Nat.mod_eq_of_lt hlt]
      exact epsilonNew_eq _
    exact ⟨hlaw, decays_of_law hlaw⟩

end PolicyRecord

/-! ## One round -/

theorem schedWrites_keepsPolicy : SchedWrites cfg KeepsPolicy where
  refl := .refl
  nbrTableAdd a s := by
    simp only [TschState.nbrTableAddLladdr]
    split
    · exact .refl s
    · split <;> exact ⟨rfl, rfl⟩
  newNeighbor _ _ := ⟨rfl, rfl⟩
  countTxLink _ _ _ _ := ⟨rfl, rfl⟩
  testCurrentLink p s := by
    simp only [TschState.testCurrentLink]
    split <;> exact ⟨rfl, rfl⟩
  clearCurrentLink _ _ := ⟨rfl, rfl⟩
  allocLink s := by
    simp only [TschState.allocLink]
    split <;> exact ⟨rfl, rfl⟩
  listAddLink _ _ _ := ⟨rfl, rfl⟩
  listRemoveLink _ _ _ := ⟨rfl, rfl⟩
  freeLink _ _ := ⟨rfl, rfl⟩
  allocSlotframe s := by
    simp only [TschState.allocSlotframe]
    split <;> exact ⟨rfl, rfl⟩
  listAddSlotframe _ _ := ⟨rfl, rfl⟩
  freeSlotframe _ _ := ⟨rfl, rfl⟩
  listRemoveSlotframe _ _ := ⟨rfl, rfl⟩

theorem PolicyEnv.of_slotStep {i : SlotInput} {s s' : TschState} (h : slotStep cfg i s = some s') :
    PolicyEnv [] s s' :=
  ⟨rfl, congrArg NodeVars.cyclesSinceStart (node_of_owned (slotStep_owned h)),
    congrArg View.pendingAction (view_of_owned (slotStep_owned h))⟩

theorem policy_settleReward (d : Draws) : LockClient KeepsPolicy (settleReward d) := by
  have hread : ∀ s : TschState, KeepsPolicy s s.getAndResetTxSlotStatus.2 := fun _ => ⟨rfl, rfl⟩
  have hcredit : ∀ r x s, KeepsPolicy s (s.creditAction r x) := fun _ _ _ => ⟨rfl, rfl⟩
  refine (LockClient.update hread).bind fun status => ?_
  split
  · exact LockClient.modify (hcredit _ _)
  · exact .ret _

theorem policy_setUpNewSchedule (action : Nat) :
    LockClient KeepsPolicy (setUpNewSchedule cfg action) :=
  schedWrites_keepsPolicy.setUpNewSchedule (fun _ _ _ _ _ _ _ _ => ⟨rfl, rfl⟩)
    (fun _ _ _ => ⟨rfl, rfl⟩) (fun _ _ => ⟨rfl, rfl⟩) action

/-- A run between other activities. -/
def policyCtx : Ctx TschState where
  irq := KeepsPolicy
  cond _ _ := True
  inv _ := True
  live := False
  stable _ _ _ _ := trivial

/-- The pending action, and the counter. -/
def PolicyAt (a : Option Nat) (n : Nat) (s : TschState) : Prop :=
  s.ghost.pendingAction = a ∧ s.node.cyclesSinceStart = n

section
variable {a : Option Nat} {n : Nat} {s s' : TschState} {α : Type}

theorem PolicyAt.keep (h : PolicyAt a n s) (hk : KeepsPolicy s s') : PolicyAt a n s' :=
  ⟨hk.pending.trans h.1, hk.cycles.trans h.2⟩

theorem PolicyAt.rely (h : PolicyAt a n s) (hr : policyCtx.rely s s') : PolicyAt a n s' := by
  induction hr with
  | refl => exact h
  | tail _ hk ih => exact ih.keep hk

theorem wpg_client {p : Prog TschState α} (hp : LockClient KeepsPolicy p) (h : PolicyAt a n s) :
    Wpg policyCtx PolicyStep p (fun _ t => PolicyAt a n t) s := by
  have hguar : p.Guar KeepsPolicy := hp.guar (fun _ _ h => h) .refl (fun _ _ => ⟨rfl, rfl⟩)
    fun _ _ => ⟨rfl, rfl⟩
  refine Wpg.of_guar ?_ (hguar.mono fun _ _ => .keep)
  exact Wp.of_guar id (fun _ _ _ h hk => h.keep hk) (fun _ _ _ h hk _ => ⟨trivial, h.keep hk⟩) hguar
    trivial h

/-- **A round**: one check, then one update. -/
theorem wpg_schedulerRound (fuel : Nat) (d : Draws) (h : PolicyAt none n s) :
    Wpg policyCtx PolicyStep (schedulerRound cfg fuel d)
      (fun _ t => PolicyAt none ((n + 1) % 65536) t) s := by
  refine Wpg.call (wpg_client (LockClient.tschGetLock.spinUntil fuel) h) trivial ?_
  intro _ t _ ht
  refine Wpg.call (P := fun action t => PolicyAt (some action) n t) ?_ trivial fun action u _ hu => ?_
  · -- the check
    refine Wpg.call (wpg_client (policy_settleReward d) ht) trivial ?_
    intro _ u _ hu
    refine Wpg.update trivial ?_
    intro v hv _
    have hv := hu.rely hv
    exact ⟨trivial, .check hv.1 (fun hnone => by cases hnone) rfl, rfl, hv.2⟩
  · refine Wpg.call (wpg_client LockClient.tschReleaseLock hu) trivial ?_
    intro _ v _ hv
    refine Wpg.call (wpg_client (policy_setUpNewSchedule action) hv) trivial ?_
    intro _ w _ hw
    refine Wpg.call (wpg_client (LockClient.await (.ret ())) hw) trivial fun _ x _ hx => ?_
    refine Wpg.modify trivial ?_
    intro y hy _
    have hy := hx.rely hy
    refine ⟨trivial, .done (fun hnone => ?_) rfl rfl, rfl, ?_⟩
    · rw [hy.1] at hnone
      cases hnone
    · show (y.node.cyclesSinceStart + 1) % 65536 = _
      rw [hy.2]

end

theorem wpg_rounds (fuel : Nat) (ds : List Draws) {n : Nat} {s : TschState} (h : PolicyAt none n s) :
    Wpg policyCtx PolicyStep (Prog.forEach ds (schedulerRound cfg fuel))
      (fun _ t => ∃ n, PolicyAt none n t) s :=
  Wpg.forEach (J := fun t => ∃ n, PolicyAt none n t)
    (fun d _ _ ⟨_, ht⟩ => (wpg_schedulerRound fuel d ht).mono trivial fun _ _ _ h => ⟨_, h⟩) ds trivial
    ⟨n, h⟩

/-! ## All rounds -/

/-- The events of a run and the state it has come to. -/
theorem policy_record (fuel : Nat) (ds : List Draws) {s : TschState}
    (hstart : s.node.cyclesSinceStart = 0) (hpending : s.ghost.pendingAction = none)
    {es : List PolicyEvent} {c : Prog TschState Unit × TschState}
    (hr : History PolicyEnv policyEvents (Prog.forEach ds (schedulerRound cfg fuel), s) es c) :
    PolicyRecord es c.2 := by
  have h0 : PolicyRecord [] s := by
    refine ⟨hstart, ?_, ?_⟩
    · rw [if_pos hpending]
      rfl
    · intro before ε after hsplit
      cases before <;> cases hsplit
  refine (History.of_wpg (C := policyCtx) (fun _ _ _ h => h.2) (fun _ _ => trivial) trivial
    (wpg_rounds fuel ds ⟨hpending, hstart⟩) h0 ?_ ?_ hr).2
  · intro h s s' _ _ hrec hstep
    exact hrec.step hstep
  · rintro h es s s' _ _ hrec ⟨rfl, hk⟩
    rw [List.append_nil]
    exact hrec.keep hk

/-- **Exploration only decays** up to the 65536th policy update: for every run of the
scheduler from the start of the node, with whatever else is going on. -/
theorem exploration_decays (fuel : Nat) (ds : List Draws) {s : TschState}
    (hstart : s.node.cyclesSinceStart = 0) (hpending : s.ghost.pendingAction = none)
    {es : List PolicyEvent} {c : Prog TschState Unit × TschState}
    (hr : History PolicyEnv policyEvents (Prog.forEach ds (schedulerRound cfg fuel), s) es c) :
    PolicyLaw es ↔ (thresholds es).length ≤ 65536 :=
  (policy_record fuel ds hstart hpending hr).law_iff

/-- The first two rounds of a node. -/
theorem exploration_decays_first :
    ∃ (es : List PolicyEvent) (c : Prog TschState Unit × TschState),
      History PolicyEnv policyEvents (Prog.forEach [⟨3, 0, 0⟩, ⟨3, 0, 4⟩]
        (schedulerRound (smallBuild 8) 5), TschState.scheduled (smallBuild 8) 20) es c ∧
      thresholds es = [1 / 2, 1 / 2] ∧ PolicyLaw es := by
  obtain ⟨es, c, hr, hc⟩ := History.exists_historyOf (fun (_ : Unit) _ => none) policyEvents
    (Prog.forEach [⟨3, 0, 0⟩, ⟨3, 0, 4⟩] (schedulerRound (smallBuild 8) 5),
      TschState.scheduled (smallBuild 8) 20)
    (fun _ _ _ _ h => by cases h) (List.replicate 20 none)
    (fun r => decide (thresholds r.1 = [1 / 2, 1 / 2])) (by decide +kernel)
  have htwo : thresholds es = [1 / 2, 1 / 2] := of_decide_eq_true hc
  refine ⟨es, c, hr, htwo, (exploration_decays 5 _ ?_ ?_ hr).mpr ?_⟩
  · decide +kernel
  · decide +kernel
  · rw [htwo]
    exact Nat.le_add_left 2 65534

/-! ## Beyond -/

theorem updates_policyEvents (s s' : TschState) : updates (policyEvents s s') =
    if s'.node.cyclesSinceStart ≠ s.node.cyclesSinceStart then 1 else 0 := by
  simp only [policyEvents, updates_append]
  split <;> split <;> rfl

theorem cycles_of_exec {α : Type} {p : Prog TschState α} {s t : TschState} {a : α}
    (he : p.exec s = some (a, t)) (h : updates (p.trace policyEvents s) = 0) :
    t.node.cyclesSinceStart = s.node.cyclesSinceStart := by
  induction p generalizing s with
  | ret a =>
      cases he
      rfl
  | act f k ih =>
      rw [Prog.trace, updates_append, updates_policyEvents] at h
      by_cases hsame : (f s).node.cyclesSinceStart = s.node.cyclesSinceStart
      · rw [if_neg (not_not.mpr hsame), Nat.zero_add] at h
        exact (ih s he h).trans hsame
      · rw [if_pos hsame] at h
        omega
  | await c k ih =>
      simp only [Prog.exec] at he
      split at he
      · rename_i hc
        rw [Prog.trace, if_pos hc] at h
        exact ih he h
      · cases he

theorem updates_schedulerRound {fuel : Nat} {d : Draws} {s t : TschState}
    (hpending : s.ghost.pendingAction = none)
    (he : (schedulerRound cfg fuel d).exec s = some ((), t)) :
    0 < updates ((schedulerRound cfg fuel d).trace policyEvents s) := by
  rw [Nat.pos_iff_ne_zero]
  intro hzero
  have hround : Wpg policyCtx PolicyStep (schedulerRound cfg fuel d) _ s :=
    wpg_schedulerRound fuel d ⟨hpending, rfl⟩
  obtain ⟨-, u, -, hrel, hu⟩ := hround.run (fun _ _ => trivial) trivial (Run.of_exec he)
  have hcycles : t.node.cyclesSinceStart = _ := (PolicyAt.rely hu hrel).2
  rw [cycles_of_exec he hzero] at hcycles
  omega

theorem exists_updates {F : QlFrames} {fuel : Nat} {d : Draws} (hfuel : 0 < fuel)
    (hmax : unicastSlotframeLength + 1 ≤ cfg.tschScheduleMaxLinks)
    {c₀ : Prog TschState Unit × TschState} :
    ∀ (k : Nat) {es : List PolicyEvent} {s : TschState},
      History PolicyEnv policyEvents c₀ es
        (Prog.forEach (List.replicate k d) (schedulerRound cfg fuel), s) →
      (qlCtx cfg True).inv s → (∃ v, QlReady cfg F v ∧ At none false v s) →
      ∃ es' c, History PolicyEnv policyEvents c₀ es' c ∧ updates es + k ≤ updates es'
  | 0, es, s, hr, _, _ => ⟨es, _, hr, le_rfl⟩
  | k + 1, es, s, hr, hi, h => by
      have Q : QlCtx cfg (qlCtx cfg True) (QlVisible cfg F) := qlCtx_ql _
      have hround : Wp (qlCtx cfg True) (schedulerRound cfg fuel d)
          (fun _ t => (qlCtx cfg True).inv t ∧ ∃ v, QlReady cfg F v ∧ At none false v t) s :=
        (Q.wp_schedulerRound (fun _ hw => hw) hmax (fun _ => hfuel) d hi h).mono hi
          fun _ _ hit hq => ⟨hit, hq⟩
      obtain ⟨_, t, he, hit, hready⟩ := Wp.exec trivial (fun _ _ => trivial) hround
      obtain ⟨v, hv, hat⟩ := h
      have hpending : s.ghost.pendingAction = none := by
        rw [← hv.pending, ← hat.view]
        rfl
      have hone := updates_schedulerRound hpending he
      obtain ⟨es', c, hr', hmore⟩ := exists_updates hfuel hmax k (hr.exec he) hit hready
      rw [updates_append] at hmore
      exact ⟨es', c, hr', by omega⟩

/-- **Exploration starts over**: a node that has completed 65536 updates. -/
theorem exploration_starts_over :
    ∃ (es : List PolicyEvent) (c : Prog TschState Unit × TschState),
      History PolicyEnv policyEvents
        (Prog.forEach (List.replicate 65537 ⟨0, 0, 0⟩) (schedulerRound (smallBuild 8) 5),
          TschState.scheduled (smallBuild 8) 20) es c ∧ ¬ PolicyLaw es := by
  have hspec : (qlCtx (smallBuild 8) True).inv (TschState.scheduled (smallBuild 8) 20) ∧ _ :=
    scheduled_spec (by decide) (by decide) (by decide)
  obtain ⟨hi, F, v, hready⟩ := hspec
  have hstart : History PolicyEnv policyEvents
      (Prog.forEach (List.replicate 65537 ⟨0, 0, 0⟩) (schedulerRound (smallBuild 8) 5),
        TschState.scheduled (smallBuild 8) 20) [] _ := .start
  obtain ⟨es, c, hr, hmany⟩ := exists_updates (by decide) (by decide) 65537 hstart hi ⟨v, hready⟩
  have hrecord := policy_record 5 _ (by decide +kernel) (by decide +kernel) hr
  refine ⟨es, c, hr, ?_⟩
  intro hlaw
  have hshort := hrecord.law_iff.mp hlaw
  have hnone : updates [] = 0 := rfl
  have hchecks := hrecord.checks
  omega

end QlTsch
