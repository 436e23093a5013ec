/-
# `QlTsch.ProcessFrame` — what the process programs leave alone

The counterpart of `QlTsch.SlotFrame` for the process side, in two steps.

* A `LockClient G` is a program that touches the three lock flags through
  `tsch_get_lock` and `tsch_release_lock` only; every other action of it is
  within `G`.
* The programs of `tsch-schedule.c`, with the neighbor table below them and
  `set_up_new_schedule` above, are clients within any `G` that allows their single
  writes (`SchedWrites`).  One such `G` is `SchedAct`: of the variables of the slot
  operation they write `current_link`, and only to set it to NULL, and what has been
  transmitted, recorded and credited stays as it is.
-/
import QlTsch.Node

namespace QlTsch

open Interleave Interleave.Prog

variable {cfg : Config}

/-! ## Clients of the lock -/

/-- A program that uses the lock through its two functions; its other actions
are within `G`. -/
inductive LockClient (G : TschState → TschState → Prop) {α : Type} : Prog TschState α → Prop
  | ret (a : α) : LockClient G (.ret a)
  | act {f : TschState → TschState} {k : TschState → Prog TschState α} :
      (∀ s, G s (f s)) → (∀ s, LockClient G (k s)) → LockClient G (.act f k)
  | await {c : TschState → Bool} {k : Prog TschState α} :
      LockClient G k → LockClient G (.await c k)
  | getLock {k : Bool → Prog TschState α} :
      (∀ b, LockClient G (k b)) → LockClient G (tschGetLock >>= k)
  | releaseLock {k : Unit → Prog TschState α} :
      (∀ u, LockClient G (k u)) → LockClient G (tschReleaseLock >>= k)

namespace LockClient

variable {G : TschState → TschState → Prop} {α β : Type}

theorem bind {p : Prog TschState α} {f : α → Prog TschState β} (hp : LockClient G p)
    (hf : ∀ a, LockClient G (f a)) : LockClient G (p >>= f) := by
  induction hp with
  | ret a => exact hf a
  | act hg _ ih => exact .act hg ih
  | await _ ih => exact .await ih
  | getLock _ ih => rw [bind_assoc]; exact .getLock ih
  | releaseLock _ ih => rw [bind_assoc]; exact .releaseLock ih

theorem mono {G' : TschState → TschState → Prop} (hG : ∀ s s', G s s' → G' s s')
    {p : Prog TschState α} (hp : LockClient G p) : LockClient G' p := by
  induction hp with
  | ret a => exact .ret a
  | act hg _ ih => exact .act (fun s => hG _ _ (hg s)) ih
  | await _ ih => exact .await ih
  | getLock _ ih => exact .getLock ih
  | releaseLock _ ih => exact .releaseLock ih

theorem read (hG : ∀ s, G s s) (g : TschState → β) : LockClient G (Prog.read g) :=
  .act hG fun _ => .ret _

theorem modify {f : TschState → TschState} (hf : ∀ s, G s (f s)) : LockClient G (Prog.modify f) :=
  .act hf fun _ => .ret _

theorem update {f : TschState → β × TschState} (hf : ∀ s, G s (f s).2) :
    LockClient G (Prog.update f) :=
  .act hf fun _ => .ret _

theorem update_bind {f : TschState → β × TschState} {k : β → Prog TschState α}
    (hf : ∀ s, G s (f s).2) (hk : ∀ s, LockClient G (k (f s).1)) :
    LockClient G (Prog.update f >>= k) :=
  .act hf hk

theorem tschGetLock : LockClient G tschGetLock := by
  have h := LockClient.getLock (G := G) (k := Prog.ret) fun b => .ret b
  rwa [bind_ret] at h

theorem tschReleaseLock : LockClient G tschReleaseLock := by
  have h := LockClient.releaseLock (G := G) (k := Prog.ret) fun u => .ret u
  rwa [bind_ret] at h

theorem loop {head : Prog TschState (Option β)} {body : β → Prog TschState Unit}
    (hh : LockClient G head) (hb : ∀ x, LockClient G (body x)) :
    ∀ fuel, LockClient G (Prog.loop fuel head body)
  | 0 => .await (.ret ())
  | fuel + 1 => hh.bind fun x => by
      cases x with
      | none => exact .ret ()
      | some x => exact (hb x).bind fun _ => loop hh hb fuel

theorem forEach {body : β → Prog TschState Unit} (hb : ∀ x, LockClient G (body x)) :
    ∀ xs : List β, LockClient G (Prog.forEach xs body)
  | [] => .ret ()
  | x :: xs => (hb x).bind fun _ => forEach hb xs

theorem unlessLocked (hG : ∀ s, G s s) {x : α} {rest : Prog TschState α} (h : LockClient G rest) :
    LockClient G (Prog.read tschIsLocked >>= fun locked => if locked = true then pure x else rest) := by
  refine (LockClient.read hG _).bind fun locked => ?_
  cases locked with
  | true => exact .ret x
  | false => exact h

theorem withLock {x : α} {body : Prog TschState α} (h : LockClient G body) :
    LockClient G (QlTsch.tschGetLock >>= fun got => if got = true then body else pure x) := by
  refine LockClient.tschGetLock.bind fun got => ?_
  cases got with
  | false => exact .ret x
  | true => exact h

theorem guar {G' : TschState → TschState → Prop} (hG : ∀ s s', G s s' → G' s s')
    (hid : ∀ s, G' s s) (hreq : ∀ b s, G' s (s.setLockRequested b))
    (hlock : ∀ b s, G' s (s.setLocked b)) {p : Prog TschState α} (hp : LockClient G p) :
    p.Guar G' := by
  induction hp with
  | ret a => trivial
  | act hg _ ih => exact ⟨fun s => hG _ _ (hg s), ih⟩
  | await _ ih => exact ih
  | getLock _ ih =>
      refine Guar.bind ?_ ih
      refine (Guar.read hid _).bind fun b => ?_
      cases b with
      | true => trivial
      | false =>
          refine (Guar.modify (hreq true)).bind fun _ => ?_
          refine Guar.bind (p := waitFor _) trivial fun _ => ?_
          refine (Guar.read hid _).bind fun b => ?_
          cases b with
          | true => trivial
          | false =>
              refine (Guar.modify (hlock true)).bind fun _ => ?_
              exact (Guar.modify (hreq false)).bind fun _ => trivial
  | releaseLock _ ih => exact (Guar.modify (hlock false)).bind ih

end LockClient

/-! ## The schedule programs -/

/-- The writes of `tsch-schedule.c` and of the neighbor table below it, all within
`G`.  The two that fill in a new block are asked for where they are used. -/
structure SchedWrites (cfg : Config) (G : TschState → TschState → Prop) : Prop where
  refl : ∀ s, G s s
  nbrTableAdd : ∀ a s, G s (s.nbrTableAddLladdr cfg a).2
  newNeighbor : ∀ a s, G s (s.modifyNeighbor a fun _ => newNeighbor cfg a)
  countTxLink : ∀ n o d s, G s (s.countTxLink n o d)
  testCurrentLink : ∀ p s, G s (s.testCurrentLink p).2
  clearCurrentLink : ∀ p s, G s (s.clearCurrentLink p)
  allocLink : ∀ s, G s (s.allocLink cfg).2
  listAddLink : ∀ b p s, G s (s.listAddLink b p)
  listRemoveLink : ∀ b p s, G s (s.listRemoveLink b p)
  freeLink : ∀ p s, G s (s.freeLink p)
  allocSlotframe : ∀ s, G s (s.allocSlotframe cfg).2
  listAddSlotframe : ∀ b s, G s (s.listAddSlotframe b)
  freeSlotframe : ∀ b s, G s (s.freeSlotframe b)
  listRemoveSlotframe : ∀ b s, G s (s.listRemoveSlotframe b)

theorem nbrTableAddLladdr_fst (a : LinkAddr) (s : TschState) :
    (s.nbrTableAddLladdr cfg a).1 = some a ∨ (s.nbrTableAddLladdr cfg a).1 = none := by
  simp only [TschState.nbrTableAddLladdr]
  split
  · exact .inl rfl
  · split
    · exact .inl rfl
    · exact .inr rfl

namespace SchedWrites

variable {G : TschState → TschState → Prop} (W : SchedWrites cfg G)
include W

theorem mono {G' : TschState → TschState → Prop} (hG : ∀ s s', G s s' → G' s s') :
    SchedWrites cfg G' where
  refl s := hG _ _ (W.refl s)
  nbrTableAdd a s := hG _ _ (W.nbrTableAdd a s)
  newNeighbor a s := hG _ _ (W.newNeighbor a s)
  countTxLink n o d s := hG _ _ (W.countTxLink n o d s)
  testCurrentLink p s := hG _ _ (W.testCurrentLink p s)
  clearCurrentLink p s := hG _ _ (W.clearCurrentLink p s)
  allocLink s := hG _ _ (W.allocLink s)
  listAddLink b p s := hG _ _ (W.listAddLink b p s)
  listRemoveLink b p s := hG _ _ (W.listRemoveLink b p s)
  freeLink p s := hG _ _ (W.freeLink p s)
  allocSlotframe s := hG _ _ (W.allocSlotframe s)
  listAddSlotframe b s := hG _ _ (W.listAddSlotframe b s)
  freeSlotframe b s := hG _ _ (W.freeSlotframe b s)
  listRemoveSlotframe b s := hG _ _ (W.listRemoveSlotframe b s)

theorem addNbr (a : LinkAddr) : LockClient G (tschQueueAddNbr cfg a) := by
  refine (LockClient.read W.refl _).bind fun n => ?_
  cases n with
  | some n => exact .ret _
  | none =>
      refine LockClient.tschGetLock.bind fun b => ?_
      cases b with
      | false => exact .ret _
      | true =>
          refine LockClient.update_bind (W.nbrTableAdd a) ?_
          intro s
          rcases nbrTableAddLladdr_fst a s with h | h <;> rw [h]
          · refine (LockClient.modify (W.newNeighbor a)).bind fun _ => ?_
            exact LockClient.tschReleaseLock.bind fun _ => .ret _
          · exact LockClient.tschReleaseLock.bind fun _ => .ret _

theorem uncountLink (o : LinkOptions) (a : LinkAddr) : LockClient G (uncountLink o a) := by
  simp only [QlTsch.uncountLink]
  split
  · refine (LockClient.read W.refl _).bind fun n => ?_
    cases n with
    | none => exact .ret _
    | some n => exact LockClient.modify (W.countTxLink n o (-1))
  · exact .ret _

theorem countLink (o : LinkOptions) (a : LinkAddr) : LockClient G (countLink cfg o a) := by
  simp only [QlTsch.countLink]
  split
  · refine (W.addNbr a).bind fun n => ?_
    cases n with
    | none => exact .ret _
    | some n => exact LockClient.modify (W.countTxLink n o 1)
  · exact .ret _

theorem abortCurrentLink (p : Nat) : LockClient G (abortCurrentLink p) := by
  refine (LockClient.update (W.testCurrentLink p)).bind fun current => ?_
  cases current with
  | true => exact LockClient.modify (W.clearCurrentLink p)
  | false => exact .ret _

theorem removeLink (sf l : Option Nat) : LockClient G (tschScheduleRemoveLink sf l) := by
  cases sf with
  | none => exact .ret _
  | some b =>
      cases l with
      | none => exact .ret _
      | some p =>
          refine (LockClient.read W.refl _).bind fun ok => ?_
          cases ok with
          | false => exact .ret _
          | true =>
              refine LockClient.withLock ?_
              refine (LockClient.read W.refl _).bind fun saved => ?_
              refine (W.abortCurrentLink p).bind fun _ => ?_
              refine (LockClient.modify (W.listRemoveLink b p)).bind fun _ => ?_
              refine (LockClient.modify (W.freeLink p)).bind fun _ => ?_
              refine LockClient.tschReleaseLock.bind fun _ => ?_
              exact (W.uncountLink _ _).bind fun _ => .ret _

theorem removeLinkIfAt (b ts off p : Nat) : LockClient G (removeLinkIfAt b ts off p) := by
  refine (LockClient.read W.refl _).bind fun here => ?_
  cases here with
  | false => exact .ret _
  | true => exact W.removeLink (some b) (some p)

theorem removeLinksAt (b ts off : Nat) : ∀ ls, LockClient G (removeLinksAt b ts off ls)
  | [] => .ret _
  | p :: ls => (W.removeLinkIfAt b ts off p).bind fun _ =>
      (removeLinksAt b ts off ls).bind fun _ => .ret _

theorem removeLinkByTimeslot (sf : Option Nat) (ts off : Nat) :
    LockClient G (tschScheduleRemoveLinkByTimeslot sf ts off) := by
  refine LockClient.unlessLocked W.refl ?_
  cases sf with
  | none => exact .ret _
  | some b => exact (LockClient.read W.refl _).bind fun ls => W.removeLinksAt b ts off ls

theorem installLink {b : Nat} {o : LinkOptions} {ty : LinkType} {a : LinkAddr} {ts off : Nat}
    (hinit : ∀ p s, G s (s.initLink b p o ty a ts off)) :
    LockClient G (installLink cfg b o ty a ts off) := by
  refine LockClient.withLock ?_
  refine (LockClient.update W.allocLink).bind fun l => ?_
  cases l with
  | none => exact LockClient.tschReleaseLock.bind fun _ => .ret _
  | some p =>
      refine (LockClient.modify (W.listAddLink b p)).bind fun _ => ?_
      refine (LockClient.modify (hinit p)).bind fun _ => ?_
      refine LockClient.tschReleaseLock.bind fun _ => ?_
      exact (W.countLink o a).bind fun _ => .ret _

theorem addLink {sf : Option Nat} {o : LinkOptions} {ty : LinkType} {a : Option LinkAddr}
    {ts off : Nat} {rm : Bool}
    (hinit : ∀ b p s, G s (s.initLink b p o ty (a.getD cfg.linkaddrNull) ts off)) :
    LockClient G (tschScheduleAddLink cfg sf o ty a ts off rm) := by
  cases sf with
  | none => exact .ret _
  | some b =>
      refine (LockClient.read W.refl _).bind fun bad => ?_
      cases bad with
      | true => exact .ret _
      | false =>
          cases rm with
          | false => exact W.installLink (hinit b)
          | true => exact (W.removeLinkByTimeslot _ ts off).bind fun _ => W.installLink (hinit b)

theorem removeSlotframe (fuel : Nat) (sf : Option Nat) :
    LockClient G (tschScheduleRemoveSlotframe fuel sf) := by
  cases sf with
  | none => exact .ret _
  | some b =>
      refine (LockClient.loop (LockClient.read W.refl _) (fun p => ?_) fuel).bind fun _ => ?_
      · exact (W.removeLink _ _).bind fun _ => .ret _
      · refine LockClient.withLock ?_
        refine (LockClient.modify (W.freeSlotframe b)).bind fun _ => ?_
        refine (LockClient.modify (W.listRemoveSlotframe b)).bind fun _ => ?_
        exact LockClient.tschReleaseLock.bind fun _ => .ret _

theorem removeAllSlotframes (fuel : Nat) :
    ∀ n, LockClient G (tschScheduleRemoveAllSlotframes fuel n)
  | 0 => LockClient.await (.ret _)
  | n + 1 => by
      refine (LockClient.read W.refl _).bind fun head => ?_
      cases head with
      | none => exact .ret _
      | some b =>
          refine (W.removeSlotframe fuel (some b)).bind fun removed => ?_
          cases removed with
          | false => exact .ret _
          | true => exact removeAllSlotframes fuel n

theorem addSlotframe {handle size : Nat} (hinit : ∀ b s, G s (s.initSlotframe b handle size)) :
    LockClient G (tschScheduleAddSlotframe cfg handle size) := by
  simp only [tschScheduleAddSlotframe]
  split
  · exact .ret _
  · refine (LockClient.read W.refl _).bind fun sf => ?_
    cases sf with
    | some b => exact .ret _
    | none =>
        refine LockClient.withLock ?_
        refine (LockClient.update W.allocSlotframe).bind fun b => ?_
        cases b with
        | none => exact LockClient.tschReleaseLock.bind fun _ => .ret _
        | some b =>
            refine (LockClient.modify (hinit b)).bind fun _ => ?_
            refine (LockClient.modify (W.listAddSlotframe b)).bind fun _ => ?_
            exact LockClient.tschReleaseLock.bind fun _ => .ret _

theorem assignUnicastLink (hlink : ∀ b p o ty a ts off s, G s (s.initLink b p o ty a ts off))
    (hset : ∀ ts l s, G s (s.setLinkUnicast ts l)) (o : LinkOptions) (ts : Nat) (rm : Bool) :
    LockClient G (assignUnicastLink cfg o ts rm) :=
  (LockClient.read W.refl _).bind fun _ =>
    (W.addLink fun b p => hlink b p o .normal _ ts 0).bind fun l => LockClient.modify (hset ts l)

theorem setUpNewSchedule (hlink : ∀ b p o ty a ts off s, G s (s.initLink b p o ty a ts off))
    (hset : ∀ ts l s, G s (s.setLinkUnicast ts l)) (haction : ∀ a s, G s (s.setCurrentAction a))
    (action : Nat) : LockClient G (setUpNewSchedule cfg action) := by
  refine (LockClient.read W.refl _).bind fun new => ?_
  cases new with
  | false => exact .ret _
  | true =>
      refine (W.assignUnicastLink hlink hset _ _ _).bind fun _ => ?_
      refine (LockClient.read W.refl _).bind fun _ => ?_
      refine (W.assignUnicastLink hlink hset _ _ _).bind fun _ => ?_
      exact LockClient.modify (haction action)

end SchedWrites

/-! ## What they leave to the slot operation -/

/-- What an action of a schedule program does to the slot operation's
variables. -/
structure SchedGuar (s s' : TschState) : Prop where
  slot : s'.slot = s.slot ∨ s'.slot = { s.slot with currentLink := none }
  ghost : s'.ghost = { s.ghost with linkInFlux := s'.ghost.linkInFlux }

/-- The same, with the lock left alone. -/
structure SchedAct (s s' : TschState) : Prop extends SchedGuar s s' where
  lock : s'.lock = s.lock

namespace SchedAct

theorem refl (s : TschState) : SchedAct s s := ⟨⟨.inl rfl, rfl⟩, rfl⟩

theorem testCurrentLink (p : Nat) (s : TschState) : SchedAct s (s.testCurrentLink p).2 := by
  simp only [TschState.testCurrentLink]
  split
  · exact refl s
  · exact ⟨⟨.inl rfl, rfl⟩, rfl⟩

theorem allocLink (s : TschState) : SchedAct s (s.allocLink cfg).2 := by
  simp only [TschState.allocLink]
  split <;> exact ⟨⟨.inl rfl, rfl⟩, rfl⟩

theorem allocSlotframe (s : TschState) : SchedAct s (s.allocSlotframe cfg).2 := by
  simp only [TschState.allocSlotframe]
  split <;> exact ⟨⟨.inl rfl, rfl⟩, rfl⟩

theorem nbrTableAddLladdr (a : LinkAddr) (s : TschState) :
    SchedAct s (s.nbrTableAddLladdr cfg a).2 := by
  simp only [TschState.nbrTableAddLladdr]
  split
  · exact refl s
  · split <;> exact ⟨⟨.inl rfl, rfl⟩, rfl⟩

end SchedAct

theorem LockClient.schedGuar {α : Type} {p : Prog TschState α} (hp : LockClient SchedAct p) :
    p.Guar SchedGuar :=
  hp.guar (fun _ _ h => h.toSchedGuar) (fun _ => ⟨.inl rfl, rfl⟩) (fun _ _ => ⟨.inl rfl, rfl⟩)
    fun _ _ => ⟨.inl rfl, rfl⟩

variable (cfg) in
theorem schedWrites_schedAct : SchedWrites cfg SchedAct where
  refl := SchedAct.refl
  nbrTableAdd := SchedAct.nbrTableAddLladdr
  newNeighbor _ _ := ⟨⟨.inl rfl, rfl⟩, rfl⟩
  countTxLink _ _ _ _ := ⟨⟨.inl rfl, rfl⟩, rfl⟩
  testCurrentLink := SchedAct.testCurrentLink
  clearCurrentLink _ _ := ⟨⟨.inr rfl, rfl⟩, rfl⟩
  allocLink := SchedAct.allocLink
  listAddLink _ _ _ := ⟨⟨.inl rfl, rfl⟩, rfl⟩
  listRemoveLink _ _ _ := ⟨⟨.inl rfl, rfl⟩, rfl⟩
  freeLink _ _ := ⟨⟨.inl rfl, rfl⟩, rfl⟩
  allocSlotframe := SchedAct.allocSlotframe
  listAddSlotframe _ _ := ⟨⟨.inl rfl, rfl⟩, rfl⟩
  freeSlotframe _ _ := ⟨⟨.inl rfl, rfl⟩, rfl⟩
  listRemoveSlotframe _ _ := ⟨⟨.inl rfl, rfl⟩, rfl⟩

theorem client_setUpNewSchedule (action : Nat) : LockClient SchedAct (setUpNewSchedule cfg action) :=
  (schedWrites_schedAct cfg).setUpNewSchedule (fun _ _ _ _ _ _ _ _ => ⟨⟨.inl rfl, rfl⟩, rfl⟩)
    (fun _ _ _ => ⟨⟨.inl rfl, rfl⟩, rfl⟩) (fun _ _ => ⟨⟨.inl rfl, rfl⟩, rfl⟩) action

theorem LockClient.spinUntil {G : TschState → TschState → Prop} {p : Prog TschState Bool}
    (hp : LockClient G p) (fuel : Nat) : LockClient G (spinUntil fuel p) := by
  refine LockClient.loop (hp.bind fun b => ?_) (fun _ => LockClient.ret _) fuel
  cases b <;> exact .ret _

end QlTsch
