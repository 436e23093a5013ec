/-
# `QlTsch.Lib.Discipline` — programs that go through phases

What a program may do next often depends on a phase of the memory: a lock is free,
asked for, held.  A `Discipline` says how an action may change the phase, which busy
waits may stand in it, and in which phases a program may return.  `Follows D v p` is the
typing of programs by phases: begun in phase `v`, every action of `p` is one that the
discipline allows there.

In a `blind` phase the rest of the program is looked at for every state it might have
read, not only for those of the phase.  Then a program that inspects the phase has to
keep to the discipline on all its branches.

`Follows.run`: as long as the environment leaves the phase alone, what is left of the
program follows the discipline from the phase the run has come to.  `Balanced` programs
begin and end at rest, and so do sequences and loops of them.
-/
import QlTsch.Lib.Prog

namespace Interleave

variable {σ P α β : Type}

structure Discipline (σ P : Type) where
  phase : σ → P
  /-- how an action may change the phase -/
  change : P → P → Prop
  stay : ∀ v, change v v
  /-- the busy waits of a phase -/
  wait : P → (σ → Bool) → Prop
  /-- where a program may return -/
  rest : P → Prop
  blind : P → Prop

inductive Follows (D : Discipline σ P) : P → Prog σ α → Prop
  | ret {v : P} (a : α) : D.rest v → Follows D v (.ret a)
  | act {v w : P} {f : σ → σ} {k : σ → Prog σ α} : D.change v w →
      (∀ s, D.phase s = v → D.phase (f s) = w) →
      (∀ s, D.phase s = v ∨ D.blind v → Follows D w (k s)) → Follows D v (.act f k)
  | await {v : P} {c : σ → Bool} {k : Prog σ α} : D.wait v c →
      (∀ s, D.phase s = v → c s = true → Follows D v k) → Follows D v (.await c k)

/-- From rest to rest. -/
def Balanced (D : Discipline σ P) (p : Prog σ α) : Prop := ∀ v, D.rest v → Follows D v p

variable {D : Discipline σ P} {v : P}

/-! ## Inversion -/

namespace Follows

theorem rest_of_ret {a : α} (h : Follows D v (.ret a : Prog σ α)) : D.rest v := by
  cases h with
  | ret _ hv => exact hv

theorem act_inv {f : σ → σ} {k : σ → Prog σ α} (h : Follows D v (.act f k)) :
    ∃ w, D.change v w ∧ (∀ s, D.phase s = v → D.phase (f s) = w) ∧
      ∀ s, D.phase s = v ∨ D.blind v → Follows D w (k s) := by
  cases h with
  | act hchange hphase hk => exact ⟨_, hchange, hphase, hk⟩

theorem act_same {f : σ → σ} {k : σ → Prog σ α} {s : σ} (hs : D.phase s = v)
    (hf : ∀ s, D.phase (f s) = D.phase s) (h : Follows D v (.act f k)) :
    ∀ t, D.phase t = v ∨ D.blind v → Follows D v (k t) := by
  obtain ⟨w, -, hphase, hk⟩ := h.act_inv
  have hw : v = w := hs.symm.trans ((hf s).symm.trans (hphase s hs))
  rw [← hw] at hk
  exact hk

theorem wait_of_await {c : σ → Bool} {k : Prog σ α} (h : Follows D v (.await c k)) : D.wait v c := by
  cases h with
  | await hwait _ => exact hwait

/-! ## Soundness -/

/-- **Along every run** what is left of the program follows the discipline. -/
theorem run {env cond : σ → σ → Prop} (henv : ∀ s s', env s s' → D.phase s' = D.phase s)
    {p : Prog σ α} {s : σ} (h : Follows D (D.phase s) p) {c : Prog σ α × σ}
    (hr : Run env cond (p, s) c) : Follows D (D.phase c.2) c.1 := by
  induction hr with
  | refl => exact h
  | tail _ hst ih =>
      cases hst with
      | @act f k t _ =>
          obtain ⟨w, -, hphase, hk⟩ := ih.act_inv
          rw [hphase t rfl]
          exact hk t (.inl rfl)
      | await hc =>
          cases ih with
          | await _ hk => exact hk _ rfl hc
      | irq hirq =>
          rw [henv _ _ hirq]
          exact ih

/-! ## Sequences -/

theorem bind {p : Prog σ α} {g : α → Prog σ β} (hp : Follows D v p) (hg : ∀ a, Balanced D (g a)) :
    Follows D v (p >>= g) := by
  induction hp with
  | ret a hv => exact hg a _ hv
  | act hchange hphase _ ih => exact .act hchange hphase ih
  | await hwait _ ih => exact .await hwait ih

theorem act_stay {f : σ → σ} {k : σ → Prog σ α} (hf : ∀ s, D.phase (f s) = D.phase s)
    (hk : ∀ s, Follows D v (k s)) : Follows D v (.act f k) :=
  .act (D.stay v) (fun s hs => (hf s).trans hs) fun s _ => hk s

theorem read {g : σ → β} {k : β → Prog σ α} (hk : ∀ b, Follows D v (k b)) :
    Follows D v (Prog.read g >>= k) :=
  act_stay (fun _ => rfl) fun s => hk (g s)

theorem modify {f : σ → σ} {k : Unit → Prog σ α} (hf : ∀ s, D.phase (f s) = D.phase s)
    (hk : Follows D v (k ())) : Follows D v (Prog.modify f >>= k) :=
  act_stay hf fun _ => hk

theorem update {f : σ → β × σ} {k : β → Prog σ α} (hf : ∀ s, D.phase (f s).2 = D.phase s)
    (hk : ∀ b, Follows D v (k b)) : Follows D v (Prog.update f >>= k) :=
  act_stay hf fun s => hk (f s).1

end Follows

namespace Balanced

theorem ret (a : α) : Balanced D (.ret a : Prog σ α) := fun _ hv => .ret a hv

theorem bind {p : Prog σ α} {g : α → Prog σ β} (hp : Balanced D p) (hg : ∀ a, Balanced D (g a)) :
    Balanced D (p >>= g) :=
  fun v hv => (hp v hv).bind hg

theorem read (g : σ → β) : Balanced D (Prog.read g) :=
  fun _ hv => Follows.act_stay (fun _ => rfl) fun _ => .ret _ hv

theorem modify {f : σ → σ} (hf : ∀ s, D.phase (f s) = D.phase s) : Balanced D (Prog.modify f) :=
  fun _ hv => Follows.act_stay hf fun _ => .ret _ hv

theorem update {f : σ → β × σ} (hf : ∀ s, D.phase (f s).2 = D.phase s) :
    Balanced D (Prog.update f) :=
  fun _ hv => Follows.act_stay hf fun _ => .ret _ hv

theorem forEach {body : β → Prog σ Unit} (hbody : ∀ x, Balanced D (body x)) (xs : List β) :
    Balanced D (Prog.forEach xs body) := by
  induction xs with
  | nil => exact ret ()
  | cons x xs ih => exact (hbody x).bind fun _ => ih

theorem loop (hstuck : ∀ v, D.rest v → D.wait v fun _ => false) {head : Prog σ (Option β)}
    {body : β → Prog σ Unit} (hhead : Balanced D head) (hbody : ∀ x, Balanced D (body x))
    (fuel : Nat) : Balanced D (Prog.loop fuel head body) := by
  induction fuel with
  | zero =>
      intro v hv
      exact .await (hstuck v hv) fun _ _ hc => by cases hc
  | succ fuel ih =>
      refine hhead.bind fun x => ?_
      cases x with
      | none => exact ret ()
      | some x => exact (hbody x).bind fun _ => ih

end Balanced

end Interleave
