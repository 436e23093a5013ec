/-
# `QlTsch.Lib.Prog` — programs of atomic actions, run under interrupts

One cooperative process shares a memory `σ` with an interrupt handler.  The
process is a `Prog`: a tree of atomic actions and busy waits.  The handler is a
relation on `σ`: one interrupt runs to its end before the process goes on, and
it may fire between any two actions of the process.

Two readings of one program:

* `exec` — the process alone, nothing interrupts it; a busy wait whose
  condition is false never ends, which is `none`;
* `Run` — every interleaving with the interrupts.

`Wp C p Q s` is what a proof establishes about the second reading: from `s`,
however the interrupts of `C` fall, every action of `p` leaves the invariant of
`C` true and `p` can only return in a state that satisfies `Q`.  The invariant
is asked for after *every* action, not only at the end, so an interrupt always
finds it (`Wp.run`).  With `C.live` every busy wait has to be passable at once;
then `Wp` is also a termination proof for `exec` (`Wp.exec`).
-/
import Mathlib.Logic.Relation

namespace Interleave

variable {σ α β γ ι : Type}

/-! ## Programs -/

/-- A process program.  `act f k` is one atomic action: it replaces the state
`s` by `f s` and goes on with `k s`, so what it read is what it saw before its
own write.  `await c k` spins until `c` holds. -/
inductive Prog (σ α : Type) : Type where
  | ret (a : α)
  | act (f : σ → σ) (k : σ → Prog σ α)
  | await (c : σ → Bool) (k : Prog σ α)

namespace Prog

def bind : Prog σ α → (α → Prog σ β) → Prog σ β
  | .ret a, g => g a
  | .act f k, g => .act f (fun s => (k s).bind g)
  | .await c k, g => .await c (k.bind g)

instance : Monad (Prog σ) where
  pure := .ret
  bind := bind

theorem bind_assoc (p : Prog σ α) (f : α → Prog σ β) (g : β → Prog σ γ) :
    p >>= f >>= g = p >>= fun a => f a >>= g := by
  induction p with
  | ret a => rfl
  | act h k ih => exact congrArg (Prog.act h) (funext ih)
  | await c k ih => exact congrArg (Prog.await c) ih

theorem bind_ret (p : Prog σ α) : p >>= Prog.ret = p := by
  induction p with
  | ret a => rfl
  | act h k ih => exact congrArg (Prog.act h) (funext ih)
  | await c k ih => exact congrArg (Prog.await c) ih

/-- Read a value, change nothing. -/
def read (g : σ → β) : Prog σ β := .act id (fun s => .ret (g s))

/-- Change the state in one action. -/
def modify (f : σ → σ) : Prog σ Unit := .act f (fun _ => .ret ())

/-- Change the state and return a value, in one action. -/
def update (f : σ → β × σ) : Prog σ β := .act (fun s => (f s).2) (fun s => .ret (f s).1)

/-- Busy-wait until `c`. -/
def waitFor (c : σ → Bool) : Prog σ Unit := .await c (.ret ())

/-- A loop that never ends. -/
def hang : Prog σ Unit := .await (fun _ => false) (.ret ())

/-- `while (x = head) body(x)`, unrolled at most `fuel` times; a loop that is
not done by then counts as one that never ends. -/
def loop : Nat → Prog σ (Option β) → (β → Prog σ Unit) → Prog σ Unit
  | 0, _, _ => hang
  | fuel + 1, head, body => do
      match ← head with
      | none => pure ()
      | some x =>
          body x
          loop fuel head body

/-- `body` for each element of a list, in order. -/
def forEach : List β → (β → Prog σ Unit) → Prog σ Unit
  | [], _ => pure ()
  | x :: xs, body => do
      body x
      forEach xs body

theorem forEach_append (xs ys : List β) (body : β → Prog σ Unit) :
    forEach (xs ++ ys) body = forEach xs body >>= fun _ => forEach ys body := by
  induction xs with
  | nil => rfl
  | cons x xs ih =>
      show (body x >>= fun _ => forEach (xs ++ ys) body) = _
      rw [ih]
      exact (bind_assoc (body x) (fun _ => forEach xs body) (fun _ => forEach ys body)).symm

/-- The value of a program that has nothing left to do. -/
def result : Prog σ α → Option α
  | .ret a => some a
  | .act _ _ | .await _ _ => none

theorem eq_ret_of_result {p : Prog σ α} {a : α} (h : p.result = some a) : p = .ret a := by
  cases p with
  | ret b => exact congrArg Prog.ret (Option.some.inj h)
  | act _ _ => cases h
  | await _ _ => cases h

/-! ## The process alone -/

/-- Run without interrupts: the value and the final state, `none` if a busy
wait never ends. -/
def exec : Prog σ α → σ → Option (α × σ)
  | .ret a, s => some (a, s)
  | .act f k, s => (k s).exec (f s)
  | .await c k, s => if c s then k.exec s else none

theorem exec_bind (p : Prog σ α) (g : α → Prog σ β) (s : σ) :
    (p >>= g).exec s = (p.exec s).bind fun r => (g r.1).exec r.2 := by
  induction p generalizing s with
  | ret a => rfl
  | act f k ih => exact ih s (f s)
  | await c k ih =>
      show (if c s then (k >>= g).exec s else none) =
        (if c s then k.exec s else none).bind fun r => (g r.1).exec r.2
      split
      · exact ih s
      · rfl

@[simp] theorem exec_read (g : σ → β) (s : σ) : (read g).exec s = some (g s, s) := rfl

/-- Every action of the program relates the states before and after it by `G`,
whatever it read before. -/
def Guar (G : σ → σ → Prop) : Prog σ α → Prop
  | .ret _ => True
  | .act f k => (∀ s, G s (f s)) ∧ ∀ s, (k s).Guar G
  | .await _ k => k.Guar G

end Prog

open Prog (Guar)

/-! ## The process under interrupts -/

/-- One step of the process, or one interrupt.  `cond` is asked of every action
of the process, `irq` of every interrupt: a run whose steps all meet a side
condition is a run with smaller `irq` and `cond`. -/
inductive Step (irq cond : σ → σ → Prop) : Prog σ α × σ → Prog σ α × σ → Prop
  | act {f : σ → σ} {k : σ → Prog σ α} {s : σ} :
      cond s (f s) → Step irq cond (.act f k, s) (k s, f s)
  | await {c : σ → Bool} {k : Prog σ α} {s : σ} :
      c s = true → Step irq cond (.await c k, s) (k, s)
  | irq {p : Prog σ α} {s s' : σ} : irq s s' → Step irq cond (p, s) (p, s')

theorem Step.mono {irq irq' cond cond' : σ → σ → Prop} {c c' : Prog σ α × σ}
    (hirq : ∀ s s', irq s s' → irq' s s') (hcond : ∀ s s', cond s s' → cond' s s')
    (h : Step irq cond c c') : Step irq' cond' c c' := by
  cases h with
  | act hc => exact .act (hcond _ _ hc)
  | await hc => exact .await hc
  | irq hi => exact .irq (hirq _ _ hi)

/-- Runs, of any length and in any order. -/
abbrev Run (irq cond : σ → σ → Prop) : Prog σ α × σ → Prog σ α × σ → Prop :=
  Relation.ReflTransGen (Step irq cond)

theorem Run.mono {irq irq' cond cond' : σ → σ → Prop} {c c' : Prog σ α × σ}
    (hirq : ∀ s s', irq s s' → irq' s s') (hcond : ∀ s s', cond s s' → cond' s s')
    (h : Run irq cond c c') : Run irq' cond' c c' :=
  Relation.ReflTransGen.mono (fun _ _ hs => hs.mono hirq hcond) _ _ h

theorem Run.of_exec {irq : σ → σ → Prop} {p : Prog σ α} {s : σ} {r : α × σ}
    (h : p.exec s = some r) : Run irq (fun _ _ => True) (p, s) (.ret r.1, r.2) := by
  induction p generalizing s with
  | ret a =>
      cases h
      exact .refl
  | act f k ih => exact .head (.act trivial) (ih s h)
  | await c k ih =>
      simp only [Prog.exec] at h
      split at h
      · rename_i hc
        exact .head (.await hc) (ih h)
      · cases h

/-- A concrete order of steps: `none` is the process's next step, `some i` an
interrupt with input `i`.  `ok` is asked of every action of the process. -/
def runMoves (h : ι → σ → Option σ) (ok : σ → σ → Bool) :
    List (Option ι) → Prog σ α × σ → Option (Prog σ α × σ)
  | [], c => some c
  | none :: ms, (.act f k, s) => if ok s (f s) then runMoves h ok ms (k s, f s) else none
  | none :: ms, (.await c k, s) => if c s then runMoves h ok ms (k, s) else none
  | none :: _, (.ret _, _) => none
  | some i :: ms, (p, s) =>
      match h i s with
      | some s' => runMoves h ok ms (p, s')
      | none => none

section
variable {h : ι → σ → Option σ} {ok : σ → σ → Bool} {irq cond : σ → σ → Prop}

theorem runMoves_run (hirq : ∀ i s s', h i s = some s' → irq s s')
    (hcond : ∀ s s', ok s s' = true → cond s s') :
    ∀ (ms : List (Option ι)) {c c' : Prog σ α × σ}, runMoves h ok ms c = some c' →
      Run irq cond c c'
  | [], c, c', hr => by
      simp only [runMoves, Option.some.injEq] at hr
      subst hr
      exact .refl
  | none :: ms, (.act f k, s), c', hr => by
      simp only [runMoves] at hr
      split at hr
      · rename_i hok
        exact .head (.act (hcond _ _ hok)) (runMoves_run hirq hcond ms hr)
      · cases hr
  | none :: ms, (.await c k, s), c', hr => by
      simp only [runMoves] at hr
      split at hr
      · rename_i hc
        exact .head (.await hc) (runMoves_run hirq hcond ms hr)
      · cases hr
  | none :: _, (.ret _, _), _, hr => by simp [runMoves] at hr
  | some i :: ms, (p, s), c', hr => by
      simp only [runMoves] at hr
      split at hr
      · rename_i s' hs
        exact .head (.irq (hirq _ _ _ hs)) (runMoves_run hirq hcond ms hr)
      · cases hr

variable (h ok irq cond) in
theorem exists_run (hirq : ∀ i s s', h i s = some s' → irq s s')
    (hcond : ∀ s s', ok s s' = true → cond s s') (ms : List (Option ι)) (c : Prog σ α × σ)
    (P : Prog σ α × σ → Bool) (hP : (runMoves h ok ms c).any P = true) :
    ∃ c', Run irq cond c c' ∧ P c' = true := by
  cases hr : runMoves h ok ms c with
  | none => simp [hr] at hP
  | some c' =>
      rw [hr] at hP
      exact ⟨c', runMoves_run hirq hcond ms hr, hP⟩

end

/-! ## Weakest preconditions under interrupts -/

/-- What a proof about a program is relative to: the interrupts, the side
condition on the process's actions, an invariant the interrupts keep, and
whether busy waits have to be shown passable. -/
structure Ctx (σ : Type) where
  irq : σ → σ → Prop
  cond : σ → σ → Prop
  inv : σ → Prop
  live : Prop
  stable : ∀ s s', inv s → irq s s' → inv s'

/-- What any number of interrupts can do. -/
abbrev Ctx.rely (C : Ctx σ) : σ → σ → Prop := Relation.ReflTransGen C.irq

theorem Ctx.inv_rely (C : Ctx σ) {s s' : σ} (hi : C.inv s) (h : C.rely s s') : C.inv s' := by
  induction h with
  | refl => exact hi
  | tail _ hst ih => exact C.stable _ _ ih hst

/-- A reflexive, transitive relation that one interrupt respects is respected
by any number of them, as long as the invariant is at hand. -/
theorem Ctx.rely_lift (C : Ctx σ) {R : σ → σ → Prop} (hrefl : ∀ s, R s s)
    (htrans : ∀ {a b c}, R a b → R b c → R a c)
    (hR : ∀ {s s'}, C.inv s → C.irq s s' → R s s')
    {s s' : σ} (hi : C.inv s) (h : C.rely s s') : R s s' := by
  induction h with
  | refl => exact hrefl _
  | tail hs hst ih => exact htrans ih (hR (C.inv_rely hi hs) hst)

def Wp (C : Ctx σ) : Prog σ α → (α → σ → Prop) → σ → Prop
  | .ret a, Q, s => Q a s
  | .act f k, Q, s =>
      ∀ s', C.rely s s' → C.cond s' (f s') → C.inv (f s') ∧ Wp C (k s') Q (f s')
  | .await c k, Q, s =>
      ∀ s', C.rely s s' → (C.live → c s' = true) ∧ (c s' = true → Wp C k Q s')

section Rules
variable {C : Ctx σ}

theorem Wp.mono {p : Prog σ α} {Q Q' : α → σ → Prop} {s : σ}
    (h : Wp C p Q s) (hi : C.inv s) (hQ : ∀ a t, C.inv t → Q a t → Q' a t) :
    Wp C p Q' s := by
  induction p generalizing s with
  | ret a => exact hQ a s hi h
  | act f k ih =>
      intro s' hr hc
      obtain ⟨hif, hk⟩ := h s' hr hc
      exact ⟨hif, ih s' hk hif⟩
  | await c k ih =>
      intro s' hr
      obtain ⟨hl, hk⟩ := h s' hr
      exact ⟨hl, fun hc => ih (hk hc) (C.inv_rely hi hr)⟩

theorem Wp.bind {p : Prog σ α} {g : α → Prog σ β} {Q : β → σ → Prop} {s : σ}
    (h : Wp C p (fun a t => Wp C (g a) Q t) s) : Wp C (p >>= g) Q s := by
  induction p generalizing s with
  | ret a => exact h
  | act f k ih =>
      intro s' hr hc
      exact ⟨(h s' hr hc).1, ih s' (h s' hr hc).2⟩
  | await c k ih =>
      intro s' hr
      exact ⟨(h s' hr).1, fun hc => ih ((h s' hr).2 hc)⟩

/-- The rule for one call: its own specification, then the rest of the caller
from any state the specification allows. -/
theorem Wp.call {p : Prog σ α} {g : α → Prog σ β} {P : α → σ → Prop} {Q : β → σ → Prop} {s : σ}
    (hp : Wp C p P s) (hi : C.inv s) (hg : ∀ a t, C.inv t → P a t → Wp C (g a) Q t) :
    Wp C (p >>= g) Q s :=
  Wp.bind (hp.mono hi hg)

theorem Wp.ret {a : α} {Q : α → σ → Prop} {s : σ} (h : Q a s) :
    Wp C (pure a : Prog σ α) Q s := h

theorem Wp.read {g : σ → β} {Q : β → σ → Prop} {s : σ} (hi : C.inv s)
    (h : ∀ s', C.rely s s' → C.inv s' → Q (g s') s') : Wp C (Prog.read g) Q s :=
  fun s' hr _ => ⟨C.inv_rely hi hr, h s' hr (C.inv_rely hi hr)⟩

theorem Wp.modify {f : σ → σ} {Q : Unit → σ → Prop} {s : σ} (hi : C.inv s)
    (h : ∀ s', C.rely s s' → C.inv s' → C.cond s' (f s') → C.inv (f s') ∧ Q () (f s')) :
    Wp C (Prog.modify f) Q s :=
  fun s' hr hc => h s' hr (C.inv_rely hi hr) hc

theorem Wp.update {f : σ → β × σ} {Q : β → σ → Prop} {s : σ} (hi : C.inv s)
    (h : ∀ s', C.rely s s' → C.inv s' → C.cond s' (f s').2 →
      C.inv (f s').2 ∧ Q (f s').1 (f s').2) :
    Wp C (Prog.update f) Q s :=
  fun s' hr hc => h s' hr (C.inv_rely hi hr) hc

theorem Wp.waitFor {c : σ → Bool} {Q : Unit → σ → Prop} {s : σ} (hi : C.inv s)
    (h : ∀ s', C.rely s s' → C.inv s' → (C.live → c s' = true) ∧ (c s' = true → Q () s')) :
    Wp C (Prog.waitFor c) Q s :=
  fun s' hr => h s' hr (C.inv_rely hi hr)

/-- `forEach`, by an invariant indexed with the elements still to come. -/
theorem Wp.forEach {body : β → Prog σ Unit} {J : List β → σ → Prop}
    (hbody : ∀ x xs s, C.inv s → J (x :: xs) s → Wp C (body x) (fun _ t => J xs t) s) :
    ∀ (xs : List β) {s : σ}, C.inv s → J xs s → Wp C (Prog.forEach xs body) (fun _ t => J [] t) s
  | [], _, _, hJ => hJ
  | x :: xs, s, hi, hJ =>
      Wp.call (hbody x xs s hi hJ) hi fun _ _ hi' hJ' => Wp.forEach hbody xs hi' hJ'

/-- `loop`, by an invariant the body keeps, indexed with a bound on the rounds
still to come.  A run that is out of fuel has not returned, so the bound matters
only where termination is asked for. -/
theorem Wp.loop {head : Prog σ (Option β)} {body : β → Prog σ Unit} {J : Nat → σ → Prop}
    {Q : Unit → σ → Prop}
    (hhead : ∀ n s, C.inv s → J n s → Wp C head (fun x t => match x with
      | none => Q () t
      | some x => (C.live → n ≠ 0) ∧ Wp C (body x) (fun _ u => J (n - 1) u) t) s) :
    ∀ (fuel : Nat) {n : Nat} {s : σ}, (C.live → n < fuel) → C.inv s → J n s →
      Wp C (Prog.loop fuel head body) Q s
  | 0, _, _, hfuel, _, _ => fun _ _ =>
      ⟨fun h => absurd (hfuel h) (by omega), fun h => absurd h (by simp)⟩
  | fuel + 1, n, s, hfuel, hi, hJ => by
      refine Wp.call (hhead n s hi hJ) hi fun x t hit hx => ?_
      cases x with
      | none => exact hx
      | some x =>
          refine Wp.call hx.2 hit fun _ u hiu hJu => Wp.loop hhead fuel (fun hl => ?_) hiu hJu
          have hn := hx.1 hl
          have := hfuel hl
          omega

/-- A program all of whose actions keep the invariant, and with it `J`, by
themselves. -/
theorem Wp.of_guar {G : σ → σ → Prop} {J : σ → Prop} {p : Prog σ α} (hlive : ¬ C.live)
    (hJ : ∀ s s', C.inv s → J s → C.irq s s' → J s')
    (hG : ∀ s s', C.inv s → J s → G s s' → C.cond s s' → C.inv s' ∧ J s') :
    ∀ {s : σ}, p.Guar G → C.inv s → J s → Wp C p (fun _ t => J t) s := by
  have hrely : ∀ {s s'}, C.inv s → J s → C.rely s s' → J s' := fun hi hj hr =>
    C.rely_lift (R := fun a b => J a → J b) (fun _ h => h) (fun h1 h2 h => h2 (h1 h))
      (fun hi hs hj => hJ _ _ hi hj hs) hi hr hj
  induction p with
  | ret a => intro _ _ _ hj; exact hj
  | act f k ih =>
      intro s hp hi hj s' hr hc
      obtain ⟨hif, hjf⟩ := hG s' (f s') (C.inv_rely hi hr) (hrely hi hj hr) (hp.1 s') hc
      exact ⟨hif, ih s' (hp.2 s') hif hjf⟩
  | await c k ih =>
      intro s hp hi hj s' hr
      exact ⟨fun h => absurd h hlive, fun _ => ih hp (C.inv_rely hi hr) (hrely hi hj hr)⟩

theorem Wp.of_guar_inv {G : σ → σ → Prop} {p : Prog σ α} (hlive : ¬ C.live)
    (hG : ∀ s s', C.inv s → G s s' → C.cond s s' → C.inv s') {s : σ} (hp : p.Guar G)
    (hi : C.inv s) : Wp C p (fun _ _ => True) s :=
  Wp.of_guar (J := fun _ => True) hlive (fun _ _ _ _ _ => trivial)
    (fun s s' h _ hg hc => ⟨hG s s' h hg hc, trivial⟩) hp hi trivial

end Rules

/-! ## Guarantees -/

section Guarantees
variable {G : σ → σ → Prop}

theorem Prog.Guar.bind {p : Prog σ α} {f : α → Prog σ β} (hp : p.Guar G) (hf : ∀ a, (f a).Guar G) :
    (p >>= f).Guar G := by
  induction p with
  | ret a => exact hf a
  | act g k ih => exact ⟨hp.1, fun s => ih s (hp.2 s)⟩
  | await c k ih => exact ih hp

theorem Prog.Guar.mono {G' : σ → σ → Prop} (hG : ∀ s s', G s s' → G' s s') {p : Prog σ α}
    (hp : p.Guar G) : p.Guar G' := by
  induction p with
  | ret a => trivial
  | act g k ih => exact ⟨fun s => hG _ _ (hp.1 s), fun s => ih s (hp.2 s)⟩
  | await c k ih => exact ih hp

theorem Prog.Guar.read (hG : ∀ s, G s s) (g : σ → β) : (Prog.read g).Guar G := ⟨hG, fun _ => trivial⟩

theorem Prog.Guar.modify {f : σ → σ} (hf : ∀ s, G s (f s)) : (Prog.modify f).Guar G :=
  ⟨hf, fun _ => trivial⟩

theorem Prog.Guar.update {f : σ → β × σ} (hf : ∀ s, G s (f s).2) : (Prog.update f).Guar G :=
  ⟨hf, fun _ => trivial⟩

theorem Prog.Guar.loop {head : Prog σ (Option β)} {body : β → Prog σ Unit} (hh : head.Guar G)
    (hb : ∀ x, (body x).Guar G) : ∀ fuel, (Prog.loop fuel head body).Guar G
  | 0 => trivial
  | fuel + 1 => hh.bind fun x => by
      cases x with
      | none => trivial
      | some x => exact (hb x).bind fun _ => Prog.Guar.loop hh hb fuel

theorem Prog.Guar.forEach {body : β → Prog σ Unit} (hb : ∀ x, (body x).Guar G) :
    ∀ xs : List β, (Prog.forEach xs body).Guar G
  | [] => trivial
  | x :: xs => (hb x).bind fun _ => Prog.Guar.forEach hb xs

theorem Run.guar {irq cond : σ → σ → Prop} {c c' : Prog σ α × σ} (hg : c.1.Guar G)
    (hr : Run irq cond c c') : c'.1.Guar G := by
  induction hr with
  | refl => exact hg
  | tail _ hst ih =>
      cases hst with
      | act _ => exact ih.2 _
      | await _ => exact ih
      | irq _ => exact ih

/-- As long as no interrupt comes, a run is within what its actions are within. -/
theorem Run.within {cond : σ → σ → Prop} {p : Prog σ α} {s : σ} {c : Prog σ α × σ}
    (hrefl : ∀ s, G s s) (htrans : ∀ {a b c}, G a b → G b c → G a c) (hg : p.Guar G)
    (hr : Run (fun _ _ => False) cond (p, s) c) : G s c.2 := by
  induction hr with
  | refl => exact hrefl _
  | tail hrun hst ih =>
      have hleft := Run.guar hg hrun
      cases hst with
      | act _ => exact htrans ih (hleft.1 _)
      | await _ => exact ih
      | irq hi => exact hi.elim

/-- What the interrupts keep and the guarantee keeps, every run keeps. -/
theorem Run.keeps {irq cond : σ → σ → Prop} {R : σ → Prop} {c c' : Prog σ α × σ}
    (hirq : ∀ s s', R s → irq s s' → R s') (hG : ∀ s s', R s → G s s' → R s') (hg : c.1.Guar G)
    (h : R c.2) (hr : Run irq cond c c') : R c'.2 := by
  induction hr with
  | refl => exact h
  | tail hrun hst ih =>
      have hleft := Run.guar hg hrun
      cases hst with
      | act _ => exact hG _ _ ih (hleft.1 _)
      | await _ => exact ih
      | irq hi => exact hirq _ _ ih hi

end Guarantees

/-! ## What a weakest precondition says about runs -/

/-- **Soundness.**  Along every run the invariant holds, and what is left of
the program is still correct from some state only interrupts ago. -/
theorem Wp.run {C : Ctx σ} {p : Prog σ α} {Q : α → σ → Prop} {s : σ}
    (hi : C.inv s) (h : Wp C p Q s) {c : Prog σ α × σ} (hr : Run C.irq C.cond (p, s) c) :
    C.inv c.2 ∧ ∃ t, C.inv t ∧ C.rely t c.2 ∧ Wp C c.1 Q t := by
  induction hr with
  | refl => exact ⟨hi, s, hi, .refl, h⟩
  | tail _ hst ih =>
      obtain ⟨hinv, t, hit, hrel, hwp⟩ := ih
      cases hst with
      | act hc =>
          obtain ⟨hif, hk⟩ := hwp _ hrel hc
          exact ⟨hif, _, hif, .refl, hk⟩
      | await hc => exact ⟨hinv, _, hinv, .refl, (hwp _ hrel).2 hc⟩
      | irq hirq => exact ⟨C.stable _ _ hinv hirq, t, hit, hrel.tail hirq, hwp⟩

/-- With `live`, the process alone returns, and in a state the postcondition
allows. -/
theorem Wp.exec {C : Ctx σ} (hlive : C.live) (hcond : ∀ s s', C.cond s s')
    {p : Prog σ α} {Q : α → σ → Prop} {s : σ} (h : Wp C p Q s) :
    ∃ a t, p.exec s = some (a, t) ∧ Q a t := by
  induction p generalizing s with
  | ret a => exact ⟨a, s, rfl, h⟩
  | act f k ih => exact ih s (h s .refl (hcond _ _)).2
  | await c k ih =>
      obtain ⟨hc, hk⟩ := h s .refl
      obtain ⟨a, t, he, hq⟩ := ih (hk (hc hlive))
      exact ⟨a, t, by simp [Prog.exec, hc hlive, he], hq⟩

end Interleave
