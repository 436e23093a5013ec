/-
# `QlTsch.Lib.Guarantee` — what a process guarantees, knowing what it knows

`Guar` of `QlTsch.Lib.Prog` asks a guarantee of every action in every state, as if
the program came to it from nowhere.  Often an action is harmless only because of
what the program has established before: it fills a block that it has allocated
itself.  `Wpg` is `Wp` with a guarantee: every action is within it in each state
where the program can be by then.

What the guarantee allows, and what the environment does, is what a history has to
be closed under (`History.of_wpg`).
-/
import QlTsch.Lib.History

namespace Interleave

variable {σ α β ε : Type}

def Wpg (C : Ctx σ) (G : σ → σ → Prop) : Prog σ α → (α → σ → Prop) → σ → Prop
  | .ret a, Q, s => Q a s
  | .act f k, Q, s =>
      ∀ s', C.rely s s' → C.cond s' (f s') →
        C.inv (f s') ∧ G s' (f s') ∧ Wpg C G (k s') Q (f s')
  | .await c k, Q, s =>
      ∀ s', C.rely s s' → (C.live → c s' = true) ∧ (c s' = true → Wpg C G k Q s')

section Rules
variable {C : Ctx σ} {G : σ → σ → Prop}

theorem Wpg.wp {C' : Ctx σ} (hirq : C'.irq = C.irq) (hinv : C'.inv = C.inv) (hlive : C'.live = C.live)
    (hcond : ∀ s s', C'.cond s s' → C.cond s s') {p : Prog σ α} {Q : α → σ → Prop} {s : σ}
    (h : Wpg C G p Q s) : Wp C' p Q s := by
  have hrely : ∀ {a b}, C'.rely a b → C.rely a b := fun hr => by
    rw [Ctx.rely, hirq] at hr
    exact hr
  induction p generalizing s with
  | ret a => exact h
  | act f k ih =>
      intro s' hr hc
      obtain ⟨hi, -, hk⟩ := h s' (hrely hr) (hcond _ _ hc)
      exact ⟨hinv ▸ hi, ih s' hk⟩
  | await c k ih =>
      intro s' hr
      obtain ⟨hl, hk⟩ := h s' (hrely hr)
      exact ⟨fun hlv => hl (hlive ▸ hlv), fun hc => ih (hk hc)⟩

theorem Wpg.of_guar {p : Prog σ α} {Q : α → σ → Prop} {s : σ} (h : Wp C p Q s) (hg : p.Guar G) :
    Wpg C G p Q s := by
  induction p generalizing s with
  | ret a => exact h
  | act f k ih =>
      intro s' hr hc
      obtain ⟨hi, hk⟩ := h s' hr hc
      exact ⟨hi, hg.1 s', ih s' hk (hg.2 s')⟩
  | await c k ih =>
      intro s' hr
      obtain ⟨hl, hk⟩ := h s' hr
      exact ⟨hl, fun hc => ih (hk hc) hg⟩

theorem Wpg.and_guar {G' : σ → σ → Prop} {p : Prog σ α} {Q : α → σ → Prop} {s : σ}
    (h : Wpg C G p Q s) (hg : p.Guar G') : Wpg C (fun s s' => G s s' ∧ G' s s') p Q s := by
  induction p generalizing s with
  | ret a => exact h
  | act f k ih =>
      intro s' hr hc
      obtain ⟨hif, hgf, hk⟩ := h s' hr hc
      exact ⟨hif, ⟨hgf, hg.1 s'⟩, ih s' hk (hg.2 s')⟩
  | await c k ih =>
      intro s' hr
      obtain ⟨hl, hk⟩ := h s' hr
      exact ⟨hl, fun hc => ih (hk hc) hg⟩

theorem Wpg.mono {p : Prog σ α} {Q Q' : α → σ → Prop} {s : σ} (h : Wpg C G p Q s) (hi : C.inv s)
    (hQ : ∀ a t, C.inv t → Q a t → Q' a t) : Wpg C G p Q' s := by
  induction p generalizing s with
  | ret a => exact hQ a s hi h
  | act f k ih =>
      intro s' hr hc
      obtain ⟨hif, hgf, hk⟩ := h s' hr hc
      exact ⟨hif, hgf, ih s' hk hif⟩
  | await c k ih =>
      intro s' hr
      obtain ⟨hl, hk⟩ := h s' hr
      exact ⟨hl, fun hc => ih (hk hc) (C.inv_rely hi hr)⟩

theorem Wpg.bind {p : Prog σ α} {g : α → Prog σ β} {Q : β → σ → Prop} {s : σ}
    (h : Wpg C G p (fun a t => Wpg C G (g a) Q t) s) : Wpg C G (p >>= g) Q s := by
  induction p generalizing s with
  | ret a => exact h
  | act f k ih =>
      intro s' hr hc
      exact ⟨(h s' hr hc).1, (h s' hr hc).2.1, ih s' (h s' hr hc).2.2⟩
  | await c k ih =>
      intro s' hr
      exact ⟨(h s' hr).1, fun hc => ih ((h s' hr).2 hc)⟩

theorem Wpg.call {p : Prog σ α} {g : α → Prog σ β} {P : α → σ → Prop} {Q : β → σ → Prop} {s : σ}
    (hp : Wpg C G p P s) (hi : C.inv s) (hg : ∀ a t, C.inv t → P a t → Wpg C G (g a) Q t) :
    Wpg C G (p >>= g) Q s :=
  Wpg.bind (hp.mono hi hg)

theorem Wpg.read (hrefl : ∀ s, G s s) {g : σ → β} {Q : β → σ → Prop} {s : σ} (hi : C.inv s)
    (h : ∀ s', C.rely s s' → C.inv s' → Q (g s') s') : Wpg C G (Prog.read g) Q s :=
  Wpg.of_guar (Wp.read hi h) (Prog.Guar.read hrefl g)

theorem Wpg.modify {f : σ → σ} {Q : Unit → σ → Prop} {s : σ} (hi : C.inv s)
    (h : ∀ s', C.rely s s' → C.inv s' → C.inv (f s') ∧ G s' (f s') ∧ Q () (f s')) :
    Wpg C G (Prog.modify f) Q s :=
  fun s' hr _ => h s' hr (C.inv_rely hi hr)

theorem Wpg.update {f : σ → β × σ} {Q : β → σ → Prop} {s : σ} (hi : C.inv s)
    (h : ∀ s', C.rely s s' → C.inv s' →
      C.inv (f s').2 ∧ G s' (f s').2 ∧ Q (f s').1 (f s').2) :
    Wpg C G (Prog.update f) Q s :=
  fun s' hr _ => h s' hr (C.inv_rely hi hr)

theorem Wpg.forEach {body : β → Prog σ Unit} {J : σ → Prop}
    (hbody : ∀ x s, C.inv s → J s → Wpg C G (body x) (fun _ t => J t) s) :
    ∀ (xs : List β) {s : σ}, C.inv s → J s → Wpg C G (Prog.forEach xs body) (fun _ t => J t) s
  | [], _, _, hJ => hJ
  | x :: xs, s, hi, hJ =>
      Wpg.call (hbody x s hi hJ) hi fun _ _ hi' hJ' => Wpg.forEach hbody xs hi' hJ'

end Rules

theorem Wpg.run {C : Ctx σ} {G : σ → σ → Prop} {p : Prog σ α} {Q : α → σ → Prop} {s : σ}
    (hcond : ∀ s s', C.cond s s') (hi : C.inv s) (h : Wpg C G p Q s) {c : Prog σ α × σ}
    (hr : Run C.irq (fun _ _ => True) (p, s) c) :
    C.inv c.2 ∧ ∃ t, C.inv t ∧ C.rely t c.2 ∧ Wpg C G c.1 Q t := by
  induction hr with
  | refl => exact ⟨hi, s, hi, .refl, h⟩
  | tail _ hst ih =>
      obtain ⟨hinv, t, hit, hrel, hwp⟩ := ih
      cases hst with
      | act _ =>
          obtain ⟨hif, -, hk⟩ := hwp _ hrel (hcond _ _)
          exact ⟨hif, _, hif, .refl, hk⟩
      | await hc => exact ⟨hinv, _, hinv, .refl, (hwp _ hrel).2 hc⟩
      | irq hirq => exact ⟨C.stable _ _ hinv hirq, t, hit, hrel.tail hirq, hwp⟩

theorem Wpg.run_within {C : Ctx σ} {G : σ → σ → Prop} {p : Prog σ α} {Q : α → σ → Prop} {s : σ}
    (hcond : ∀ s s', C.cond s s') (hi : C.inv s) (h : Wpg C G p Q s) {c : Prog σ α × σ}
    (hr : Run C.irq (fun _ _ => True) (p, s) c) : Run C.irq G (p, s) c := by
  induction hr with
  | refl => exact .refl
  | tail hr hst ih =>
      obtain ⟨-, t, -, hrel, hwp⟩ := h.run hcond hi hr
      cases hst with
      | act _ => exact ih.tail (.act (hwp _ hrel (hcond _ _)).2.1)
      | await hc => exact ih.tail (.await hc)
      | irq hirq => exact ih.tail (.irq hirq)

theorem Wpg.exec {C : Ctx σ} {G : σ → σ → Prop} {p : Prog σ α} {Q : α → σ → Prop} {s t : σ} {a : α}
    (hrefl : ∀ s, G s s) (htrans : ∀ {a b c}, G a b → G b c → G a c)
    (hcond : ∀ s s', C.cond s s') (h : Wpg C G p Q s) (he : p.exec s = some (a, t)) :
    G s t ∧ Q a t := by
  induction p generalizing s with
  | ret a =>
      cases he
      exact ⟨hrefl _, h⟩
  | act f k ih =>
      obtain ⟨-, hg, hk⟩ := h s .refl (hcond _ _)
      obtain ⟨hrest, hq⟩ := ih s hk he
      exact ⟨htrans hg hrest, hq⟩
  | await c k ih =>
      simp only [Prog.exec] at he
      split at he
      · rename_i hc
        exact ih ((h s .refl).2 hc) he
      · cases he

/-- Every step of a run is within the guarantee, if those of the environment are. -/
theorem Wpg.step {C : Ctx σ} {G : σ → σ → Prop} {p : Prog σ α} {Q : α → σ → Prop} {s : σ}
    (hcond : ∀ s s', C.cond s s') (hi : C.inv s) (h : Wpg C G p Q s) (hrefl : ∀ s, G s s)
    (hirq : ∀ s s', C.irq s s' → G s s') {c c' : Prog σ α × σ}
    (hr : Run C.irq (fun _ _ => True) (p, s) c) (hst : Step C.irq (fun _ _ => True) c c') :
    G c.2 c'.2 := by
  obtain ⟨-, t, -, hrel, hwp⟩ := h.run hcond hi hr
  cases hst with
  | act _ => exact (hwp _ hrel (hcond _ _)).2.1
  | await _ => exact hrefl _
  | irq hs => exact hirq _ _ hs

/-- **Soundness.**  A relation between the events so far and the state holds along
every history, if the environment keeps it and the guarantee does. -/
theorem History.of_wpg {C : Ctx σ} {G : σ → σ → Prop} {env : List ε → σ → σ → Prop}
    {seen : σ → σ → List ε} {R : List ε → σ → Prop} {p : Prog σ α} {Q : α → σ → Prop} {s : σ}
    (hirq : ∀ es s s', env es s s' → C.irq s s') (hcond : ∀ s s', C.cond s s') (hi : C.inv s)
    (hw : Wpg C G p Q s) (h0 : R [] s)
    (hact : ∀ h s s', C.inv s → C.inv s' → R h s → G s s' → R (h ++ seen s s') s')
    (henv : ∀ h es s s', C.inv s → C.inv s' → R h s → env es s s' → R (h ++ es) s')
    {h : List ε} {c : Prog σ α × σ} (hr : History env seen (p, s) h c) : C.inv c.2 ∧ R h c.2 := by
  have hall : C.inv c.2 ∧ R h c.2 ∧ ∃ t, C.inv t ∧ C.rely t c.2 ∧ Wpg C G c.1 Q t := by
    induction hr with
    | start => exact ⟨hi, h0, s, hi, .refl, hw⟩
    | act _ ih =>
        obtain ⟨hinv, hR, t, _, hrel, hwp⟩ := ih
        obtain ⟨hif, hgf, hk⟩ := hwp _ hrel (hcond _ _)
        exact ⟨hif, hact _ _ _ hinv hif hR hgf, _, hif, .refl, hk⟩
    | await _ hc ih =>
        obtain ⟨hinv, hR, t, _, hrel, hwp⟩ := ih
        exact ⟨hinv, hR, _, hinv, .refl, (hwp _ hrel).2 hc⟩
    | env _ he ih =>
        obtain ⟨hinv, hR, t, hit, hrel, hwp⟩ := ih
        have hinv' := C.stable _ _ hinv (hirq _ _ _ he)
        exact ⟨hinv', henv _ _ _ _ hinv hinv' hR he, t, hit, hrel.tail (hirq _ _ _ he), hwp⟩
  exact ⟨hall.1, hall.2.1⟩

end Interleave
