/-
# `QlTsch.Lib.History` — runs with a record of what happened

A run of `QlTsch.Lib.Prog` is a path through states.  Some properties are about
what happened on the way: how often, in which order.  A `History` is a run
together with the list of its events, oldest first.  A step of the environment
brings its events along; those of an action of the process are read off the
states before and after it.

`History.invariant` is the induction: a relation between the events so far and
the state is kept by what the environment does and by what the guarantee of the
process allows.  Along the way it may use what a weakest precondition has
established of every state of every run.
-/
import QlTsch.Lib.Prog

namespace Interleave

variable {σ α ε : Type}

inductive History (env : List ε → σ → σ → Prop) (seen : σ → σ → List ε) (c₀ : Prog σ α × σ) :
    List ε → Prog σ α × σ → Prop
  | start : History env seen c₀ [] c₀
  | act {h : List ε} {f : σ → σ} {k : σ → Prog σ α} {s : σ} :
      History env seen c₀ h (.act f k, s) → History env seen c₀ (h ++ seen s (f s)) (k s, f s)
  | await {h : List ε} {c : σ → Bool} {k : Prog σ α} {s : σ} :
      History env seen c₀ h (.await c k, s) → c s = true → History env seen c₀ h (k, s)
  | env {h es : List ε} {p : Prog σ α} {s s' : σ} :
      History env seen c₀ h (p, s) → env es s s' → History env seen c₀ (h ++ es) (p, s')

namespace History

variable {env : List ε → σ → σ → Prop} {seen : σ → σ → List ε} {c₀ c : Prog σ α × σ} {h : List ε}

theorem run (hr : History env seen c₀ h c) :
    Run (fun s s' => ∃ es, env es s s') (fun _ _ => True) c₀ c := by
  induction hr with
  | start => exact .refl
  | act _ ih => exact ih.tail (.act trivial)
  | await _ hc ih => exact ih.tail (.await hc)
  | env _ he ih => exact ih.tail (.irq ⟨_, he⟩)

theorem trans {c' : Prog σ α × σ} {h' : List ε} (hr : History env seen c₀ h c)
    (hr' : History env seen c h' c') : History env seen c₀ (h ++ h') c' := by
  induction hr' with
  | start =>
      rw [List.append_nil]
      exact hr
  | act _ ih =>
      rw [← List.append_assoc]
      exact ih.act
  | await _ hc ih => exact ih.await hc
  | env _ he ih =>
      rw [← List.append_assoc]
      exact ih.env he

theorem guar {G : σ → σ → Prop} (hg : c₀.1.Guar G) (hr : History env seen c₀ h c) : c.1.Guar G :=
  Run.guar hg hr.run

/-- **The invariant of a history.** -/
theorem invariant {G : σ → σ → Prop} {I : σ → Prop} {R : List ε → σ → Prop}
    (hinv : ∀ {c}, Run (fun s s' => ∃ es, env es s s') (fun _ _ => True) c₀ c → I c.2)
    (hg : c₀.1.Guar G) (h0 : R [] c₀.2)
    (hact : ∀ h s s', I s → R h s → G s s' → R (h ++ seen s s') s')
    (henv : ∀ h es s s', I s → R h s → env es s s' → R (h ++ es) s')
    (hr : History env seen c₀ h c) : R h c.2 := by
  induction hr with
  | start => exact h0
  | act hr ih => exact hact _ _ _ (hinv hr.run) ih ((hr.guar hg).1 _)
  | await _ _ ih => exact ih
  | env hr he ih => exact henv _ _ _ _ (hinv hr.run) ih he

/-- An event that no action of the process shows has come with a step of the environment, in a
state of the run. -/
theorem exists_env {e : ε} (hseen : ∀ s s', e ∉ seen s s') (hr : History env seen c₀ h c)
    (he : e ∈ h) : ∃ h' es d s', History env seen c₀ h' d ∧ env es d.2 s' ∧ e ∈ es := by
  induction hr with
  | start => cases he
  | act _ ih => exact ih ((List.mem_append.mp he).resolve_right (hseen _ _))
  | await _ _ ih => exact ih he
  | env hr hs ih =>
      rcases List.mem_append.mp he with he | he
      · exact ih he
      · exact ⟨_, _, _, _, hr, hs, he⟩

end History

/-- A run has a history, if its steps have their events in the states it comes to. -/
theorem History.of_run {irq cond : σ → σ → Prop} {env : List ε → σ → σ → Prop}
    {seen : σ → σ → List ε} {c₀ c : Prog σ α × σ} (hr : Run irq cond c₀ c)
    (henv : ∀ {c}, Run irq cond c₀ c → ∀ s', irq c.2 s' → ∃ es, env es c.2 s') :
    ∃ h, History env seen c₀ h c := by
  induction hr with
  | refl => exact ⟨[], .start⟩
  | tail hr hst ih =>
      obtain ⟨h, hh⟩ := ih
      cases hst with
      | act _ => exact ⟨_, hh.act⟩
      | await hc => exact ⟨_, hh.await hc⟩
      | irq hi =>
          obtain ⟨es, he⟩ := henv hr _ hi
          exact ⟨_, hh.env he⟩

/-- The events of what the process does alone. -/
def Prog.trace (seen : σ → σ → List ε) : Prog σ α → σ → List ε
  | .ret _, _ => []
  | .act f k, s => seen s (f s) ++ (k s).trace seen (f s)
  | .await c k, s => if c s then k.trace seen s else []

theorem History.exec {β : Type} {env : List ε → σ → σ → Prop} {seen : σ → σ → List ε}
    {c₀ : Prog σ β × σ} {p : Prog σ α} {g : α → Prog σ β} {h : List ε} {s t : σ} {a : α}
    (hr : History env seen c₀ h (p >>= g, s)) (he : p.exec s = some (a, t)) :
    History env seen c₀ (h ++ p.trace seen s) (g a, t) := by
  induction p generalizing h s with
  | ret a =>
      cases he
      rw [Prog.trace, List.append_nil]
      exact hr
  | act f k ih =>
      rw [Prog.trace, ← List.append_assoc]
      exact ih s hr.act he
  | await c k ih =>
      simp only [Prog.exec] at he
      split at he
      · rename_i hc
        rw [Prog.trace, if_pos hc]
        exact ih (hr.await hc) he
      · cases he

/-- A concrete order of steps and the events it produces: `none` is the process's next
step, `some i` a step of the environment with input `i`. -/
def historyOf {ι : Type} (step : ι → σ → Option (List ε × σ)) (seen : σ → σ → List ε) :
    List (Option ι) → Prog σ α × σ → Option (List ε × (Prog σ α × σ))
  | [], c => some ([], c)
  | none :: ms, (.act f k, s) =>
      (historyOf step seen ms (k s, f s)).map fun r => (seen s (f s) ++ r.1, r.2)
  | none :: ms, (.await c k, s) => if c s then historyOf step seen ms (k, s) else none
  | none :: _, (.ret _, _) => none
  | some i :: ms, (p, s) =>
      match step i s with
      | some (es, s') => (historyOf step seen ms (p, s')).map fun r => (es ++ r.1, r.2)
      | none => none

theorem eq_of_map_events {x : Option σ} {events : σ → List ε} {es : List ε} {s : σ}
    (h : (x.map fun s => (events s, s)) = some (es, s)) : x = some s ∧ es = events s := by
  obtain ⟨t, hx, heq⟩ := Option.map_eq_some_iff.mp h
  cases heq
  exact ⟨hx, rfl⟩

section
variable {ι : Type} {step : ι → σ → Option (List ε × σ)} {env : List ε → σ → σ → Prop}
  {seen : σ → σ → List ε} {c₀ : Prog σ α × σ}

/-- An order that goes through continues a history. -/
theorem History.of_historyOf (henv : ∀ i s es s', step i s = some (es, s') → env es s s') :
    ∀ (ms : List (Option ι)) {h h' : List ε} {c c' : Prog σ α × σ}, History env seen c₀ h c →
      historyOf step seen ms c = some (h', c') → History env seen c₀ (h ++ h') c'
  | [], h, h', c, c', hr, hc => by
      cases hc
      rw [List.append_nil]
      exact hr
  | none :: ms, h, h', (.act f k, s), c', hr, hc => by
      obtain ⟨r, hms, heq⟩ := Option.map_eq_some_iff.mp hc
      cases heq
      rw [← List.append_assoc]
      exact of_historyOf henv ms hr.act hms
  | none :: ms, h, h', (.await b k, s), c', hr, hc => by
      simp only [historyOf] at hc
      split at hc
      · rename_i hb
        exact of_historyOf henv ms (hr.await hb) hc
      · cases hc
  | none :: _, _, _, (.ret _, _), _, _, hc => by cases hc
  | some i :: ms, h, h', (p, s), c', hr, hc => by
      simp only [historyOf] at hc
      split at hc
      · rename_i es s' hs
        obtain ⟨r, hms, heq⟩ := Option.map_eq_some_iff.mp hc
        cases heq
        rw [← List.append_assoc]
        exact of_historyOf henv ms (hr.env (henv _ _ _ _ hs)) hms
      · cases hc

variable (step seen c₀) in
/-- A test that the end of an order passes is passed at the end of some history. -/
theorem History.exists_historyOf (henv : ∀ i s es s', step i s = some (es, s') → env es s s')
    (ms : List (Option ι)) (P : List ε × (Prog σ α × σ) → Bool)
    (hP : (historyOf step seen ms c₀).any P = true) :
    ∃ h c, History env seen c₀ h c ∧ P (h, c) = true := by
  cases hr : historyOf step seen ms c₀ with
  | none => simp [hr] at hP
  | some r =>
      rw [hr] at hP
      exact ⟨r.1, r.2, .of_historyOf henv ms .start hr, hP⟩

end

end Interleave
