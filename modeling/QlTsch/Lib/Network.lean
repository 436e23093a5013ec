/-
# `QlTsch.Lib.Network` — nodes that share a record

Several nodes run, each a program with a memory of its own.  What they have in common is
the record of what has happened at each of them: a step of the environment at one node
may depend on it, as a node can only receive what another one has sent.  So the record is
the medium.

There are two inductions.  `NetHistory.of_wpg` is about one node: its own events and its
state, by its guarantee and its environment, whatever the other nodes do.
`NetHistory.record` is about the record as a whole.
-/
import QlTsch.Lib.Guarantee
import Mathlib.Logic.Function.Basic

namespace Interleave

variable {ι σ α ε : Type} [DecidableEq ι]

/-! ## The record of a node -/

/-- The events of node `n`, in order. -/
def eventsOf (n : ι) (log : List (ι × ε)) : List ε :=
  log.filterMap fun e => if e.1 = n then some e.2 else none

/-- Events of node `n`. -/
def atNode (n : ι) (es : List ε) : List (ι × ε) := es.map (Prod.mk n)

section
variable (n : ι) (log log' : List (ι × ε)) (es : List ε)

@[simp] theorem eventsOf_append :
    eventsOf n (log ++ log') = eventsOf n log ++ eventsOf n log' := List.filterMap_append

@[simp] theorem eventsOf_atNode : eventsOf n (atNode n es) = es := by
  simp only [eventsOf, atNode, List.filterMap_map]
  induction es with
  | nil => rfl
  | cons e es ih =>
      rw [List.filterMap_cons, ih]
      simp only [Function.comp_apply, if_true]

theorem eventsOf_atNode_of_ne {n m : ι} (h : n ≠ m) : eventsOf m (atNode n es) = [] := by
  simp only [eventsOf, atNode, List.filterMap_map]
  induction es with
  | nil => rfl
  | cons e es ih =>
      rw [List.filterMap_cons, ih]
      simp only [Function.comp_apply, if_neg h]

theorem mem_eventsOf {n : ι} {e : ε} : e ∈ eventsOf n log ↔ (n, e) ∈ log := by
  simp only [eventsOf, List.mem_filterMap]
  constructor
  · rintro ⟨⟨m, e'⟩, hmem, he⟩
    split at he
    · rename_i hm
      cases hm
      cases he
      exact hmem
    · cases he
  · intro hmem
    exact ⟨(n, e), hmem, if_pos rfl⟩

end

theorem filterMap_getElem?_sublist {l : List ε} {ks : List Nat} (hlt : ∀ k ∈ ks, k < l.length)
    (hks : ks.Pairwise (· < ·)) : (ks.filterMap fun k => l[k]?).Sublist l := by
  have hmap : ∀ (ks : List Nat) (hlt : ∀ k ∈ ks, k < l.length),
      (ks.filterMap fun k => l[k]?) = (ks.pmap Fin.mk hlt).map fun x => l[x] := by
    intro ks
    induction ks with
    | nil => exact fun _ => rfl
    | cons k ks ih =>
        intro hlt
        have hk := hlt k List.mem_cons_self
        have hrest := ih fun j hj => hlt j (List.mem_cons_of_mem k hj)
        rw [List.filterMap_cons_some (List.getElem?_eq_getElem hk), hrest]
        rfl
  rw [hmap ks hlt]
  refine List.map_getElem_sublist ((List.pairwise_pmap hlt).mpr ?_)
  exact hks.imp fun h _ _ => h

/-! ## Runs of a network -/

/-- `env n log es s s'`: after the record `log`, the environment may take node `n` from
`s` to `s'` with the events `es`. -/
inductive NetHistory (env : ι → List (ι × ε) → List ε → σ → σ → Prop) (seen : σ → σ → List ε)
    (N₀ : ι → Prog σ α × σ) : List (ι × ε) → (ι → Prog σ α × σ) → Prop
  | start : NetHistory env seen N₀ [] N₀
  | act {log : List (ι × ε)} {N : ι → Prog σ α × σ} {n : ι} {f : σ → σ} {k : σ → Prog σ α} {s : σ} :
      NetHistory env seen N₀ log N → N n = (.act f k, s) →
      NetHistory env seen N₀ (log ++ atNode n (seen s (f s))) (Function.update N n (k s, f s))
  | await {log : List (ι × ε)} {N : ι → Prog σ α × σ} {n : ι} {c : σ → Bool} {k : Prog σ α} {s : σ} :
      NetHistory env seen N₀ log N → N n = (.await c k, s) → c s = true →
      NetHistory env seen N₀ log (Function.update N n (k, s))
  | env {log : List (ι × ε)} {N : ι → Prog σ α × σ} {n : ι} {es : List ε} {p : Prog σ α} {s s' : σ} :
      NetHistory env seen N₀ log N → N n = (p, s) → env n log es s s' →
      NetHistory env seen N₀ (log ++ atNode n es) (Function.update N n (p, s'))

namespace NetHistory

variable {env : ι → List (ι × ε) → List ε → σ → σ → Prop} {seen : σ → σ → List ε}
  {N₀ N : ι → Prog σ α × σ} {log : List (ι × ε)}

/-- **A node of the network.**  A relation between its events and its state holds in every
run, if its environment keeps it and its guarantee does. -/
theorem of_wpg {n : ι} {C : Ctx σ} {G : σ → σ → Prop} {R : List ε → σ → Prop} {p : Prog σ α}
    {Q : α → σ → Prop} {s : σ} (hn : N₀ n = (p, s))
    (hirq : ∀ log es s s', env n log es s s' → C.irq s s') (hcond : ∀ s s', C.cond s s')
    (hi : C.inv s) (hw : Wpg C G p Q s) (h0 : R [] s)
    (hact : ∀ h s s', C.inv s → C.inv s' → R h s → G s s' → R (h ++ seen s s') s')
    (henv : ∀ log es s s', C.inv s → C.inv s' → R (eventsOf n log) s → env n log es s s' →
      R (eventsOf n log ++ es) s')
    (hr : NetHistory env seen N₀ log N) : C.inv (N n).2 ∧ R (eventsOf n log) (N n).2 := by
  have hall : C.inv (N n).2 ∧ R (eventsOf n log) (N n).2 ∧
      ∃ t, C.inv t ∧ C.rely t (N n).2 ∧ Wpg C G (N n).1 Q t := by
    induction hr with
    | start =>
        rw [hn]
        exact ⟨hi, h0, s, hi, .refl, hw⟩
    | @act log N m f k u _ hm ih =>
        rw [eventsOf_append]
        by_cases h : m = n
        · subst h
          rw [hm] at ih
          obtain ⟨hinv, hR, t, -, hrel, hwp⟩ := ih
          obtain ⟨hif, hgf, hk⟩ := hwp _ hrel (hcond _ _)
          rw [eventsOf_atNode, Function.update_self]
          exact ⟨hif, hact _ _ _ hinv hif hR hgf, _, hif, .refl, hk⟩
        · rw [eventsOf_atNode_of_ne _ h, List.append_nil, Function.update_of_ne (Ne.symm h)]
          exact ih
    | @await log N m c k u _ hm hc ih =>
        by_cases h : m = n
        · subst h
          rw [hm] at ih
          obtain ⟨hinv, hR, t, -, hrel, hwp⟩ := ih
          rw [Function.update_self]
          exact ⟨hinv, hR, _, hinv, .refl, (hwp _ hrel).2 hc⟩
        · rw [Function.update_of_ne (Ne.symm h)]
          exact ih
    | @env log N m es p u u' _ hm he ih =>
        rw [eventsOf_append]
        by_cases h : m = n
        · subst h
          rw [hm] at ih
          obtain ⟨hinv, hR, t, hit, hrel, hwp⟩ := ih
          have hst := hirq _ _ _ _ he
          have hinv' := C.stable _ _ hinv hst
          rw [eventsOf_atNode, Function.update_self]
          exact ⟨hinv', henv _ _ _ _ hinv hinv' hR he, t, hit, hrel.tail hst, hwp⟩
        · rw [eventsOf_atNode_of_ne _ h, List.append_nil, Function.update_of_ne (Ne.symm h)]
          exact ih
  exact ⟨hall.1, hall.2.1⟩

/-- **What is said about the record.**  Each step may use that the network has come to it
by a run. -/
theorem record {R : List (ι × ε) → Prop} (h0 : R [])
    (hact : ∀ {log N} n s', NetHistory env seen N₀ log N → R log →
      R (log ++ atNode n (seen (N n).2 s')))
    (henv : ∀ {log N} n es s', NetHistory env seen N₀ log N → env n log es (N n).2 s' → R log →
      R (log ++ atNode n es))
    (hr : NetHistory env seen N₀ log N) : R log := by
  induction hr with
  | start => exact h0
  | @act log N n f k s hr hn ih =>
      have hstep := hact n (f s) hr ih
      rw [hn] at hstep
      exact hstep
  | await _ _ _ ih => exact ih
  | @env log N n es p s s' hr hn he ih =>
      refine henv n es s' hr ?_ ih
      rw [hn]
      exact he

end NetHistory

/-! ## A concrete order -/

section
variable {κ : Type} {step : ι → List (ι × ε) → κ → σ → Option (List ε × σ)} {seen : σ → σ → List ε}
  {N₀ : ι → Prog σ α × σ} {env : ι → List (ι × ε) → List ε → σ → σ → Prop}

/-- One move: `(n, none)` is the next step of the program of `n`, `(n, some i)` a step of
the environment at `n` with input `i`. -/
def netMove (step : ι → List (ι × ε) → κ → σ → Option (List ε × σ)) (seen : σ → σ → List ε) :
    ι × Option κ → List (ι × ε) × (ι → Prog σ α × σ) → Option (List (ι × ε) × (ι → Prog σ α × σ))
  | (n, none), (log, N) =>
      match N n with
      | (.act f k, s) => some (log ++ atNode n (seen s (f s)), Function.update N n (k s, f s))
      | (.await c k, s) => if c s then some (log, Function.update N n (k, s)) else none
      | (.ret _, _) => none
  | (n, some i), (log, N) =>
      (step n log i (N n).2).map fun r =>
        (log ++ atNode n r.1, Function.update N n ((N n).1, r.2))

theorem NetHistory.netMove (henv : ∀ n log i s es s', step n log i s = some (es, s') → env n log es s s')
    {mv : ι × Option κ} {X Y : List (ι × ε) × (ι → Prog σ α × σ)}
    (hr : NetHistory env seen N₀ X.1 X.2) (h : Interleave.netMove step seen mv X = some Y) :
    NetHistory env seen N₀ Y.1 Y.2 := by
  obtain ⟨n, mv⟩ := mv
  obtain ⟨log, N⟩ := X
  cases mv with
  | none =>
      simp only [Interleave.netMove] at h
      split at h
      · rename_i f k s hn
        cases h
        exact hr.act hn
      · rename_i c k s hn
        split at h
        · rename_i hc
          cases h
          exact hr.await hn hc
        · cases h
      · cases h
  | some i =>
      obtain ⟨⟨es, s'⟩, hs, heq⟩ := Option.map_eq_some_iff.mp h
      cases heq
      exact hr.env rfl (henv _ _ _ _ _ _ hs)

theorem NetHistory.moves (henv : ∀ n log i s es s', step n log i s = some (es, s') → env n log es s s')
    (ms : List (ι × Option κ)) {X Y : List (ι × ε) × (ι → Prog σ α × σ)}
    (hr : NetHistory env seen N₀ X.1 X.2)
    (h : ms.foldlM (fun X mv => Interleave.netMove step seen mv X) X = some Y) :
    NetHistory env seen N₀ Y.1 Y.2 := by
  induction ms generalizing X with
  | nil =>
      cases h
      exact hr
  | cons mv ms ih =>
      rw [List.foldlM_cons] at h
      obtain ⟨Z, hZ, hrest⟩ := Option.bind_eq_some_iff.mp h
      exact ih (hr.netMove henv hZ) hrest

variable (env step seen N₀) in
theorem exists_netHistory
    (henv : ∀ n log i s es s', step n log i s = some (es, s') → env n log es s s')
    (ms : List (ι × Option κ)) (P : List (ι × ε) × (ι → Prog σ α × σ) → Bool)
    (hP : (ms.foldlM (fun X mv => netMove step seen mv X) ([], N₀)).any P = true) :
    ∃ log N, NetHistory env seen N₀ log N ∧ P (log, N) = true := by
  cases hY : ms.foldlM (fun X mv => netMove step seen mv X) ([], N₀) with
  | none => simp [hY] at hP
  | some Y =>
      rw [hY] at hP
      exact ⟨Y.1, Y.2, NetHistory.moves henv ms .start hY, hP⟩

end

end Interleave
