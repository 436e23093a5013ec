/-
# `QlTsch.Lib.AsyncContraction` — iterations that update one entry at a time

A state has an error at each entry of a table.  An update has a target: it brings the
error there below `factor` times any bound on *all* errors, and raises no other.  The
order of the targets is free.

One pass over all entries, in any order and with repetitions, makes the largest error
`factor` times smaller (`Within.sweep`), and `n` passes make it `factor ^ n` times
smaller (`Within.passes`).  An infinite run that comes to every entry again and again
contains any number of passes, so its errors go to zero (`Within.tendsto`).
-/
import Mathlib.Algebra.Order.Field.Basic
import Mathlib.Algebra.Order.Archimedean.Basic
import Mathlib.Data.Finset.Lattice.Fold

namespace Interleave

/-- Updates of type `ε` on states of type `σ`, with errors at the entries `ι`. -/
structure AsyncContraction (σ ε ι K : Type) [Field K] [LinearOrder K] [IsStrictOrderedRing K] where
  entries : Finset ι
  error : σ → ι → K
  target : ε → ι
  update : ε → σ → σ
  factor : K
  factor_nonneg : 0 ≤ factor
  factor_le_one : factor ≤ 1
  /-- the states and the updates the errors are measured for -/
  good : σ → Prop
  allowed : ε → Prop
  good_update : ∀ {s e}, good s → allowed e → good (update e s)
  pull : ∀ {s e B}, good s → allowed e → target e ∈ entries →
    (∀ i ∈ entries, error s i ≤ B) → error (update e s) (target e) ≤ factor * B
  keep : ∀ {s e i}, i ≠ target e → error (update e s) i ≤ error s i

namespace AsyncContraction

variable {σ ε ι K : Type} [Field K] [LinearOrder K] [IsStrictOrderedRing K]
  (A : AsyncContraction σ ε ι K)

/-- The state after a list of updates. -/
def after (es : List ε) (s : σ) : σ := es.foldl (fun s e => A.update e s) s

/-- Every entry is a target. -/
def Sweep (es : List ε) : Prop := ∀ i ∈ A.entries, ∃ e ∈ es, A.target e = i

/-- All errors are at most `B`. -/
def Within (B : K) (s : σ) : Prop := A.good s ∧ ∀ i ∈ A.entries, A.error s i ≤ B

variable {A} {s : σ} {B : K} {es : List ε}

theorem after_append (es fs : List ε) (s : σ) :
    A.after (es ++ fs) s = A.after fs (A.after es s) := List.foldl_append

/-! ## One update -/

theorem Within.update {e : ε} (hB : 0 ≤ B) (h : A.Within B s) (he : A.allowed e) :
    A.Within B (A.update e s) := by
  refine ⟨A.good_update h.1 he, ?_⟩
  intro i hi
  by_cases hit : i = A.target e
  · subst hit
    have hpull : A.error (A.update e s) (A.target e) ≤ A.factor * B := A.pull h.1 he hi h.2
    exact hpull.trans (mul_le_of_le_one_left hB A.factor_le_one)
  · exact (A.keep hit).trans (h.2 i hi)

theorem near_update {e : ε} {i : ι} (h : A.Within B s) (he : A.allowed e) (hi : i ∈ A.entries)
    (hnear : i = A.target e ∨ A.error s i ≤ A.factor * B) :
    A.error (A.update e s) i ≤ A.factor * B := by
  by_cases hit : i = A.target e
  · subst hit
    exact A.pull h.1 he hi h.2
  · exact (A.keep hit).trans (hnear.resolve_left hit)

/-! ## Passes -/

theorem Within.after (hB : 0 ≤ B) (h : A.Within B s) (he : ∀ e ∈ es, A.allowed e) :
    A.Within B (A.after es s) := by
  induction es generalizing s with
  | nil => exact h
  | cons e es ih =>
      have hstep : A.Within B (A.update e s) := h.update hB (he e List.mem_cons_self)
      exact ih hstep fun e' he' => he e' (List.mem_cons_of_mem e he')

theorem near_after {i : ι} (hB : 0 ≤ B) (h : A.Within B s) (he : ∀ e ∈ es, A.allowed e)
    (hi : i ∈ A.entries)
    (hnear : (∃ e ∈ es, A.target e = i) ∨ A.error s i ≤ A.factor * B) :
    A.error (A.after es s) i ≤ A.factor * B := by
  induction es generalizing s with
  | nil =>
      rcases hnear with ⟨e, he, -⟩ | hnear
      · exact absurd he List.not_mem_nil
      · exact hnear
  | cons e es ih =>
      have hallowed : A.allowed e := he e List.mem_cons_self
      refine ih (h.update hB hallowed) (fun e' he' => he e' (List.mem_cons_of_mem e he')) ?_
      rcases hnear with ⟨e', he', ht⟩ | hnear
      · rcases List.mem_cons.mp he' with rfl | hlater
        · exact .inr (near_update h hallowed hi (.inl ht.symm))
        · exact .inl ⟨e', hlater, ht⟩
      · exact .inr (near_update h hallowed hi (.inr hnear))

/-- **One pass** brings every error down by the factor. -/
theorem Within.sweep (hB : 0 ≤ B) (h : A.Within B s) (he : ∀ e ∈ es, A.allowed e)
    (hsweep : A.Sweep es) : A.Within (A.factor * B) (A.after es s) := by
  refine ⟨(h.after hB he).1, ?_⟩
  intro i hi
  exact near_after hB h he hi (.inl (hsweep i hi))

/-- `n` passes, one after the other, and whatever comes after them. -/
def Passes (A : AsyncContraction σ ε ι K) : ℕ → List ε → Prop
  | 0, _ => True
  | n + 1, es => ∃ p rest, es = p ++ rest ∧ A.Sweep p ∧ Passes A n rest

/-- **Several passes.** -/
theorem Within.passes (hB : 0 ≤ B) (h : A.Within B s) (he : ∀ e ∈ es, A.allowed e) {n : ℕ}
    (hn : A.Passes n es) : A.Within (A.factor ^ n * B) (A.after es s) := by
  induction n generalizing s es B with
  | zero =>
      rw [pow_zero, one_mul]
      exact h.after hB he
  | succ n ih =>
      obtain ⟨p, rest, rfl, hp, hrest⟩ := hn
      have hfirst : A.Within (A.factor * B) (A.after p s) :=
        h.sweep hB (fun e hmem => he e (List.mem_append_left rest hmem)) hp
      rw [after_append, pow_succ, mul_assoc]
      exact ih (mul_nonneg A.factor_nonneg hB) hfirst
        (fun e hmem => he e (List.mem_append_right p hmem)) hrest

/-! ## Fair runs -/

variable (A) in
/-- The states of an infinite run. -/
def states (u : ℕ → ε) (s : σ) : ℕ → σ
  | 0 => s
  | n + 1 => A.update (u n) (states u s n)

theorem states_add (u : ℕ → ε) (s : σ) (n k : ℕ) :
    A.states u s (n + k) = A.after ((List.range' n k).map u) (A.states u s n) := by
  induction k with
  | zero => rfl
  | succ k ih =>
      show A.update (u (n + k)) (A.states u s (n + k)) = _
      rw [ih, List.range'_1_concat, List.map_append, after_append]
      rfl

/-- Every entry is a target again and again. -/
def Fair (A : AsyncContraction σ ε ι K) (u : ℕ → ε) : Prop :=
  ∀ i ∈ A.entries, ∀ n, ∃ m, n ≤ m ∧ A.target (u m) = i

theorem Fair.exists_sweep {u : ℕ → ε} (hu : A.Fair u) (n : ℕ) :
    ∃ k, A.Sweep ((List.range' n k).map u) := by
  have hall : ∀ i : ι, ∃ m, i ∈ A.entries → n ≤ m ∧ A.target (u m) = i := by
    intro i
    by_cases hi : i ∈ A.entries
    · obtain ⟨m, hm⟩ := hu i hi n
      exact ⟨m, fun _ => hm⟩
    · exact ⟨0, fun h => absurd h hi⟩
  choose m hm using hall
  refine ⟨A.entries.sup m + 1 - n, ?_⟩
  intro i hi
  obtain ⟨hle, ht⟩ := hm i hi
  have hsup : m i ≤ A.entries.sup m := Finset.le_sup hi
  refine ⟨u (m i), List.mem_map_of_mem (List.mem_range'_1.mpr ⟨hle, ?_⟩), ht⟩
  omega

theorem Within.states {u : ℕ → ε} (hB : 0 ≤ B) (h : A.Within B s) (hu : ∀ n, A.allowed (u n))
    (n : ℕ) : A.Within B (A.states u s n) := by
  induction n with
  | zero => exact h
  | succ n ih => exact ih.update hB (hu n)

/-- **A fair run converges**: from some moment on all errors are at most
`factor ^ k * B`, for every `k`. -/
theorem Within.fair {u : ℕ → ε} (hB : 0 ≤ B) (h : A.Within B s) (hu : ∀ n, A.allowed (u n))
    (hfair : A.Fair u) (k : ℕ) :
    ∃ N, ∀ n, N ≤ n → A.Within (A.factor ^ k * B) (A.states u s n) := by
  induction k with
  | zero =>
      refine ⟨0, fun n _ => ?_⟩
      rw [pow_zero, one_mul]
      exact h.states hB hu n
  | succ k ih =>
      obtain ⟨N, hN⟩ := ih
      have hBk : 0 ≤ A.factor ^ k * B := mul_nonneg (pow_nonneg A.factor_nonneg k) hB
      have hallowed : ∀ m j, ∀ e ∈ (List.range' m j).map u, A.allowed e := by
        intro m j e he
        obtain ⟨i, -, rfl⟩ := List.mem_map.mp he
        exact hu i
      obtain ⟨j, hj⟩ := hfair.exists_sweep N
      have hpass : A.Within (A.factor * (A.factor ^ k * B)) (A.states u s (N + j)) := by
        rw [states_add]
        exact (hN N le_rfl).sweep hBk (hallowed N j) hj
      refine ⟨N + j, fun n hn => ?_⟩
      obtain ⟨d, rfl⟩ := Nat.exists_eq_add_of_le hn
      rw [pow_succ', mul_assoc, states_add]
      exact hpass.after (mul_nonneg A.factor_nonneg hBk) (hallowed (N + j) d)

theorem Within.tendsto [Archimedean K] {u : ℕ → ε} (hB : 0 ≤ B) (h : A.Within B s)
    (hu : ∀ n, A.allowed (u n)) (hfair : A.Fair u) (hlt : A.factor < 1) {δ : K} (hδ : 0 < δ) :
    ∃ N, ∀ n, N ≤ n → ∀ i ∈ A.entries, A.error (A.states u s n) i ≤ δ := by
  obtain ⟨k, hk⟩ : ∃ k, A.factor ^ k < δ / (B + 1) :=
    exists_pow_lt_of_lt_one (div_pos hδ (by linarith)) hlt
  obtain ⟨N, hN⟩ := h.fair hB hu hfair k
  refine ⟨N, fun n hn i hi => ((hN n hn).2 i hi).trans ?_⟩
  calc A.factor ^ k * B ≤ δ / (B + 1) * (B + 1) :=
        mul_le_mul hk.le (by linarith) hB (div_nonneg hδ.le (by linarith))
    _ = δ := div_mul_cancel₀ δ (by linarith)

end AsyncContraction

end Interleave
