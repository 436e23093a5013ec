/-
# `QlTsch.Lib.Earliest` — what comes first, and the best of it

A loop over items that each come at some time often keeps only those of the earliest
time, in one pass: an item that comes before all others restarts the loop, one that comes
at the same time is taken into account, a later one is passed over (`earlier`).
`foldl_earlier`: the result is what the loop makes of the items of the least time alone,
in their order.

If what it makes of them is the best one, the earlier of two that are equally good, it is
`List.argmin`, and `argmin_eq_some_iff_split` says where in the list that stands.
-/
import Mathlib.Data.List.MinMax

namespace Interleave

variable {α ρ κ : Type}

/-! ## The earliest items -/

section
variable (start : α → ρ) (more : ρ → α → ρ)

/-- One item of the loop, with its time. -/
def earlier : Option (Nat × ρ) → Nat × α → Option (Nat × ρ)
  | none, e => some (e.1, start e.2)
  | some r, e =>
      if e.1 < r.1 then some (e.1, start e.2)
      else if e.1 = r.1 then some (r.1, more r.2 e.2)
      else some r

/-- The same loop where all items come at one time. -/
def collect : List α → Option ρ
  | [] => none
  | a :: l => some (l.foldl more (start a))

/-- The items of one time. -/
def atTime (T : Nat) (es : List (Nat × α)) : List α := (es.filter fun e => e.1 == T).map Prod.snd

variable {start more}

theorem collect_concat {l : List α} {r : ρ} (h : collect start more l = some r) (a : α) :
    collect start more (l ++ [a]) = some (more r a) := by
  cases l with
  | nil => cases h
  | cons b l =>
      cases h
      simp only [collect, List.cons_append, List.foldl_append, List.foldl_cons, List.foldl_nil]

theorem atTime_concat (T : Nat) (es : List (Nat × α)) (e : Nat × α) :
    atTime T (es ++ [e]) = atTime T es ++ if e.1 = T then [e.2] else [] := by
  by_cases h : e.1 = T <;> simp [atTime, h]

theorem atTime_nil_of_lt {T : Nat} {es : List (Nat × α)} (h : ∀ e ∈ es, T < e.1) :
    atTime T es = [] := by
  simp only [atTime, List.map_eq_nil_iff, List.filter_eq_nil_iff, beq_iff_eq]
  intro e he
  exact (h e he).ne'

variable (start more) in
/-- **The loop**: nothing without items; else the least time, and what comes of its items. -/
theorem foldl_earlier (es : List (Nat × α)) :
    (es.foldl (earlier start more) none = none ↔ es = []) ∧
      ∀ T r, es.foldl (earlier start more) none = some (T, r) →
        (∀ e ∈ es, T ≤ e.1) ∧ collect start more (atTime T es) = some r := by
  induction es using List.reverseRecOn with
  | nil => simp
  | append_singleton es e ih =>
      obtain ⟨hnone, hsome⟩ := ih
      rw [List.foldl_append, List.foldl_cons, List.foldl_nil]
      cases hacc : es.foldl (earlier start more) none with
      | none =>
          rw [hnone.mp hacc]
          simp [earlier, atTime, collect]
      | some r₀ =>
          obtain ⟨hle, hcollect⟩ := hsome r₀.1 r₀.2 hacc
          refine ⟨?_, ?_⟩
          · simp only [earlier]
            split
            · simp
            · split <;> simp
          · intro T r hr
            simp only [earlier] at hr
            split at hr
            · -- before all others
              rename_i hlt
              cases hr
              refine ⟨List.forall_mem_append.mpr ⟨?_, List.forall_mem_singleton.mpr le_rfl⟩, ?_⟩
              · intro x hx
                exact (hlt.trans_le (hle x hx)).le
              · rw [atTime_concat, atTime_nil_of_lt fun x hx => hlt.trans_le (hle x hx)]
                simp [collect]
            · rename_i hge
              split at hr
              · -- at the same time
                rename_i heq
                cases hr
                refine ⟨List.forall_mem_append.mpr
                  ⟨hle, List.forall_mem_singleton.mpr heq.ge⟩, ?_⟩
                rw [atTime_concat, if_pos heq]
                exact collect_concat hcollect e.2
              · -- later
                rename_i hne
                cases hr
                have hlater : T ≤ e.1 := not_lt.mp hge
                refine ⟨List.forall_mem_append.mpr
                  ⟨hle, List.forall_mem_singleton.mpr hlater⟩, ?_⟩
                rw [atTime_concat, if_neg hne, List.append_nil]
                exact hcollect

end

/-! ## The best one -/

section
variable [LinearOrder κ] {f : α → κ}

/-- A loop that changes to what is strictly better. -/
theorem argmin_cons_eq_foldl {more : α → α → α} (h : ∀ m a, more m a = if f a < f m then a else m)
    (a : α) (l : List α) : (a :: l).argmin f = some (l.foldl more a) := by
  induction l using List.reverseRecOn with
  | nil => rfl
  | append_singleton l b ih =>
      rw [← List.cons_append, List.argmin_concat, ih, List.foldl_append, List.foldl_cons,
        List.foldl_nil, h]
      simp only
      split <;> rfl

/-- What comes before it is worse, and nothing after it is better. -/
theorem argmin_eq_some_iff_split {l : List α} {m : α} :
    l.argmin f = some m ↔
      ∃ l₁ l₂, l = l₁ ++ m :: l₂ ∧ (∀ a ∈ l₁, f m < f a) ∧ ∀ a ∈ l₂, f m ≤ f a := by
  constructor
  · intro h
    induction l with
    | nil => cases h
    | cons b l ih =>
        rw [List.argmin_cons] at h
        cases hl : l.argmin f with
        | none =>
            rw [hl] at h
            cases h
            rw [List.argmin_eq_none.mp hl]
            exact ⟨[], [], rfl, by simp, by simp⟩
        | some c =>
            rw [hl] at h
            simp only at h
            have hle : ∀ a ∈ l, f c ≤ f a := fun a ha => List.le_of_mem_argmin ha hl
            split at h
            · rename_i hlt
              cases h
              obtain ⟨l₁, l₂, rfl, h₁, h₂⟩ := ih hl
              refine ⟨b :: l₁, l₂, rfl, ?_, h₂⟩
              intro a ha
              rcases List.mem_cons.mp ha with rfl | ha
              · exact hlt
              · exact h₁ a ha
            · rename_i hge
              cases h
              exact ⟨[], l, rfl, by simp, fun a ha => (not_lt.mp hge).trans (hle a ha)⟩
  · rintro ⟨l₁, l₂, rfl, h₁, h₂⟩
    induction l₁ with
    | nil =>
        rw [List.nil_append, List.argmin_cons]
        cases hl : l₂.argmin f with
        | none => rfl
        | some c => simp only [if_neg (not_lt.mpr (h₂ c (List.argmin_mem hl)))]
    | cons b l₁ ih =>
        rw [List.cons_append, List.argmin_cons, ih fun a ha => h₁ a (List.mem_cons_of_mem _ ha)]
        simp only [if_pos (h₁ b List.mem_cons_self)]

end

end Interleave
