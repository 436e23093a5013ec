/-
# `QlTsch.Lib.WrapClock` — readings of a clock that wraps

A clock that counts modulo `m` has readings from 0 to `m - 1`.  Two readings say how much
time has elapsed from the one to the other, as long as it is less than `m`.  Which of two
readings comes first after a third, `ref`, cannot be seen from the two alone: the one below
`ref` has wrapped and comes later, and only if both have, or neither has, their order is
that of the numbers (`elapsed_le_iff`).

`elapsed_target` and `elapsed_to_target` are about the reading that comes `d` after `ref`.
-/
import Mathlib.Data.Int.ModEq

namespace WrapClock

variable {m : Int}

/-- A reading of a clock that counts modulo `m`. -/
def IsReading (m t : Int) : Prop := 0 ≤ t ∧ t < m

instance (m t : Int) : Decidable (IsReading m t) := inferInstanceAs (Decidable (_ ∧ _))

/-- The time from `ref` to `now`. -/
def elapsed (m ref now : Int) : Int := (now - ref) % m

theorem isReading_emod (hm : 0 < m) (t : Int) : IsReading m (t % m) :=
  ⟨Int.emod_nonneg t hm.ne', Int.emod_lt_of_pos t hm⟩

theorem IsReading.pos {t : Int} (h : IsReading m t) : 0 < m := h.1.trans_lt h.2

/-- A reading below `ref` is one of the next turn. -/
theorem elapsed_eq {ref now : Int} (href : IsReading m ref) (hnow : IsReading m now) :
    elapsed m ref now = if now < ref then now - ref + m else now - ref := by
  obtain ⟨href₀, hrefm⟩ := href
  obtain ⟨hnow₀, hnowm⟩ := hnow
  rw [elapsed]
  split
  · rw [← Int.add_emod_right]
    exact Int.emod_eq_of_lt (by omega) (by omega)
  · exact Int.emod_eq_of_lt (by omega) (by omega)

/-- **The order of two readings after `ref`.** -/
theorem elapsed_le_iff {ref s t : Int} (href : IsReading m ref) (hs : IsReading m s)
    (ht : IsReading m t) :
    elapsed m ref s ≤ elapsed m ref t ↔ if (t < ref ↔ s < ref) then s ≤ t else t < ref := by
  rw [elapsed_eq href hs, elapsed_eq href ht]
  obtain ⟨hs₀, hsm⟩ := hs
  obtain ⟨ht₀, htm⟩ := ht
  by_cases hswrap : s < ref
  · by_cases htwrap : t < ref
    · simp [hswrap, htwrap]
    · -- `s` has wrapped, `t` has not
      simp only [hswrap, htwrap, if_true, if_false, false_iff, not_true_eq_false, iff_false]
      omega
  · by_cases htwrap : t < ref
    · -- `t` has wrapped, `s` has not
      simp only [hswrap, htwrap, if_true, if_false, true_iff, iff_true]
      omega
    · simp [hswrap, htwrap]

theorem elapsed_target {ref d : Int} (hd : IsReading m d) :
    elapsed m ref ((ref + d) % m) = d := by
  rw [elapsed, Int.emod_sub_emod, add_sub_cancel_left]
  exact Int.emod_eq_of_lt hd.1 hd.2

theorem elapsed_to_target {ref now d : Int} (hd : IsReading m d) (hle : elapsed m ref now ≤ d) :
    elapsed m now ((ref + d) % m) = d - elapsed m ref now := by
  have hpos : 0 ≤ elapsed m ref now := Int.emod_nonneg _ hd.pos.ne'
  have hcongr : (ref + d) % m - now ≡ d - elapsed m ref now [ZMOD m] := by
    calc (ref + d) % m - now ≡ ref + d - now [ZMOD m] := (Int.mod_modEq _ _).sub_right _
      _ = d - (now - ref) := by omega
      _ ≡ d - elapsed m ref now [ZMOD m] := (Int.mod_modEq _ _).symm.sub_left _
  rw [elapsed, hcongr]
  exact Int.emod_eq_of_lt (by omega) (lt_of_le_of_lt (Int.sub_le_self d hpos) hd.2)

end WrapClock
