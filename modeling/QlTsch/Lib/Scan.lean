/-
# `QlTsch.Lib.Scan` — a table scan from an arbitrary start

`scan beats len start` goes through the indices `1, …, len - 1` in order and
keeps the best one seen, beginning with `start`.  Index `0` is looked at only if
it is the start: the result is best among the start and `1, …, len - 1`
(`start_le_scan`, `le_scan`), which is all that can be said in general.  It is best among
all indices exactly if the scan starts at `0`, or `0` is no better than another index
(`scan_optimal_iff`).
-/
import Mathlib.Order.Lattice

namespace Interleave

variable {κ : Type} [LinearOrder κ]

/-- `for(i = 1; i < len; i++) if(i beats m) m = i;` from `m = start`. -/
def scan (beats : Nat → Nat → Prop) [DecidableRel beats] (len start : Nat) : Nat :=
  (List.range' 1 (len - 1)).foldl (fun m i => if beats i m then i else m) start

section
variable {beats : Nat → Nat → Prop} [DecidableRel beats]

variable (beats) in
theorem foldl_mem (l : List Nat) (m : Nat) :
    l.foldl (fun m i => if beats i m then i else m) m = m ∨
      l.foldl (fun m i => if beats i m then i else m) m ∈ l := by
  induction l generalizing m with
  | nil => exact .inl rfl
  | cons i l ih =>
      simp only [List.foldl_cons, List.mem_cons]
      rcases ih (if beats i m then i else m) with h | h
      · rw [h]
        by_cases hb : beats i m
        · simp [hb]
        · simp [hb]
      · exact .inr (.inr h)

variable (beats) in
/-- The result is the start or one of the indices gone through. -/
theorem scan_mem (len start : Nat) :
    scan beats len start = start ∨ (1 ≤ scan beats len start ∧ scan beats len start < len) := by
  rcases foldl_mem beats (List.range' 1 (len - 1)) start with h | h
  · exact .inl h
  · refine .inr ?_
    have := List.mem_range'_1.mp h
    simp only [scan]
    omega

theorem scan_lt {len start : Nat} (h : start < len) : scan beats len start < len := by
  rcases scan_mem beats len start with hs | ⟨-, hs⟩
  · omega
  · exact hs

end

section
variable {beats : Nat → Nat → Prop} [DecidableRel beats] {key : Nat → κ}

theorem le_foldl (hb : ∀ i m, beats i m ↔ key m < key i) (l : List Nat) (m : Nat) :
    key m ≤ key (l.foldl (fun m i => if beats i m then i else m) m) ∧
      ∀ i ∈ l, key i ≤ key (l.foldl (fun m i => if beats i m then i else m) m) := by
  induction l generalizing m with
  | nil => exact ⟨le_refl _, fun _ h => absurd h List.not_mem_nil⟩
  | cons i l ih =>
      obtain ⟨hstart, hrest⟩ := ih (if beats i m then i else m)
      have hm : key m ≤ key (if beats i m then i else m) := by
        split
        · exact le_of_lt ((hb i m).mp ‹_›)
        · exact le_refl _
      have hi : key i ≤ key (if beats i m then i else m) := by
        split
        · exact le_refl _
        · exact not_lt.mp fun h => ‹¬ beats i m› ((hb i m).mpr h)
      refine ⟨le_trans hm hstart, ?_⟩
      intro j hj
      rcases List.mem_cons.mp hj with rfl | hj
      · exact le_trans hi hstart
      · exact hrest j hj

theorem start_le_scan (hb : ∀ i m, beats i m ↔ key m < key i) (len start : Nat) :
    key start ≤ key (scan beats len start) :=
  (le_foldl hb _ _).1

theorem le_scan (hb : ∀ i m, beats i m ↔ key m < key i) {len i : Nat} (start : Nat)
    (h1 : 1 ≤ i) (hi : i < len) : key i ≤ key (scan beats len start) := by
  refine (le_foldl hb _ _).2 i ?_
  rw [List.mem_range'_1]
  omega

/-- The result is best of all, if index `0` was looked at or does not matter. -/
theorem scan_optimal_iff (hb : ∀ i m, beats i m ↔ key m < key i) {len start : Nat}
    (hstart : start < len) :
    (∀ i < len, key i ≤ key (scan beats len start)) ↔
      start = 0 ∨ ∃ i, 1 ≤ i ∧ i < len ∧ key 0 ≤ key i := by
  constructor
  · intro hall
    have hzero : key 0 ≤ key (scan beats len start) := hall 0 (by omega)
    rcases scan_mem beats len start with hsame | ⟨h1, hlt⟩
    · rcases Nat.eq_zero_or_pos start with h0 | hpos
      · exact .inl h0
      · rw [hsame] at hzero
        exact .inr ⟨start, hpos, hstart, hzero⟩
    · exact .inr ⟨_, h1, hlt, hzero⟩
  · intro h i hi
    rcases Nat.eq_zero_or_pos i with rfl | hpos
    · rcases h with rfl | ⟨j, h1, hj, hle⟩
      · exact start_le_scan hb len 0
      · exact le_trans hle (le_scan hb start h1 hj)
    · exact le_scan hb start hpos hi

end
end Interleave
