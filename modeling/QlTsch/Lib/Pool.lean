/-
# `QlTsch.Lib.Pool` — fixed pools of memory blocks

A pool has `num` blocks, named by their index, and the finite set of the
blocks in use.  Which free block an allocation returns is left open: an
`AllocPolicy` is any choice that returns a block that is free, and fails only
when none is.  The one fact the rest needs from counting is `pick_of_card`: a
pool with fewer blocks in use than it has never fails.
-/
import Mathlib.Data.Finset.Card
import Mathlib.Data.Finset.Range

namespace Interleave

/-- How an allocator picks a free block, given the blocks in use and the size
of the pool. -/
structure AllocPolicy where
  pick : Finset Nat → Nat → Option Nat
  pick_lt : ∀ {used num b}, pick used num = some b → b < num
  pick_fresh : ∀ {used num b}, pick used num = some b → b ∉ used
  pick_none : ∀ {used num}, pick used num = none → ∀ b < num, b ∈ used

namespace AllocPolicy

theorem pick_of_card (A : AllocPolicy) {used : Finset Nat} {num : Nat} (h : used.card < num) :
    ∃ b, A.pick used num = some b := by
  cases hp : A.pick used num with
  | some b => exact ⟨b, rfl⟩
  | none =>
      have hsub : Finset.range num ⊆ used := fun b hb =>
        A.pick_none hp b (Finset.mem_range.mp hb)
      have := Finset.card_le_card hsub
      rw [Finset.card_range] at this
      omega

/-- An allocation succeeds if and only if fewer blocks are in use than there are, as long as only
blocks of the pool are in use. -/
theorem pick_isSome_iff (A : AllocPolicy) {used : Finset Nat} {num : Nat}
    (hused : ∀ b ∈ used, b < num) : (A.pick used num).isSome ↔ used.card < num := by
  constructor
  · intro h
    obtain ⟨b, hb⟩ := Option.isSome_iff_exists.mp h
    have hsub : used ⊂ Finset.range num := by
      refine Finset.ssubset_iff_of_subset (fun c hc => Finset.mem_range.mpr (hused c hc)) |>.mpr ?_
      exact ⟨b, Finset.mem_range.mpr (A.pick_lt hb), A.pick_fresh hb⟩
    have := Finset.card_lt_card hsub
    rwa [Finset.card_range] at this
  · intro h
    obtain ⟨b, hb⟩ := A.pick_of_card h
    rw [hb]
    rfl

/-- The first free block, in the order of the pool. -/
def firstFree : AllocPolicy where
  pick used num := (List.range num).find? (fun b => decide (b ∉ used))
  pick_lt h := List.mem_range.mp (List.mem_of_find?_eq_some h)
  pick_fresh h := by simpa using List.find?_some h
  pick_none h b hb := by
    simpa using List.find?_eq_none.mp h b (List.mem_range.mpr hb)

end AllocPolicy
end Interleave
