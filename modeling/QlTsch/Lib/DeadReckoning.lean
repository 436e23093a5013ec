/-
# `QlTsch.Lib.DeadReckoning` — a value that is reckoned on from anchors

Now and then a value is known for one reading of a clock: it is anchored there.  In between
it is reckoned on at the rate of the clock.  What an anchor amounts to is its `lead`, by how
much the clock is ahead of the value: reckoned from it, the value at reading `t` is `t` less
the lead (`Anchor.read_eq`).

So from one anchor to the next the value goes back exactly if the lead grows
(`Anchor.read_le_read_iff`).  Over a whole record of anchors and of values read, the values
are in order if no anchor has a greater lead than the one before (`reads_pairwise`), and go
back by `d` at most if no lead exceeds an earlier one by more (`reads_pairwise_add`).
-/
import Mathlib.Algebra.Order.Group.Defs
import Mathlib.Algebra.Order.Sub.Basic
import Mathlib.Data.List.Chain
import Mathlib.Tactic.Abel

namespace DeadReckoning

/-- The value at one reading of the clock. -/
structure Anchor (α : Type) where
  value : α
  clock : α

/-- A new anchor, or a value that is read. -/
inductive Event (α : Type) where
  | anchor (f : Anchor α)
  | read (clock value : α)

section
variable {α : Type}

def Event.clock : Event α → α
  | .anchor f => f.clock
  | .read t _ => t

/-- The anchors of a record. -/
def anchors : List (Event α) → List (Anchor α)
  | [] => []
  | .anchor f :: es => f :: anchors es
  | .read _ _ :: es => anchors es

/-- The values that were read. -/
def reads : List (Event α) → List α
  | [] => []
  | .anchor _ :: es => reads es
  | .read _ v :: es => v :: reads es

/-- The last anchor of a record that goes on from `f`. -/
def lastAnchor : Anchor α → List (Event α) → Anchor α
  | f, [] => f
  | _, .anchor g :: es => lastAnchor g es
  | f, .read _ _ :: es => lastAnchor f es

theorem lastAnchor_append {f : Anchor α} {es fs : List (Event α)} :
    lastAnchor f (es ++ fs) = lastAnchor (lastAnchor f es) fs := by
  induction es generalizing f with
  | nil => rfl
  | cons e es ih =>
      cases e with
      | anchor g => exact ih
      | read t v => exact ih

theorem lastAnchor_clock_mem {f : Anchor α} {es : List (Event α)} :
    (lastAnchor f es).clock ∈ f.clock :: es.map Event.clock := by
  induction es generalizing f with
  | nil => exact List.mem_cons_self
  | cons e es ih =>
      cases e with
      | anchor g => exact List.mem_cons_of_mem _ ih
      | read t v =>
          rcases List.mem_cons.mp (ih (f := f)) with hfirst | hrest
          · exact List.mem_cons.mpr (.inl hfirst)
          · exact List.mem_cons_of_mem _ (List.mem_cons_of_mem _ hrest)

variable [AddCommGroup α]

/-- The value reckoned for the reading `t`. -/
def Anchor.read (f : Anchor α) (t : α) : α := f.value + (t - f.clock)

def Anchor.lead (f : Anchor α) : α := f.clock - f.value

theorem Anchor.read_eq (f : Anchor α) (t : α) : f.read t = t - f.lead := by
  rw [read, lead]
  abel

/-- Every value that was read is reckoned from the last anchor before. -/
def Reckoned : Anchor α → List (Event α) → Prop
  | _, [] => True
  | _, .anchor g :: es => Reckoned g es
  | f, .read t v :: es => v = f.read t ∧ Reckoned f es

theorem Reckoned.append {f : Anchor α} {es fs : List (Event α)} (h : Reckoned f es)
    (h' : Reckoned (lastAnchor f es) fs) : Reckoned f (es ++ fs) := by
  induction es generalizing f with
  | nil => exact h'
  | cons e es ih =>
      cases e with
      | anchor g => exact ih h h'
      | read t v => exact ⟨h.1, ih h.2 h'⟩

end

/-! ## Values in order -/

section
variable {α : Type} [AddCommGroup α] [LinearOrder α]

/-- No lead exceeds an earlier one by more than `d`. -/
def LeadsWithin (d : α) (f : Anchor α) (es : List (Event α)) : Prop :=
  (f :: anchors es).Pairwise fun f g => g.lead ≤ f.lead + d

/-- No anchor has a greater lead than the one before. -/
def KeepsPace (f : Anchor α) (es : List (Event α)) : Prop :=
  (f :: anchors es).IsChain fun f g => g.lead ≤ f.lead

theorem KeepsPace.leadsWithin {f : Anchor α} {es : List (Event α)} (h : KeepsPace f es) :
    LeadsWithin 0 f es := by
  have htrans : IsTrans (Anchor α) fun f g => g.lead ≤ f.lead := ⟨fun _ _ _ hab hbc => hbc.trans hab⟩
  apply (List.isChain_iff_pairwise.mp h).imp
  intro f g hle
  rw [add_zero]
  exact hle

variable [IsOrderedAddMonoid α]

theorem Anchor.read_le_read_add {f g : Anchor α} {t u d : α} (h : g.lead ≤ f.lead + d) (ht : t ≤ u) :
    f.read t ≤ g.read u + d := by
  rw [read_eq, read_eq]
  calc t - f.lead ≤ u - f.lead := sub_le_sub_right ht _
    _ = u - (f.lead + d) + d := by abel
    _ ≤ u - g.lead + d := add_le_add_left (sub_le_sub_left h u) d

/-- The value does not go back from `f` to `g` exactly if the lead does not grow. -/
theorem Anchor.read_le_read_iff {f g : Anchor α} {t : α} : f.read t ≤ g.read t ↔ g.lead ≤ f.lead := by
  rw [read_eq, read_eq]
  exact sub_le_sub_iff_left t

/-- What is read from now on is at most `d` below what `f₀` gives now, if neither the lead
of the last anchor nor one to come exceeds that of `f₀` by more. -/
theorem read_le_of_mem_reads {f₀ f : Anchor α} {es : List (Event α)} {t d v : α}
    (h : Reckoned f es) (hclock : ∀ e ∈ es, t ≤ e.clock) (hf : f.lead ≤ f₀.lead + d)
    (hlead : ∀ g ∈ anchors es, g.lead ≤ f₀.lead + d) (hv : v ∈ reads es) :
    f₀.read t ≤ v + d := by
  induction es generalizing f with
  | nil => cases hv
  | cons e es ih =>
      have hrest : ∀ e ∈ es, t ≤ e.clock := fun e he => hclock e (List.mem_cons_of_mem _ he)
      cases e with
      | anchor g =>
          exact ih h hrest (hlead g List.mem_cons_self)
            (fun g' hg' => hlead g' (List.mem_cons_of_mem _ hg')) hv
      | read u w =>
          rcases List.mem_cons.mp hv with rfl | hv
          · rw [h.1]
            exact Anchor.read_le_read_add hf (hclock _ List.mem_cons_self)
          · exact ih h.2 hrest hf hlead hv

theorem reads_pairwise_add {f : Anchor α} {es : List (Event α)} {d : α} (h : Reckoned f es)
    (hclock : (es.map Event.clock).Pairwise (· ≤ ·)) (hd : 0 ≤ d) (hlead : LeadsWithin d f es) :
    (reads es).Pairwise fun v w => v ≤ w + d := by
  induction es generalizing f with
  | nil => exact List.Pairwise.nil
  | cons e es ih =>
      obtain ⟨hfirst, hrest⟩ := List.pairwise_cons.mp hclock
      cases e with
      | anchor g => exact ih h hrest (List.pairwise_cons.mp hlead).2
      | read t v =>
          refine List.pairwise_cons.mpr ⟨?_, ih h.2 hrest hlead⟩
          intro w hw
          rw [h.1]
          exact read_le_of_mem_reads h.2 (fun e he => hfirst _ (List.mem_map_of_mem he))
            (le_add_of_nonneg_right hd) (List.pairwise_cons.mp hlead).1 hw

theorem reads_pairwise {f : Anchor α} {es : List (Event α)} (h : Reckoned f es)
    (hclock : (es.map Event.clock).Pairwise (· ≤ ·)) (hpace : KeepsPace f es) :
    (reads es).Pairwise (· ≤ ·) := by
  apply (reads_pairwise_add h hclock le_rfl hpace.leadsWithin).imp
  intro v w hle
  rw [add_zero] at hle
  exact hle

end

end DeadReckoning
