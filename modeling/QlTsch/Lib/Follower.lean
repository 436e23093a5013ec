/-
# `QlTsch.Lib.Follower` — a clock that follows another one

Time goes in slots.  The slots of the clock that leads begin at `T 0`, `T 1`, ...; the
clock that follows knows the number of its slot and when the slot began, by its own count.
It goes on by slots of the nominal length `L`, it is set anew, and it is corrected: by what
it has measured, or by that cut to `B` in either direction.

By how much the follower is off is its `offset`.  Say a setting is within `β`, a
measurement within `ε`, and a slot drifts by `ρ` at most (`Honest`).  Then the offset is at
most `offsetBound`, which is computed from the record alone (`offset_le`).  Cut corrections
that come at least every `K` slots, where `ρ * K` is at most `B`, bring it down to `ε` step
by step (`offsetBound_le`): each takes `B - ρ * K` off, and in between it grows by `ρ` a slot.
-/
import Mathlib.Algebra.Order.Ring.Rat
import Mathlib.Algebra.Order.Group.MinMax
import Mathlib.Data.List.Induction
import Mathlib.Tactic.Linarith
import Mathlib.Tactic.Ring

namespace Follower

/-- The slot of the follower, and when it began. -/
structure Reading where
  start : Int
  slot : Nat

inductive Event where
  | set (start : Int) (slot : Nat)
  /-- a correction, as measured -/
  | full (m : Int)
  /-- a correction, cut to the bound -/
  | cut (m : Int)
  | advance (slots : Nat) (extra : Int)
deriving DecidableEq, Repr

section
variable (L B : Int)

/-- `m`, cut to `B` in either direction. -/
def cutTo (m : Int) : Int := if m > B then B else if m < -B then -B else m

/-- Nothing is known before the clock is set. -/
def Event.apply (r : Option Reading) : Event → Option Reading
  | .set x a => some ⟨x, a⟩
  | .full m => r.map fun r => { r with start := r.start + m }
  | .cut m => r.map fun r => { r with start := r.start + cutTo B m }
  | .advance k c => r.map fun r => ⟨r.start + (k * L + c), r.slot + k⟩

def reading (es : List Event) : Option Reading := es.foldl (Event.apply L B) none

end

/-- The slots since the last setting or correction. -/
def Event.since (n : Nat) : Event → Nat
  | .set _ _ | .full _ | .cut _ => 0
  | .advance k _ => n + k

def since (es : List Event) : Nat := es.foldl Event.since 0

/-- The cut corrections since the last setting. -/
def Event.cuts (n : Nat) : Event → Nat
  | .set _ _ => 0
  | .cut _ => n + 1
  | .full _ | .advance _ _ => n

def cuts (es : List Event) : Nat := es.foldl Event.cuts 0

/-- Whether it is at most `K` slots before a cut correction, `n` being counted so far. -/
def Event.Spaced (K n : Nat) : Event → Prop
  | .cut _ => n ≤ K
  | .set _ _ | .full _ | .advance _ _ => True

def SpacedFrom (K : Nat) : Nat → List Event → Prop
  | _, [] => True
  | n, e :: es => e.Spaced K n ∧ SpacedFrom K (e.since n) es

/-- No more than `K` slots before each cut correction. -/
def Spaced (K : Nat) (es : List Event) : Prop := SpacedFrom K 0 es

section
variable (L B : Int) (T : Nat → ℚ) (β ε ρ : ℚ)

def Reading.offset (r : Reading) : ℚ := r.start - T r.slot

/-- What is asked of an event after the reading `r`. -/
def Event.Honest (r : Option Reading) : Event → Prop
  | .set x a => |(⟨x, a⟩ : Reading).offset T| ≤ β
  | .full m | .cut m => ∀ f ∈ r, |f.offset T + m| ≤ ε
  | .advance k c => ∀ f ∈ r, |T (f.slot + k) - T f.slot - (k * L + c)| ≤ ρ * k

def HonestFrom : Option Reading → List Event → Prop
  | _, [] => True
  | r, e :: es => e.Honest L T β ε ρ r ∧ HonestFrom (e.apply L B r) es

/-- The settings, the measurements and the drift of a record are as good as they should be. -/
def Honest (es : List Event) : Prop := HonestFrom L B T β ε ρ none es

/-- The bound on the offset after an event. -/
def Event.bound (b : ℚ) : Event → ℚ
  | .set _ _ => β
  | .full _ => ε
  | .cut _ => max ε (b - B)
  | .advance k _ => b + ρ * k

def offsetBound (es : List Event) : ℚ := es.foldl (Event.bound B β ε ρ) β

end

section
variable {L B : Int} {T : Nat → ℚ} {β ε ρ : ℚ} {es : List Event} {e : Event}

theorem reading_concat : reading L B (es ++ [e]) = e.apply L B (reading L B es) := by
  simp only [reading, List.foldl_append, List.foldl_cons, List.foldl_nil]

theorem since_concat : since (es ++ [e]) = e.since (since es) := by
  simp only [since, List.foldl_append, List.foldl_cons, List.foldl_nil]

theorem cuts_concat : cuts (es ++ [e]) = e.cuts (cuts es) := by
  simp only [cuts, List.foldl_append, List.foldl_cons, List.foldl_nil]

theorem offsetBound_concat :
    offsetBound B β ε ρ (es ++ [e]) = e.bound B β ε ρ (offsetBound B β ε ρ es) := by
  simp only [offsetBound, List.foldl_append, List.foldl_cons, List.foldl_nil]

theorem honestFrom_concat {r : Option Reading} : HonestFrom L B T β ε ρ r (es ++ [e]) ↔
    HonestFrom L B T β ε ρ r es ∧ e.Honest L T β ε ρ (es.foldl (Event.apply L B) r) := by
  induction es generalizing r with
  | nil => exact and_comm
  | cons d es ih =>
      show _ ∧ HonestFrom L B T β ε ρ _ (es ++ [e]) ↔ _
      rw [ih, ← and_assoc]
      rfl

theorem spacedFrom_concat {K n : Nat} :
    SpacedFrom K n (es ++ [e]) ↔ SpacedFrom K n es ∧ e.Spaced K (es.foldl Event.since n) := by
  induction es generalizing n with
  | nil => exact and_comm
  | cons d es ih =>
      show _ ∧ SpacedFrom K _ (es ++ [e]) ↔ _
      rw [ih, ← and_assoc]
      rfl

/-- **A cut correction**: what was measured is right up to `ε`, so what is left after the cut
is less by `B`, or right up to `ε` as well. -/
theorem cut_offset {x b : ℚ} {m : Int} (hx : |x| ≤ b) (hm : |x + m| ≤ ε) :
    |x + cutTo B m| ≤ max ε (b - B) := by
  obtain ⟨hxl, hxu⟩ := abs_le.mp hx
  obtain ⟨hml, hmu⟩ := abs_le.mp hm
  have hε : ε ≤ max ε (b - B) := le_max_left _ _
  have hb : b - B ≤ max ε (b - B) := le_max_right _ _
  unfold cutTo
  split
  · rename_i hgt
    have hgt : (B : ℚ) < m := by exact_mod_cast hgt
    exact abs_le.mpr ⟨by linarith, by linarith⟩
  · split
    · rename_i hlt
      have hlt : (m : ℚ) < -B := by exact_mod_cast hlt
      push_cast
      exact abs_le.mpr ⟨by linarith, by linarith⟩
    · exact hm.trans hε

/-- **The offset is at most what the record says.** -/
theorem offset_le (h : Honest L B T β ε ρ es) {r : Reading} (hr : reading L B es = some r) :
    |r.offset T| ≤ offsetBound B β ε ρ es := by
  induction es using List.reverseRecOn generalizing r with
  | nil => cases hr
  | append_singleton es e ih =>
      obtain ⟨hinit, hlast⟩ := honestFrom_concat.mp h
      have ih := fun f hf => ih hinit (r := f) hf
      rw [reading_concat] at hr
      rw [offsetBound_concat]
      cases e with
      | set x a =>
          cases hr
          exact hlast
      | full m =>
          obtain ⟨f, hf, rfl⟩ := Option.map_eq_some_iff.mp hr
          have hsum : ({ f with start := f.start + m } : Reading).offset T = f.offset T + m := by
            simp only [Reading.offset]
            push_cast
            ring
          rw [hsum]
          exact hlast f hf
      | cut m =>
          obtain ⟨f, hf, rfl⟩ := Option.map_eq_some_iff.mp hr
          have hsum : ({ f with start := f.start + cutTo B m } : Reading).offset T =
              f.offset T + cutTo B m := by
            simp only [Reading.offset]
            push_cast
            ring
          rw [hsum]
          exact cut_offset (ih f hf) (hlast f hf)
      | advance k c =>
          obtain ⟨f, hf, rfl⟩ := Option.map_eq_some_iff.mp hr
          have hsum : (⟨f.start + (k * L + c), f.slot + k⟩ : Reading).offset T =
              f.offset T - (T (f.slot + k) - T f.slot - (k * L + c)) := by
            simp only [Reading.offset]
            push_cast
            ring
          rw [hsum]
          calc |f.offset T - (T (f.slot + k) - T f.slot - (k * L + c))|
              ≤ |f.offset T| + |T (f.slot + k) - T f.slot - (k * L + c)| := abs_sub _ _
            _ ≤ offsetBound B β ε ρ es + ρ * k := add_le_add (ih f hf) (hlast f hf)

/-- **Cut corrections in time** bring the bound down to `ε`. -/
theorem offsetBound_le {K : Nat} (hK : ρ * K ≤ B) (hρ : 0 ≤ ρ) (hspaced : Spaced K es) :
    offsetBound B β ε ρ es ≤ max ε (β - cuts es * (B - ρ * K)) + ρ * since es := by
  induction es using List.reverseRecOn with
  | nil => simp [offsetBound, cuts, since]
  | append_singleton es e ih =>
      obtain ⟨hinit, hlast⟩ := spacedFrom_concat.mp hspaced
      have ih := ih hinit
      rw [offsetBound_concat, cuts_concat, since_concat]
      cases e with
      | set x a => simp [Event.bound, Event.cuts, Event.since]
      | full m => simp [Event.bound, Event.cuts, Event.since]
      | cut m =>
          have hsince : (since es : ℚ) ≤ K := by exact_mod_cast hlast
          have hgrown : ρ * since es ≤ ρ * K := mul_le_mul_of_nonneg_left hsince hρ
          simp only [Event.bound, Event.cuts, Event.since, Nat.cast_zero, mul_zero, add_zero]
          refine max_le (le_max_left _ _) ?_
          rcases max_cases ε (β - cuts es * (B - ρ * K)) with ⟨hmax, -⟩ | ⟨hmax, -⟩
          · refine le_max_of_le_left ?_
            rw [hmax] at ih
            linarith
          · refine le_max_of_le_right ?_
            rw [hmax] at ih
            push_cast
            linarith
      | advance k c =>
          show _ + ρ * k ≤ _ + ρ * ((since es + k : Nat) : ℚ)
          push_cast
          rw [mul_add, ← add_assoc]
          exact add_le_add_left ih _

end

end Follower
