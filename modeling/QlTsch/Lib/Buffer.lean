/-
# `QlTsch.Lib.Buffer` — arrays of a fixed size, with checked access

An array of a language without bounds checks has a size and cells, and a cell holds
nothing until it is written.  Here an access outside of the array, and a read of a cell
that holds nothing, ends the computation with a `Fault`.  So a program that comes to a
result has touched only what it may touch.

`fill` is the loop that writes consecutive cells.  When it comes to its end
(`fill_isOk_iff`) and what it leaves (`fill_cell`) is all that `memcpy`, and any other
such loop, needs.
-/
import Mathlib.Data.List.Range

namespace Memory

variable {α : Type} {size : Nat}

inductive Fault where
  /-- an access outside of the array -/
  | outside (i : Nat)
  /-- a read of a cell that was never written -/
  | unset (i : Nat)
deriving DecidableEq, Repr

/-- An array; `none` is a cell that was never written. -/
abbrev Buffer (α : Type) (size : Nat) := Vector (Option α) size

/-- The computation comes to a result. -/
def IsOk {ε β : Type} (e : Except ε β) : Prop := ∃ x, e = .ok x

theorem isOk_ok {ε β : Type} (x : β) : IsOk (.ok x : Except ε β) := ⟨x, rfl⟩

theorem not_isOk_error {ε β : Type} (e : ε) : ¬ IsOk (.error e : Except ε β) := by
  rintro ⟨x, hx⟩
  cases hx

theorem bind_eq_ok_iff {ε β γ : Type} {e : Except ε β} {k : β → Except ε γ} {y : γ} :
    e >>= k = .ok y ↔ ∃ x, e = .ok x ∧ k x = .ok y := by
  cases e with
  | error f => exact iff_of_false (fun h => (by cases h)) fun ⟨_, hx, _⟩ => (by cases hx)
  | ok x =>
      refine ⟨fun h => ⟨x, rfl, h⟩, ?_⟩
      rintro ⟨_, hx, h⟩
      cases hx
      exact h

theorem isOk_bind {ε β γ : Type} {e : Except ε β} {k : β → Except ε γ} :
    IsOk (e >>= k) ↔ ∃ x, e = .ok x ∧ IsOk (k x) := by
  constructor
  · rintro ⟨y, hy⟩
    obtain ⟨x, hx, h⟩ := bind_eq_ok_iff.mp hy
    exact ⟨x, hx, y, h⟩
  · rintro ⟨x, hx, y, h⟩
    exact ⟨y, bind_eq_ok_iff.mpr ⟨x, hx, h⟩⟩

namespace Buffer

/-- A local array. -/
def uninit (size : Nat) : Buffer α size := Vector.replicate size none

def load (b : Buffer α size) (i : Nat) : Except Fault α :=
  if h : i < size then
    match b[i] with
    | some a => .ok a
    | none => .error (.unset i)
  else .error (.outside i)

def store (b : Buffer α size) (i : Nat) (a : α) : Except Fault (Buffer α size) :=
  if h : i < size then .ok (b.set i (some a)) else .error (.outside i)

/-- `for(; n > 0; i++, n--) b[i] = f(i);` -/
def fill (f : Nat → Except Fault α) : Nat → Nat → Buffer α size → Except Fault (Buffer α size)
  | 0, _, b => .ok b
  | n + 1, i, b => do
      let a ← f i
      let b ← b.store i a
      fill f n (i + 1) b

/-- The byte of a source of `src.length` bytes. -/
def source (src : List α) (i : Nat) : Except Fault α :=
  match src[i]? with
  | some a => .ok a
  | none => .error (.outside i)

/-- `memcpy(b, src, n)`. -/
def memcpy (b : Buffer α size) (src : List α) (n : Nat) : Except Fault (Buffer α size) :=
  fill (source src) n 0 b

/-- The `n` cells from `i` on, read in order. -/
def loads (b : Buffer α size) : Nat → Nat → Except Fault (List α)
  | 0, _ => .ok []
  | n + 1, i => do
      let a ← b.load i
      let as ← loads b n (i + 1)
      pure (a :: as)

/-! ## Single accesses -/

theorem uninit_cell {i : Nat} {a : α} : (uninit size : Buffer α size)[i]? ≠ some (some a) := by
  rw [uninit, Vector.getElem?_replicate]
  split <;> simp

theorem load_eq_ok_iff {b : Buffer α size} {i : Nat} {a : α} :
    b.load i = .ok a ↔ b[i]? = some (some a) := by
  simp only [load]
  split
  · rename_i h
    rw [Vector.getElem?_eq_getElem h, Option.some.injEq]
    cases b[i] with
    | none => exact iff_of_false (fun hc => (by cases hc)) fun hc => (by cases hc)
    | some a' => simp
  · rename_i h
    rw [Vector.getElem?_eq_none (Nat.le_of_not_lt h)]
    exact iff_of_false (fun hc => (by cases hc)) fun hc => (by cases hc)

theorem store_isOk_iff {b : Buffer α size} {i : Nat} {a : α} : IsOk (b.store i a) ↔ i < size := by
  simp only [store]
  split
  · rename_i h
    exact iff_of_true (isOk_ok _) h
  · rename_i h
    exact iff_of_false (not_isOk_error _) h

theorem store_cell {b b' : Buffer α size} {i : Nat} {a : α} (h : b.store i a = .ok b') (j : Nat) :
    b'[j]? = if j = i then some (some a) else b[j]? := by
  simp only [store] at h
  split at h
  · rename_i hi
    cases h
    rw [Vector.getElem?_set]
    by_cases hj : i = j
    · subst hj
      simp
    · rw [if_neg hj, if_neg (Ne.symm hj)]
  · cases h

theorem source_isOk_iff {src : List α} {i : Nat} : IsOk (source src i) ↔ i < src.length := by
  simp only [source]
  split
  · rename_i a ha
    exact iff_of_true (isOk_ok a) (List.getElem?_eq_some_iff.mp ha).1
  · rename_i hnone
    exact iff_of_false (not_isOk_error _) (Nat.not_lt.mpr (List.getElem?_eq_none_iff.mp hnone))

/-! ## Loops -/

/-- The loop comes to its end exactly if all its values can be computed and all its cells
are there. -/
theorem fill_isOk_iff {f : Nat → Except Fault α} (n : Nat) {i : Nat} {b : Buffer α size} :
    IsOk (fill f n i b) ↔ ∀ j, i ≤ j → j < i + n → IsOk (f j) ∧ j < size := by
  induction n generalizing i b with
  | zero => exact iff_of_true (isOk_ok b) fun j hi hj => (by omega)
  | succ n ih =>
      rw [fill, isOk_bind]
      constructor
      · rintro ⟨a, ha, h⟩ j hi hj
        obtain ⟨c, hc, hrest⟩ := isOk_bind.mp h
        by_cases hij : j = i
        · rw [hij]
          exact ⟨⟨a, ha⟩, store_isOk_iff.mp ⟨c, hc⟩⟩
        · exact ih.mp hrest j (by omega) (by omega)
      · intro h
        obtain ⟨⟨a, ha⟩, hi⟩ := h i le_rfl (by omega)
        obtain ⟨c, hc⟩ := store_isOk_iff (b := b) (a := a).mpr hi
        have hrest : IsOk (fill f n (i + 1) c) := by
          rw [ih]
          intro j hj hn
          exact h j (by omega) (by omega)
        exact ⟨a, ha, isOk_bind.mpr ⟨c, hc, hrest⟩⟩

theorem fill_cell {f : Nat → Except Fault α} (n : Nat) {i : Nat} {b b' : Buffer α size}
    (h : fill f n i b = .ok b') (j : Nat) :
    b'[j]? = if i ≤ j ∧ j < i + n then some (f j).toOption else b[j]? := by
  induction n generalizing i b with
  | zero =>
      cases h
      rw [if_neg (by omega)]
  | succ n ih =>
      obtain ⟨a, ha, h⟩ := bind_eq_ok_iff.mp h
      obtain ⟨d, hd, h⟩ := bind_eq_ok_iff.mp h
      rw [ih h, store_cell hd]
      by_cases hj : j = i
      · subst hj
        rw [if_neg (by omega), if_pos rfl, if_pos (by omega), ha]
        rfl
      · rw [if_neg hj]
        by_cases hrange : i + 1 ≤ j ∧ j < i + 1 + n
        · rw [if_pos hrange, if_pos (by omega)]
        · rw [if_neg hrange, if_neg (by omega)]

/-- `memcpy` stays inside of both arrays exactly if neither is shorter than what is copied. -/
theorem memcpy_isOk_iff {b : Buffer α size} {src : List α} {n : Nat} :
    IsOk (b.memcpy src n) ↔ n ≤ src.length ∧ n ≤ size := by
  rw [memcpy, fill_isOk_iff]
  simp only [source_isOk_iff]
  constructor
  · intro h
    cases n with
    | zero => exact ⟨Nat.zero_le _, Nat.zero_le _⟩
    | succ n => exact h n (Nat.zero_le n) (by omega)
  · rintro ⟨hsrc, hsize⟩ j - hj
    omega

theorem memcpy_cell {b b' : Buffer α size} {src : List α} {n : Nat}
    (h : b.memcpy src n = .ok b') (j : Nat) : b'[j]? = if j < n then some src[j]? else b[j]? := by
  rw [fill_cell n h]
  have hsource : (source src j).toOption = src[j]? := by
    simp only [source]
    split
    · rename_i a ha
      rw [ha]
      rfl
    · rename_i hnone
      rw [hnone]
      rfl
  simp only [hsource, Nat.zero_le, true_and, Nat.zero_add]

theorem loads_eq {b : Buffer α size} {g : Nat → α} (n : Nat) {i : Nat}
    (h : ∀ j, i ≤ j → j < i + n → b[j]? = some (some (g j))) :
    b.loads n i = .ok ((List.range' i n).map g) := by
  induction n generalizing i with
  | zero => rfl
  | succ n ih =>
      have hfirst : b.load i = .ok (g i) := load_eq_ok_iff.mpr (h i le_rfl (by omega))
      have hrest : b.loads n (i + 1) = .ok ((List.range' (i + 1) n).map g) :=
        ih fun j hj hn => h j (by omega) (by omega)
      rw [loads, hfirst]
      show (b.loads n (i + 1) >>= fun as => pure (g i :: as)) = _
      rw [hrest, List.range'_succ, List.map_cons]
      rfl

end Buffer

end Memory
