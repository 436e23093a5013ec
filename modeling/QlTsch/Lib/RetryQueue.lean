/-
# `QlTsch.Lib.RetryQueue` — a queue whose head is tried again

Jobs wait in a queue, and only the one at its head is tried.  It leaves when an attempt
succeeds, or when it may not be tried again.  The machine is deterministic: what comes in and
how the attempts end settle what waits and what has left, and with what result (`run`).

* `run_order`: what has come in is what has left and then what waits, in this order.
* `run_backlog`: a job has left after as many attempts as it and the jobs before it may still
  take.  What comes in behind it does not matter.
-/
import Mathlib.Algebra.Ring.Nat

namespace RetryQueue

variable {α σ : Type}

structure Job (α : Type) where
  id : α
  /-- how often it may be tried after a failed attempt -/
  retries : Nat
deriving DecidableEq, Repr

/-- The job after an attempt; `none` if it leaves. -/
def Job.tried (good : Bool) (j : Job α) : Option (Job α) :=
  match good, j.retries with
  | false, r + 1 => some { j with retries := r }
  | _, _ => none

inductive Op (α σ : Type) where
  | accept (id : α) (retries : Nat)
  | attempt (id : α) (result : σ)
deriving DecidableEq, Repr

structure State (α σ : Type) where
  waiting : List (Job α)
  /-- what has left, with the result of the last attempt -/
  left : List (α × σ)
deriving DecidableEq, Repr

section
variable [DecidableEq α] (good : σ → Bool)

/-- `none` if the attempt is not one of the head. -/
def step (q : State α σ) : Op α σ → Option (State α σ)
  | .accept id retries => some { q with waiting := q.waiting ++ [⟨id, retries⟩] }
  | .attempt id result =>
      match q.waiting with
      | [] => none
      | j :: rest =>
          if j.id = id then
            match j.tried (good result) with
            | some j' => some { q with waiting := j' :: rest }
            | none => some ⟨rest, q.left ++ [(id, result)]⟩
          else none

def run (q : State α σ) (ops : List (Op α σ)) : Option (State α σ) := ops.foldlM (step good) q

end

def Op.accepted : Op α σ → Option α
  | .accept id _ => some id
  | .attempt _ _ => none

def Op.isAttempt : Op α σ → Bool
  | .accept _ _ => false
  | .attempt _ _ => true

/-- What has left and what waits, in the order in which it came in. -/
def State.ids (q : State α σ) : List α := q.left.map Prod.fst ++ q.waiting.map Job.id

/-- The attempts that the first `i + 1` jobs may still take. -/
def backlog (js : List (Job α)) (i : Nat) : Nat := ((js.take (i + 1)).map fun j => j.retries + 1).sum

/-! ## The backlog -/

theorem backlog_append {js : List (Job α)} {i : Nat} (hi : i < js.length) (js' : List (Job α)) :
    backlog (js ++ js') i = backlog js i := by
  rw [backlog, List.take_append_of_le_length hi]
  rfl

theorem backlog_cons_succ (j : Job α) (js : List (Job α)) (i : Nat) :
    backlog (j :: js) (i + 1) = j.retries + 1 + backlog js i := by
  rw [backlog, List.take_succ_cons, List.map_cons, List.sum_cons]
  rfl

theorem backlog_cons_zero (j : Job α) (js : List (Job α)) : backlog (j :: js) 0 = j.retries + 1 := rfl

theorem backlog_tried {j j' : Job α} (h : j'.retries + 1 = j.retries) (js : List (Job α)) (i : Nat) :
    backlog (j :: js) i = backlog (j' :: js) i + 1 := by
  cases i with
  | zero =>
      rw [backlog_cons_zero, backlog_cons_zero]
      omega
  | succ i =>
      rw [backlog_cons_succ, backlog_cons_succ]
      omega

/-! ## One step -/

theorem Job.tried_true (j : Job α) : j.tried true = none := rfl

theorem Job.tried_zero {j : Job α} (h : j.retries = 0) (good : Bool) : j.tried good = none := by
  cases good <;> simp only [Job.tried, h]

theorem Job.tried_succ {j : Job α} {r : Nat} (h : j.retries = r + 1) :
    j.tried false = some { j with retries := r } := by
  simp only [Job.tried, h]

theorem Job.tried_some {good : Bool} {j j' : Job α} (h : j.tried good = some j') :
    good = false ∧ j'.id = j.id ∧ j'.retries + 1 = j.retries := by
  simp only [Job.tried] at h
  split at h
  · rename_i r hr
    cases h
    exact ⟨rfl, rfl, hr.symm⟩
  · cases h

section
variable [DecidableEq α] {good : σ → Bool} {q q' : State α σ}

theorem step_attempt {id : α} {result : σ} (h : step good q (.attempt id result) = some q') :
    ∃ j rest, q.waiting = j :: rest ∧ j.id = id ∧
      ((∃ j', j.tried (good result) = some j' ∧ q' = ⟨j' :: rest, q.left⟩) ∨
        q' = ⟨rest, q.left ++ [(id, result)]⟩) := by
  simp only [step] at h
  split at h
  · cases h
  · rename_i j rest hq
    split at h
    · rename_i hid
      split at h
      · rename_i j' hj
        cases h
        exact ⟨j, rest, hq, hid, .inl ⟨j', hj, rfl⟩⟩
      · cases h
        exact ⟨j, rest, hq, hid, .inr rfl⟩
    · cases h

theorem step_order {op : Op α σ} (h : step good q op = some q') :
    q'.ids = q.ids ++ op.accepted.toList := by
  cases op with
  | accept id retries =>
      cases h
      simp [State.ids, Op.accepted]
  | attempt id result =>
      obtain ⟨j, rest, hq, hid, ⟨j', hj, rfl⟩ | rfl⟩ := step_attempt h
      · simp [State.ids, Op.accepted, hq, (Job.tried_some hj).2.1]
      · simp [State.ids, Op.accepted, hq, hid]

theorem step_left {op : Op α σ} (h : step good q op = some q') : q.left.length ≤ q'.left.length := by
  cases op with
  | accept id retries =>
      cases h
      exact Nat.le_refl _
  | attempt id result =>
      obtain ⟨j, rest, -, -, ⟨j', -, rfl⟩ | rfl⟩ := step_attempt h
      · exact Nat.le_refl _
      · simp

end

/-! ## Runs -/

section
variable [DecidableEq α] {good : σ → Bool} {q q' : State α σ} {ops : List (Op α σ)}

theorem run_cons {op : Op α σ} (h : run good q (op :: ops) = some q') :
    ∃ w, step good q op = some w ∧ run good w ops = some q' := by
  rw [run, List.foldlM_cons] at h
  exact Option.bind_eq_some_iff.mp h

theorem run_append {ops' : List (Op α σ)} :
    run good q (ops ++ ops') = (run good q ops).bind fun w => run good w ops' :=
  List.foldlM_append

theorem run_order (h : run good q ops = some q') : q'.ids = q.ids ++ ops.filterMap Op.accepted := by
  induction ops generalizing q with
  | nil =>
      cases h
      rw [List.filterMap_nil, List.append_nil]
  | cons op ops ih =>
      obtain ⟨w, hw, hrun⟩ := run_cons h
      rw [ih hrun, step_order hw, List.append_assoc]
      cases ho : op.accepted with
      | none => rw [List.filterMap_cons_none ho, Option.toList_none, List.nil_append]
      | some id => rw [List.filterMap_cons_some ho]; rfl

theorem run_left (h : run good q ops = some q') : q.left.length ≤ q'.left.length := by
  induction ops generalizing q with
  | nil =>
      cases h
      exact Nat.le_refl _
  | cons op ops ih =>
      obtain ⟨w, hw, hrun⟩ := run_cons h
      exact Nat.le_trans (step_left hw) (ih hrun)

/-- **Bounded waiting.**  After as many attempts as the first `i + 1` jobs may take, these have
left. -/
theorem run_backlog (h : run good q ops = some q') {i : Nat} (hi : i < q.waiting.length)
    (hn : backlog q.waiting i ≤ ops.countP Op.isAttempt) : q.left.length + i < q'.left.length := by
  induction ops generalizing q i with
  | nil =>
      exfalso
      cases hq : q.waiting with
      | nil => simp [hq] at hi
      | cons j rest =>
          rw [hq] at hn
          cases i with
          | zero => simp [backlog_cons_zero] at hn
          | succ i => simp [backlog_cons_succ] at hn
  | cons op ops ih =>
      obtain ⟨w, hw, hrun⟩ := run_cons h
      cases op with
      | accept id retries =>
          cases hw
          refine ih hrun ?_ ?_
          · rw [List.length_append]
            omega
          · rw [backlog_append hi]
            simpa [Op.isAttempt] using hn
      | attempt id result =>
          obtain ⟨j, rest, hq, -, hcases⟩ := step_attempt hw
          rw [hq] at hi hn
          rw [List.countP_cons_of_pos (by rfl)] at hn
          rcases hcases with ⟨j', hj, rfl⟩ | rfl
          · refine ih hrun hi ?_
            rw [backlog_tried (Job.tried_some hj).2.2] at hn
            exact Nat.le_of_succ_le_succ hn
          · -- the head has left
            cases i with
            | zero =>
                have hle := run_left hrun
                rw [List.length_append, List.length_singleton] at hle
                omega
            | succ i =>
                rw [backlog_cons_succ] at hn
                have hlt := ih hrun (Nat.lt_of_succ_lt_succ hi) (by show backlog rest i ≤ _; omega)
                rw [List.length_append, List.length_singleton] at hlt
                omega

/-- The job at position `i` is the one that leaves as the `i + 1`st. -/
theorem run_backlog_left (h : run good q ops = some q') {i : Nat} {j : Job α}
    (hj : q.waiting[i]? = some j) (hn : backlog q.waiting i ≤ ops.countP Op.isAttempt) :
    ∃ result, q'.left[q.left.length + i]? = some (j.id, result) := by
  obtain ⟨hi, -⟩ := List.getElem?_eq_some_iff.mp hj
  have hlt := run_backlog h hi hn
  have horder := congrArg (·[q.left.length + i]?) (run_order h)
  have hbefore : q.left.length + i < q.ids.length := by
    rw [State.ids, List.length_append, List.length_map, List.length_map]
    omega
  simp only [State.ids] at horder hbefore
  rw [List.getElem?_append_left (by simpa using hlt), List.getElem?_append_left hbefore,
    List.getElem?_append_right (by simp), List.getElem?_map, List.getElem?_map, List.length_map,
    Nat.add_sub_cancel_left, hj] at horder
  obtain ⟨⟨id, result⟩, hleft, hid⟩ := Option.map_eq_some_iff.mp horder
  exact ⟨result, by rw [hleft]; exact congrArg (fun x => some (x, result)) hid⟩

end

end RetryQueue
