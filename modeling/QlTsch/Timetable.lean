/-
# `QlTsch.Timetable` — what a schedule is for

A schedule is a table of slotframes, told apart by their handles, and a table of links, each
in a slotframe, a timeslot of it and a channel offset: its *cell*.  There is room for so many
of each.  Here is that and no more: no blocks, no lists, no lock, no counters.  What
`tsch-schedule.c` does with its pools and lists is shown to be this in
`QlTsch.ScheduleTimetable`.

A cell may hold several links, as `do_remove` may be 0 when a link is added; the first one is
found.  If `do_remove` is always 1 then a cell holds what was last put there
(`lastPut`, `Single.run`).
-/
import QlTsch.Types

namespace QlTsch

/-- A slotframe. -/
structure Timetable.Frame where
  handle : Nat
  size : Nat
deriving DecidableEq, Repr

/-- Where a link is. -/
structure Timetable.Cell where
  slotframe : Nat
  timeslot : Nat
  channelOffset : Nat
deriving DecidableEq, Repr

/-- A link. -/
structure Timetable.Entry where
  cell : Timetable.Cell
  linkOptions : LinkOptions
  linkType : LinkType
  addr : LinkAddr
deriving DecidableEq, Repr

/-- Slotframes, and links in the order they were added. -/
@[ext]
structure Timetable where
  frames : List Timetable.Frame
  links : List Timetable.Entry
  handles : (frames.map Timetable.Frame.handle).Nodup
  sizes : ∀ f ∈ frames, 1 ≤ f.size
  placed : ∀ e ∈ links, ∃ f ∈ frames, f.handle = e.cell.slotframe ∧ e.cell.timeslot < f.size

namespace Timetable

def empty : Timetable := ⟨[], [], List.nodup_nil, by simp, by simp⟩

/-- The slotframe of a handle. -/
def getSlotframe (handle : Nat) (T : Timetable) : Option Frame :=
  T.frames.find? fun f => f.handle == handle

/-- The first link of a cell. -/
def getLink (c : Cell) (T : Timetable) : Option Entry := T.links.find? fun e => e.cell == c

/-- Some of the links. -/
def keep (T : Timetable) (links : List Entry) (h : ∀ e ∈ links, e ∈ T.links) : Timetable where
  frames := T.frames
  links := links
  handles := T.handles
  sizes := T.sizes
  placed e he := T.placed e (h e he)

/-- The cell is cleared. -/
def clear (c : Cell) (T : Timetable) : Timetable :=
  T.keep (T.links.filter fun e => e.cell != c) fun _ he => List.mem_of_mem_filter he

/-- The first link of the cell is removed. -/
def removeFirst (c : Cell) (T : Timetable) : Timetable :=
  T.keep (T.links.eraseP fun e => e.cell == c) fun _ he => List.mem_of_mem_eraseP he

theorem mem_of_getSlotframe {T : Timetable} {handle : Nat} {f : Frame}
    (h : T.getSlotframe handle = some f) : f ∈ T.frames ∧ f.handle = handle := by
  have hhandle := List.find?_some h
  exact ⟨List.mem_of_find?_eq_some h, beq_iff_eq.mp hhandle⟩

theorem clear_of_getLink {T : Timetable} {c : Cell} (h : T.getLink c = none) : T.clear c = T := by
  refine Timetable.ext rfl (List.filter_eq_self.mpr ?_)
  intro e he
  simpa using List.find?_eq_none.mp h e he

theorem removeFirst_of_getLink {T : Timetable} {c : Cell} (h : T.getLink c = none) :
    T.removeFirst c = T := by
  refine Timetable.ext rfl (List.eraseP_of_forall_not ?_)
  exact List.find?_eq_none.mp h

theorem getLink_of_getSlotframe {T : Timetable} {c : Cell} (h : T.getSlotframe c.slotframe = none) :
    T.getLink c = none := by
  refine List.find?_eq_none.mpr ?_
  intro e he hc
  obtain ⟨f, hf, hhandle, -⟩ := T.placed e he
  refine List.find?_eq_none.mp h f hf ?_
  rw [hhandle, beq_iff_eq.mp hc]
  exact beq_self_eq_true _

theorem filter_eraseP_of_disjoint {α : Type} {q r : α → Bool} (l : List α)
    (h : ∀ a, q a = true → r a = false) : (l.eraseP q).filter r = l.filter r := by
  induction l with
  | nil => rfl
  | cons x l ih =>
      cases hx : q x with
      | true => rw [List.eraseP_cons_of_pos hx, List.filter_cons_of_neg (by simp [h x hx])]
      | false =>
          rw [List.eraseP_cons_of_neg (by simp [hx])]
          simp only [List.filter_cons, ih]

theorem clear_removeFirst (c : Cell) (T : Timetable) : (T.removeFirst c).clear c = T.clear c := by
  refine Timetable.ext rfl (filter_eraseP_of_disjoint T.links ?_)
  intro e he
  rw [beq_iff_eq.mp he, bne_self_eq_false]

/-- A slotframe with a handle of its own. -/
def withFrame (T : Timetable) (f : Frame) (hsize : f.size ≠ 0)
    (hnew : T.getSlotframe f.handle = none) : Timetable where
  frames := T.frames ++ [f]
  links := T.links
  handles := by
    rw [List.map_append, List.map_singleton]
    refine List.nodup_append.mpr ⟨T.handles, List.nodup_singleton _, ?_⟩
    intro h hh h' hh'
    obtain ⟨g, hg, rfl⟩ := List.mem_map.mp hh
    rw [List.mem_singleton.mp hh']
    intro heq
    exact List.find?_eq_none.mp hnew g hg (beq_iff_eq.mpr heq)
  sizes g hg := by
    rcases List.mem_append.mp hg with hg | hg
    · exact T.sizes g hg
    · rw [List.mem_singleton.mp hg]
      exact Nat.one_le_iff_ne_zero.mpr hsize
  placed e he := by
    obtain ⟨g, hg, hplace⟩ := T.placed e he
    exact ⟨g, List.mem_append_left _ hg, hplace⟩

/-- A slotframe goes with its links. -/
def withoutFrame (handle : Nat) (T : Timetable) : Timetable where
  frames := T.frames.filter fun f => f.handle != handle
  links := T.links.filter fun e => e.cell.slotframe != handle
  handles := T.handles.sublist (List.filter_sublist.map _)
  sizes f hf := T.sizes f (List.mem_of_mem_filter hf)
  placed e he := by
    obtain ⟨hmem, hne⟩ := List.mem_filter.mp he
    obtain ⟨f, hf, hh, hts⟩ := T.placed e hmem
    exact ⟨f, List.mem_filter.mpr ⟨hf, by rwa [hh]⟩, hh, hts⟩

/-- A link in a timeslot that its slotframe has. -/
def withLink (T : Timetable) (e : Entry) {f : Frame} (hf : T.getSlotframe e.cell.slotframe = some f)
    (hts : e.cell.timeslot < f.size) : Timetable where
  frames := T.frames
  links := T.links ++ [e]
  handles := T.handles
  sizes := T.sizes
  placed e' he' := by
    rcases List.mem_append.mp he' with he' | he'
    · exact T.placed e' he'
    · rw [List.mem_singleton.mp he']
      obtain ⟨hmem, hh⟩ := mem_of_getSlotframe hf
      exact ⟨f, hmem, hh, hts⟩

/-! ## The calls -/

/-- A call, by handles and cells. -/
inductive Call where
  | addSlotframe (f : Frame)
  | removeSlotframe (handle : Nat)
  | removeAllSlotframes
  | addLink (e : Entry) (doRemove : Bool)
  | removeLink (c : Cell)
  | removeLinkByTimeslot (c : Cell)
  | getSlotframe (handle : Nat)
  | getLink (c : Cell)
deriving DecidableEq, Repr

/-- What a call returns: whether it was done, or what it has found. -/
inductive Answer where
  | done (ok : Bool)
  | frame (f : Option Frame)
  | link (e : Option Entry)
deriving DecidableEq, Repr

/-- How many slotframes and links there may be. -/
structure Room where
  frames : Nat
  links : Nat

variable (room : Room)

def addSlotframe (f : Frame) (T : Timetable) : Bool × Timetable :=
  if h : f.size ≠ 0 ∧ T.getSlotframe f.handle = none ∧ T.frames.length < room.frames then
    (true, T.withFrame f h.1 h.2.1)
  else (false, T)

def removeSlotframe (handle : Nat) (T : Timetable) : Bool × Timetable :=
  if (T.getSlotframe handle).isSome then (true, T.withoutFrame handle) else (false, T)

/-- The timetable a link is added to. -/
def cleared (e : Entry) (doRemove : Bool) (T : Timetable) : Timetable :=
  if doRemove then T.clear e.cell else T

theorem getSlotframe_cleared (e : Entry) (doRemove : Bool) (T : Timetable) (handle : Nat) :
    (T.cleared e doRemove).getSlotframe handle = T.getSlotframe handle := by
  cases doRemove <;> rfl

theorem cleared_of_le {e : Entry} {doRemove : Bool} {T : Timetable}
    (h : T.links.length ≤ (T.cleared e doRemove).links.length) : T.cleared e doRemove = T := by
  cases doRemove with
  | false => rfl
  | true => exact Timetable.ext rfl (List.filter_sublist.eq_of_length_le h)

/-- The link is added, if its slotframe is there and has the timeslot, and there is room. -/
def addLink (e : Entry) (doRemove : Bool) (T : Timetable) : Bool × Timetable :=
  match hf : T.getSlotframe e.cell.slotframe with
  | none => (false, T)
  | some f =>
      if h : e.cell.timeslot < f.size ∧ (T.cleared e doRemove).links.length < room.links then
        (true, (T.cleared e doRemove).withLink e ((getSlotframe_cleared e doRemove T _).trans hf) h.1)
      else (false, T)

theorem addLink_of_none {T : Timetable} {e : Entry} (doRemove : Bool)
    (hf : T.getSlotframe e.cell.slotframe = none) : T.addLink room e doRemove = (false, T) := by
  simp only [addLink]
  split
  · rfl
  · rename_i f hf'
    rw [hf] at hf'
    cases hf'

theorem addLink_of_not {T : Timetable} {e : Entry} {doRemove : Bool} {f : Frame}
    (hf : T.getSlotframe e.cell.slotframe = some f)
    (h : ¬ (e.cell.timeslot < f.size ∧ (T.cleared e doRemove).links.length < room.links)) :
    T.addLink room e doRemove = (false, T) := by
  simp only [addLink]
  split
  · rfl
  · rename_i f' hf'
    rw [hf] at hf'
    cases hf'
    rw [dif_neg h]

theorem addLink_of {T : Timetable} {e : Entry} {doRemove : Bool} {f : Frame}
    (hf : T.getSlotframe e.cell.slotframe = some f)
    (h : e.cell.timeslot < f.size ∧ (T.cleared e doRemove).links.length < room.links) :
    T.addLink room e doRemove = (true, (T.cleared e doRemove).withLink e
      ((getSlotframe_cleared e doRemove T _).trans hf) h.1) := by
  simp only [addLink]
  split
  · rename_i hf'
    rw [hf] at hf'
    cases hf'
  · rename_i f' hf'
    rw [hf] at hf'
    cases hf'
    rw [dif_pos h]

def removeLink (c : Cell) (T : Timetable) : Bool × Timetable :=
  ((T.getLink c).isSome, T.removeFirst c)

def removeLinkByTimeslot (c : Cell) (T : Timetable) : Bool × Timetable :=
  ((T.getLink c).isSome, T.clear c)

/-- One call. -/
def call (T : Timetable) : Call → Answer × Timetable
  | .addSlotframe f => ((T.addSlotframe room f).map .done id)
  | .removeSlotframe handle => (T.removeSlotframe handle).map .done id
  | .removeAllSlotframes => (.done true, empty)
  | .addLink e doRemove => (T.addLink room e doRemove).map .done id
  | .removeLink c => (T.removeLink c).map .done id
  | .removeLinkByTimeslot c => (T.removeLinkByTimeslot c).map .done id
  | .getSlotframe handle => (.frame (T.getSlotframe handle), T)
  | .getLink c => (.link (T.getLink c), T)

/-- Calls one after the other. -/
def run : List Call → Timetable → List Answer × Timetable
  | [], T => ([], T)
  | c :: cs, T =>
      let r := T.call room c
      let rs := run cs r.2
      (r.1 :: rs.1, rs.2)

/-! ## What a cell holds -/

/-- What the call put into the cell, if it did anything to it. -/
def lastPut (c : Cell) (held : Option Entry) : Call × Answer → Option Entry
  | (.addLink e _, .done true) => if e.cell = c then some e else held
  | (.removeSlotframe handle, .done true) => if c.slotframe = handle then none else held
  | (.removeAllSlotframes, _) => none
  | (.removeLink d, .done true) => if d = c then none else held
  | (.removeLinkByTimeslot d, .done true) => if d = c then none else held
  | _ => held

/-- A cell holds at most one link. -/
def Single (T : Timetable) : Prop := (T.links.map Entry.cell).Nodup

/-- The call replaces what it finds. -/
def Call.replaces : Call → Bool
  | .addLink _ doRemove => doRemove
  | _ => true

section
variable {T : Timetable} {c d : Cell}

theorem getLink_clear_self : (T.clear c).getLink c = none := by
  simp only [getLink, clear, keep, List.find?_filter, List.find?_eq_none]
  intro e _ h
  simp at h

theorem getLink_clear_of_ne (h : d ≠ c) : (T.clear d).getLink c = T.getLink c := by
  simp only [getLink, clear, keep, List.find?_filter]
  refine congrArg (List.find? · T.links) (funext fun e => ?_)
  by_cases he : e.cell = c
  · simp [he, Ne.symm h]
  · simp [he]

theorem getLink_clear : (T.clear d).getLink c = if d = c then none else T.getLink c := by
  split
  · rename_i h
    rw [h]
    exact getLink_clear_self
  · rename_i h
    exact getLink_clear_of_ne h

theorem getLink_withoutFrame (handle : Nat) : (T.withoutFrame handle).getLink c =
    if c.slotframe = handle then none else T.getLink c := by
  simp only [getLink, withoutFrame, List.find?_filter]
  split
  · rename_i h
    refine List.find?_eq_none.mpr ?_
    intro e _ he
    simp only [bne_iff_ne, beq_iff_eq, decide_eq_true_eq] at he
    exact he.1 (he.2 ▸ h)
  · rename_i h
    refine congrArg (List.find? · T.links) (funext fun e => ?_)
    by_cases he : e.cell = c
    · simp [he, h]
    · simp [he]

theorem Single.removeFirst_eq (h : T.Single) : T.removeFirst c = T.clear c := by
  refine Timetable.ext rfl ?_
  have hone : ∀ l : List Entry, (l.map Entry.cell).Nodup →
      l.eraseP (fun e => e.cell == c) = l.filter fun e => e.cell != c := by
    intro l hl
    induction l with
    | nil => rfl
    | cons e l ih =>
        obtain ⟨hne, hl⟩ := List.nodup_cons.mp hl
        by_cases he : e.cell = c
        · have hrest : l.filter (fun e => e.cell != c) = l := by
            refine List.filter_eq_self.mpr ?_
            intro e' he'
            rw [bne_iff_ne]
            intro hc
            exact hne (List.mem_map.mpr ⟨e', he', hc.trans he.symm⟩)
          simp [he, hrest]
        · simp [he, ih hl]
  exact hone T.links h

theorem Single.clear (h : T.Single) : (T.clear c).Single :=
  h.sublist (List.filter_sublist.map _)

theorem Single.withoutFrame (h : T.Single) (handle : Nat) : (T.withoutFrame handle).Single :=
  h.sublist (List.filter_sublist.map _)

theorem Single.withLink (h : T.Single) {e : Entry} {f : Frame}
    (hf : (T.clear e.cell).getSlotframe e.cell.slotframe = some f) (hts : e.cell.timeslot < f.size) :
    ((T.clear e.cell).withLink e hf hts).Single := by
  show (((T.clear e.cell).links ++ [e]).map Entry.cell).Nodup
  rw [List.map_append, List.map_singleton]
  refine List.nodup_append.mpr ⟨h.clear, List.nodup_singleton _, ?_⟩
  intro c hc d hd
  obtain ⟨e', he', rfl⟩ := List.mem_map.mp hc
  rw [List.mem_singleton.mp hd]
  exact bne_iff_ne.mp (List.mem_filter.mp he').2

variable {room : Room}

theorem lastPut_removed {k : Call} (hk : k = .removeLink d ∨ k = .removeLinkByTimeslot d) :
    lastPut c (T.getLink c) (k, .done (T.getLink d).isSome) =
      if d = c then none else T.getLink c := by
  cases hd : T.getLink d with
  | some e => rcases hk with rfl | rfl <;> rfl
  | none =>
      have hkeep : lastPut c (T.getLink c) (k, .done false) = T.getLink c := by
        rcases hk with rfl | rfl <;> rfl
      refine hkeep.trans ?_
      split
      · rename_i hdc
        rw [← hdc]
        exact hd
      · rfl

/-- **One call**: a cell holds what the call put there, or what it held before. -/
theorem Single.call (h : T.Single) {k : Call} (hk : k.replaces = true) :
    (T.call room k).2.Single ∧
      (T.call room k).2.getLink c = lastPut c (T.getLink c) (k, (T.call room k).1) := by
  cases k with
  | addSlotframe f =>
      simp only [Timetable.call, addSlotframe]
      split
      · exact ⟨h, rfl⟩
      · exact ⟨h, rfl⟩
  | removeSlotframe handle =>
      simp only [Timetable.call, removeSlotframe]
      split
      · exact ⟨h.withoutFrame handle, getLink_withoutFrame handle⟩
      · exact ⟨h, rfl⟩
  | removeAllSlotframes => exact ⟨List.nodup_nil, rfl⟩
  | addLink e doRemove =>
      have hrm : doRemove = true := hk
      subst hrm
      simp only [Timetable.call, addLink]
      split
      · exact ⟨h, rfl⟩
      · split
        · rename_i f hf hroom
          refine ⟨h.withLink ((getSlotframe_cleared e true T _).trans hf) hroom.1, ?_⟩
          show ((T.clear e.cell).links ++ [e]).find? (fun e => e.cell == c) =
            if e.cell = c then some e else T.getLink c
          rw [List.find?_append]
          have hclear : (T.clear e.cell).links.find? (fun e => e.cell == c) = _ :=
            getLink_clear (T := T) (d := e.cell)
          rw [hclear]
          split
          · rename_i hc
            simp [hc]
          · rename_i hc
            simp [hc]
        · exact ⟨h, rfl⟩
  | removeLink d =>
      have hclear : (T.removeFirst d).getLink c = _ :=
        (congrArg (getLink c) h.removeFirst_eq).trans getLink_clear
      refine ⟨?_, hclear.trans (lastPut_removed (.inl rfl)).symm⟩
      show (T.removeFirst d).Single
      rw [h.removeFirst_eq]
      exact h.clear
  | removeLinkByTimeslot d =>
      exact ⟨h.clear, getLink_clear.trans (lastPut_removed (.inr rfl)).symm⟩
  | getSlotframe handle => exact ⟨h, rfl⟩
  | getLink d => exact ⟨h, rfl⟩

/-- **Calls one after the other.** -/
theorem Single.run (h : T.Single) {ks : List Call} (hks : ∀ k ∈ ks, k.replaces = true) :
    (T.run room ks).2.getLink c = (ks.zip (T.run room ks).1).foldl (lastPut c) (T.getLink c) := by
  induction ks generalizing T with
  | nil => rfl
  | cons k ks ih =>
      obtain ⟨hsingle, hput⟩ : (T.call room k).2.Single ∧ (T.call room k).2.getLink c =
          lastPut c (T.getLink c) (k, (T.call room k).1) := h.call (hks k List.mem_cons_self)
      show ((T.call room k).2.run room ks).2.getLink c = List.foldl _ (lastPut c _ _) _
      rw [← hput]
      exact ih hsingle fun k hk => hks k (List.mem_cons_of_mem _ hk)

end

end Timetable
end QlTsch
