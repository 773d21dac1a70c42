import Mathlib.Data.List.Nodup
import Mathlib.Logic.Function.Basic
import SiteServer.Slot.Table

/-!
# The states of a slot table

Seen from outside, a slot table says what each identity stands for.  Each operation changes this for
one identity only, the one that it is about, whatever other identities of the same slot are still
around: that is what the lemmas on `state?` say.  They hold of a table whose free list is in order,
and the operations keep it so.
-/

namespace SiteServer.SlotTable

variable {α : Type} {table next : SlotTable α} {id : SlotId} {state new : SlotState α} {value : α}

/-- The free list holds each vacant slot once. -/
structure WellFormed (table : SlotTable α) : Prop where
  nodup_free : table.free.Nodup
  mem_free_iff : ∀ index, index ∈ table.free ↔
    ∃ generation, table.slots[index]? = some ⟨generation, .vacant⟩

/-! ### What an identity stands for -/

lemma state?_eq_some_iff :
    table.state? id = some state ↔
      state ≠ .vacant ∧ table.slots[id.index]? = some ⟨id.generation, state⟩ := by
  unfold state?
  split
  · next generation value hslot =>
    rw [hslot, Option.ite_none_right_eq_some]
    constructor
    · rintro ⟨rfl, ⟨⟩⟩
      exact ⟨by simp, rfl⟩
    · rintro ⟨-, ⟨⟩⟩
      exact ⟨rfl, rfl⟩
  · next generation hslot =>
    rw [hslot, Option.ite_none_right_eq_some]
    constructor
    · rintro ⟨rfl, ⟨⟩⟩
      exact ⟨by simp, rfl⟩
    · rintro ⟨-, ⟨⟩⟩
      exact ⟨rfl, rfl⟩
  · next hparked hlent =>
    simp only [reduceCtorEq, false_iff, not_and]
    intro hstate hslot
    cases state with
    | vacant => exact hstate rfl
    | parked value => exact hparked _ _ hslot
    | lent => exact hlent _ hslot

lemma slot_of_state? (h : table.state? id = some state) :
    table.slots[id.index]? = some ⟨id.generation, state⟩ :=
  (state?_eq_some_iff.1 h).2

lemma ne_vacant_of_state? (h : table.state? id = some state) : state ≠ .vacant :=
  (state?_eq_some_iff.1 h).1

/-- An identity of another generation stands for nothing, and so does one of a vacant slot. -/
lemma state?_eq_none {slot : Slot α} (hslot : table.slots[id.index]? = some slot)
    (h : slot.generation ≠ id.generation ∨ slot.state = .vacant) : table.state? id = none := by
  by_contra hsome
  obtain ⟨state, hstate⟩ := Option.ne_none_iff_exists'.1 hsome
  rw [slot_of_state? hstate] at hslot
  obtain rfl := Option.some.inj hslot
  rcases h with hgeneration | hvacant
  · exact hgeneration rfl
  · exact ne_vacant_of_state? hstate hvacant

lemma generation_ne {id' : SlotId} (hindex : id'.index = id.index) (hne : id' ≠ id) :
    id.generation ≠ id'.generation := by
  intro hgeneration
  cases id
  cases id'
  exact hne (by simp_all)

/-- Two identities of one slot do not both stand for something. -/
lemma eq_of_index_eq {id' : SlotId} (h : (table.state? id).isSome) (h' : (table.state? id').isSome)
    (hindex : id'.index = id.index) : id' = id := by
  by_contra hne
  obtain ⟨state, hstate⟩ := Option.isSome_iff_exists.1 h
  have hslot := slot_of_state? hstate
  rw [← hindex] at hslot
  rw [state?_eq_none hslot (.inl (generation_ne hindex hne))] at h'
  simp at h'

lemma state?_congr (h : next.slots[id.index]? = table.slots[id.index]?) :
    next.state? id = table.state? id := by
  rw [state?, state?, h]

/-- A change to the slot of an allocated identity is seen by no other identity. -/
lemma state?_of_set {slot : Slot α} (h : (table.state? id).isSome)
    (hslots : next.slots = table.slots.set id.index slot)
    (hothers : ∀ id', id'.index = id.index → id' ≠ id → next.state? id' = none) :
    next.state? = Function.update table.state? id (next.state? id) := by
  funext id'
  by_cases hid : id' = id
  · rw [hid, Function.update_self]
  · rw [Function.update_of_ne hid]
    by_cases hindex : id'.index = id.index
    · -- an older generation of the same slot
      have hnone : table.state? id' = none := by
        by_contra hsome
        exact hid (eq_of_index_eq h (Option.isSome_iff_ne_none.2 hsome) hindex)
      rw [hothers id' hindex hid, hnone]
    · refine state?_congr ?_
      rw [hslots, List.getElem?_set_ne (Ne.symm hindex)]

/-! ### The operations -/

/-- A slot that is allocated is not on the free list. -/
lemma WellFormed.not_mem_free (hw : table.WellFormed) (h : table.state? id = some state) :
    id.index ∉ table.free := by
  intro hmem
  obtain ⟨generation, hslot⟩ := (hw.mem_free_iff _).1 hmem
  rw [slot_of_state? h] at hslot
  cases hslot
  exact ne_vacant_of_state? h rfl

lemma slots_setState (h : table.state? id = some state) (new : SlotState α) :
    (table.setState id.index new).slots = table.slots.set id.index ⟨id.generation, new⟩ := by
  obtain ⟨hlt, hslot⟩ := List.getElem?_eq_some_iff.1 (slot_of_state? h)
  apply List.ext_getElem?
  intro i
  rw [setState, List.getElem?_modify, List.getElem?_set]
  by_cases hi : id.index = i
  · subst hi
    simp [hlt, hslot]
  · simp [hi]

theorem state?_setState (h : table.state? id = some state) (hnew : new ≠ .vacant) :
    (table.setState id.index new).state? = Function.update table.state? id (some new) := by
  have hslots := slots_setState h new
  have hlt := (List.getElem?_eq_some_iff.1 (slot_of_state? h)).1
  have hslot : (table.setState id.index new).slots[id.index]? = some ⟨id.generation, new⟩ := by
    rw [hslots, List.getElem?_set_self hlt]
  have hid : (table.setState id.index new).state? id = some new :=
    state?_eq_some_iff.2 ⟨hnew, hslot⟩
  rw [← hid]
  refine state?_of_set (by simp [h]) hslots fun id' hindex hne => ?_
  exact state?_eq_none (by rw [hindex, hslot]) (.inl (generation_ne hindex hne))

theorem WellFormed.setState (hw : table.WellFormed) (h : table.state? id = some state)
    (hnew : new ≠ .vacant) : (table.setState id.index new).WellFormed where
  nodup_free := hw.nodup_free
  mem_free_iff := by
    intro index
    rw [slots_setState h]
    have hmem : index ∈ (table.setState id.index new).free ↔ index ∈ table.free := Iff.rfl
    rw [hmem]
    by_cases hindex : index = id.index
    · subst hindex
      have hlt := (List.getElem?_eq_some_iff.1 (slot_of_state? h)).1
      simp [hw.not_mem_free h, List.getElem?_set_self hlt, hnew]
    · rw [List.getElem?_set_ne (Ne.symm hindex), hw.mem_free_iff]

theorem take_eq_some_iff :
    table.take id = some (value, next) ↔
      table.state? id = some (.parked value) ∧ next = table.setState id.index .lent := by
  unfold take
  split
  · next parked hparked =>
    rw [hparked]
    simp only [Option.some.injEq, Prod.mk.injEq, SlotState.parked.injEq]
    exact and_congr_right fun _ => eq_comm
  · next hnot =>
    simp only [reduceCtorEq, false_iff, not_and]
    exact fun hparked => absurd hparked (hnot value)

theorem park_eq_some_iff :
    table.park id value = some next ↔
      table.state? id = some .lent ∧ next = table.setState id.index (.parked value) := by
  unfold park
  split
  · next hlent => simp [hlent, eq_comm]
  · next hnot =>
    simp only [reduceCtorEq, false_iff, not_and]
    exact fun hlent => absurd hlent hnot

lemma release_eq (h : table.state? id = some state) :
    (table.release id).2 =
      { table with
        slots := table.slots.set id.index ⟨SlotId.nextGeneration id.generation, .vacant⟩
        free := id.index :: table.free } := by
  rw [release, h]
  cases state <;> rfl

theorem state?_release (h : table.state? id = some state) :
    (table.release id).2.state? = Function.update table.state? id none := by
  have hslots := congrArg SlotTable.slots (release_eq h)
  have hlt := (List.getElem?_eq_some_iff.1 (slot_of_state? h)).1
  have hnone : ∀ id', id'.index = id.index → (table.release id).2.state? id' = none := by
    intro id' hindex
    exact state?_eq_none (by rw [hindex, hslots, List.getElem?_set_self hlt]) (.inr rfl)
  rw [← hnone id rfl]
  exact state?_of_set (by simp [h]) hslots fun id' hindex _ => hnone id' hindex

theorem WellFormed.release (hw : table.WellFormed) (h : table.state? id = some state) :
    (table.release id).2.WellFormed := by
  have hlt := (List.getElem?_eq_some_iff.1 (slot_of_state? h)).1
  rw [release_eq h]
  refine ⟨List.nodup_cons.2 ⟨hw.not_mem_free h, hw.nodup_free⟩, fun index => ?_⟩
  simp only [List.mem_cons]
  by_cases hindex : index = id.index
  · subst hindex
    simp [List.getElem?_set_self hlt]
  · rw [List.getElem?_set_ne (Ne.symm hindex), ← hw.mem_free_iff]
    simp [hindex]

/-- What the identities stand for when a slot that was not allocated has been given to one. -/
lemma state?_of_new (hnone : ∀ id', id'.index = id.index → table.state? id' = none)
    (hslot : next.slots[id.index]? = some ⟨id.generation, .parked value⟩)
    (hothers : ∀ index, index ≠ id.index → next.slots[index]? = table.slots[index]?) :
    next.state? = Function.update table.state? id (some (.parked value)) := by
  funext id'
  by_cases hid : id' = id
  · rw [hid, Function.update_self]
    exact state?_eq_some_iff.2 ⟨by simp, hslot⟩
  · rw [Function.update_of_ne hid]
    by_cases hindex : id'.index = id.index
    · rw [hnone id' hindex]
      exact state?_eq_none (by rw [hindex, hslot]) (.inl (generation_ne hindex hid))
    · exact state?_congr (hothers _ hindex)

/-- A new value gets an identity that has stood for nothing. -/
theorem insert_spec (hw : table.WellFormed) {make : SlotId → α}
    (h : table.insert make = some (id, next)) :
    table.state? id = none ∧
      next.state? = Function.update table.state? id (some (.parked (make id))) ∧
      next.WellFormed := by
  unfold insert at h
  split at h
  · next index free hfree =>
    -- the slot that was released last is used again
    have hnodup : (index :: free).Nodup := hfree ▸ hw.nodup_free
    obtain ⟨generation, hslot⟩ := (hw.mem_free_iff index).1 (by simp [hfree])
    obtain ⟨hlt, hget⟩ := List.getElem?_eq_some_iff.1 hslot
    simp only [hslot, Option.map_some, Option.getD_some, Option.some.injEq, Prod.mk.injEq] at h
    obtain ⟨rfl, rfl⟩ := h
    have hnone : ∀ id', id'.index = index → table.state? id' = none :=
      fun id' hindex => state?_eq_none (by rw [hindex, hslot]) (.inr rfl)
    have hnew : (setState { table with free } index
        (.parked (make ⟨index, generation⟩))).slots[index]?
          = some ⟨generation, .parked (make ⟨index, generation⟩)⟩ := by
      simp [setState, hlt, hget]
    have hothers : ∀ i, i ≠ index → (setState { table with free } index
        (.parked (make ⟨index, generation⟩))).slots[i]? = table.slots[i]? := by
      intro i hi
      simp [setState, Ne.symm hi]
    refine ⟨hnone _ rfl, state?_of_new hnone hnew hothers, (List.nodup_cons.1 hnodup).2, ?_⟩
    intro i
    by_cases hi : i = index
    · subst hi
      rw [hnew]
      simpa [setState] using (List.nodup_cons.1 hnodup).1
    · rw [hothers i hi, ← hw.mem_free_iff, hfree]
      simp [setState, hi]
  · next hfree =>
    -- the table grows
    split at h
    · simp only [Option.some.injEq, Prod.mk.injEq] at h
      obtain ⟨rfl, rfl⟩ := h
      have hnone : ∀ id' : SlotId, id'.index = table.slots.length → table.state? id' = none := by
        intro id' hindex
        rw [state?, hindex, List.getElem?_eq_none (Nat.le_refl _)]
      have hothers : ∀ i, i ≠ table.slots.length →
          (table.slots ++ [⟨0, .parked (make ⟨table.slots.length, 0⟩)⟩])[i]? = table.slots[i]? := by
        intro i hi
        rcases Nat.lt_or_gt_of_ne hi with hlt | hgt
        · exact List.getElem?_append_left hlt
        · rw [List.getElem?_eq_none (by simp; omega), List.getElem?_eq_none (by omega)]
      refine ⟨hnone _ rfl, state?_of_new hnone (by simp) hothers, hw.nodup_free, fun i => ?_⟩
      by_cases hi : i = table.slots.length
      · subst hi
        simp [hfree]
      · rw [hothers i hi, hw.mem_free_iff]
    · simp at h

/-! ### The empty table -/

lemma wellFormed_withCapacity (capacity : Nat) : (withCapacity capacity : SlotTable α).WellFormed :=
  ⟨List.nodup_nil, by simp [withCapacity]⟩

lemma state?_withCapacity (capacity : Nat) (id : SlotId) :
    (withCapacity capacity : SlotTable α).state? id = none := by
  simp [state?, withCapacity]

end SiteServer.SlotTable
