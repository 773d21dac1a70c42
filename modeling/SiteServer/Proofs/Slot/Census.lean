import Mathlib.Data.List.Perm.Basic
import Mathlib.Data.List.Range
import SiteServer.Proofs.Slot.States

/-!
# The identities that are allocated

The slots that are not vacant, read off in the order of their indices, give the list of the
allocated identities, which has as many entries as the table says it has (`length_identities`).
Emptying the table goes through the same list: it frees these slots, returns what was parked in
them, and touches no other one (`slots_drain`, `fst_drain`).
-/

namespace SiteServer

variable {α : Type}

/-- The value of a parked state. -/
def SlotState.value? : SlotState α → Option α
  | .parked value => some value
  | _ => none

/-- The slot after it has been freed; a vacant one stays as it is. -/
def Slot.freed (slot : Slot α) : Slot α :=
  match slot.state with
  | .vacant => slot
  | _ => ⟨SlotId.nextGeneration slot.generation, .vacant⟩

namespace SlotTable

variable {table next : SlotTable α} {id : SlotId} {state : SlotState α} {index : Nat}

lemma allocated?_eq_some_iff :
    table.allocated? index = some id ↔ id.index = index ∧ (table.state? id).isSome := by
  constructor
  · intro h
    unfold allocated? at h
    split at h
    · simp at h
    · simp at h
    · next generation state hvacant hslot =>
      obtain rfl := Option.some.inj h
      refine ⟨rfl, Option.isSome_iff_exists.2 ⟨state, state?_eq_some_iff.2 ⟨?_, hslot⟩⟩⟩
      rintro rfl
      exact hvacant rfl
  · rintro ⟨rfl, h⟩
    obtain ⟨state, hstate⟩ := Option.isSome_iff_exists.1 h
    have hne := ne_vacant_of_state? hstate
    rw [allocated?, slot_of_state? hstate]
    cases state <;> simp_all

lemma allocated?_of_state? (h : table.state? id = some state) :
    table.allocated? id.index = some id :=
  allocated?_eq_some_iff.2 ⟨rfl, by simp [h]⟩

/-- A slot that is in use and not allocated is vacant. -/
lemma allocated?_eq_none_iff (hlt : index < table.slots.length) :
    table.allocated? index = none ↔
      ∃ generation, table.slots[index]? = some ⟨generation, .vacant⟩ := by
  rcases hslot : table.slots[index]? with _ | ⟨generation, state⟩
  · exact absurd hlt (Nat.not_lt.2 (List.getElem?_eq_none_iff.1 hslot))
  · cases state <;> simp [allocated?, hslot]

lemma fst_release (h : table.state? id = some state) : (table.release id).1 = state.value? := by
  rw [release, h]
  cases state <;> rfl

/-! ### The list of identities -/

/-- The allocated identities in the order of their indices. -/
def identities (table : SlotTable α) : List SlotId :=
  (List.range table.slots.length).filterMap table.allocated?

theorem mem_identities : id ∈ table.identities ↔ (table.state? id).isSome := by
  simp only [identities, List.mem_filterMap, List.mem_range]
  constructor
  · rintro ⟨index, -, h⟩
    exact (allocated?_eq_some_iff.1 h).2
  · intro h
    obtain ⟨state, hstate⟩ := Option.isSome_iff_exists.1 h
    exact ⟨id.index, (List.getElem?_eq_some_iff.1 (slot_of_state? hstate)).1,
      allocated?_of_state? hstate⟩

theorem identities_pairwise (table : SlotTable α) :
    table.identities.Pairwise fun a b => a.index < b.index := by
  refine List.Pairwise.filterMap _ (fun i j hlt a ha b hb => ?_) List.pairwise_lt_range
  rwa [(allocated?_eq_some_iff.1 ha).1, (allocated?_eq_some_iff.1 hb).1]

/-- The vacant slots are those on the free list, so the others are as many as the table says. -/
theorem length_identities (h : table.WellFormed) : table.identities.length = table.size := by
  let vacant : Nat → Bool := fun index => (table.allocated? index).isNone
  have hfree : table.free.Perm ((List.range table.slots.length).filter vacant) := by
    refine (List.perm_ext_iff_of_nodup h.nodup_free (List.nodup_range.filter _)).2 fun index => ?_
    rw [h.mem_free_iff, List.mem_filter, List.mem_range, Option.isNone_iff_eq_none]
    constructor
    · intro hvacant
      have hlt : index < table.slots.length :=
        hvacant.elim fun _ hslot => (List.getElem?_eq_some_iff.1 hslot).1
      exact ⟨hlt, (allocated?_eq_none_iff hlt).2 hvacant⟩
    · rintro ⟨hlt, hnone⟩
      exact (allocated?_eq_none_iff hlt).1 hnone
  have htaken : table.identities.length
      = (List.range table.slots.length).countP fun index => (table.allocated? index).isSome := by
    rw [identities, List.length_filterMap_eq_countP]
  have hsum := List.length_eq_countP_add_countP vacant (l := List.range table.slots.length)
  have hnot : ∀ index, (! vacant index) = (table.allocated? index).isSome := by
    intro index
    cases hallocated : table.allocated? index <;> simp [vacant, hallocated]
  rw [htaken, size, hfree.length_eq, ← List.countP_eq_length_filter]
  simp only [List.length_range, decide_not, Bool.decide_eq_true, hnot] at hsum
  omega

/-! ### Emptying the table -/

lemma freed_of_allocated?_eq_none (h : table.allocated? index = none) :
    (table.slots[index]?).map Slot.freed = table.slots[index]? := by
  unfold allocated? at h
  split at h
  · next hslot => rw [hslot]; rfl
  · next generation hslot => rw [hslot]; rfl
  · simp at h

lemma freed_of_allocated? (h : table.allocated? index = some id) :
    (table.slots[index]?).map Slot.freed
      = some ⟨SlotId.nextGeneration id.generation, .vacant⟩ := by
  obtain ⟨rfl, hsome⟩ := allocated?_eq_some_iff.1 h
  obtain ⟨state, hstate⟩ := Option.isSome_iff_exists.1 hsome
  have hne := ne_vacant_of_state? hstate
  rw [slot_of_state? hstate]
  cases state <;> simp_all [Slot.freed]

/-- Releasing a slot leaves the others alone. -/
lemma slots_release_of_ne (h : table.state? id = some state) (hne : index ≠ id.index) :
    (table.release id).2.slots[index]? = table.slots[index]? := by
  rw [release_eq h, List.getElem?_set_ne (Ne.symm hne)]

lemma allocated?_congr (h : next.slots[index]? = table.slots[index]?) :
    next.allocated? index = table.allocated? index := by
  rw [allocated?, allocated?, h]

/-- Freeing some slots frees exactly these. -/
lemma slots_drainAt {indices : List Nat} (hnodup : indices.Nodup) (table : SlotTable α)
    (index : Nat) :
    (table.drainAt indices).2.slots[index]?
      = if index ∈ indices then (table.slots[index]?).map Slot.freed
        else table.slots[index]? := by
  induction indices generalizing table with
  | nil => simp [drainAt]
  | cons first rest ih =>
    obtain ⟨hfirst, hrest⟩ := List.nodup_cons.1 hnodup
    rw [drainAt]
    split
    · next hnone =>
      rw [ih hrest]
      by_cases hindex : index = first
      · subst hindex
        simp [hfirst, freed_of_allocated?_eq_none hnone]
      · simp [hindex]
    · next id hallocated =>
      obtain ⟨rfl, hsome⟩ := allocated?_eq_some_iff.1 hallocated
      obtain ⟨state, hstate⟩ := Option.isSome_iff_exists.1 hsome
      rw [ih hrest]
      by_cases hindex : index = id.index
      · subst hindex
        have hlt := (List.getElem?_eq_some_iff.1 (slot_of_state? hstate)).1
        rw [if_neg hfirst, if_pos List.mem_cons_self, freed_of_allocated? hallocated,
          release_eq hstate, List.getElem?_set_self hlt]
      · simp [hindex, slots_release_of_ne hstate hindex]

/-- The values that freeing some slots returns are those parked in them, in the order given. -/
lemma fst_drainAt {indices : List Nat} (hnodup : indices.Nodup) (table : SlotTable α) :
    (table.drainAt indices).1
      = (indices.filterMap table.allocated?).filterMap fun id =>
          (table.state? id).bind SlotState.value? := by
  induction indices generalizing table with
  | nil => simp [drainAt]
  | cons first rest ih =>
    obtain ⟨hfirst, hrest⟩ := List.nodup_cons.1 hnodup
    rw [drainAt]
    split
    · next hnone => rw [ih hrest, List.filterMap_cons_none hnone]
    · next id hallocated =>
      obtain ⟨rfl, hsome⟩ := allocated?_eq_some_iff.1 hallocated
      obtain ⟨state, hstate⟩ := Option.isSome_iff_exists.1 hsome
      -- what lies in the later slots is the same as before
      have hlater : ∀ index ∈ rest, (table.release id).2.slots[index]? = table.slots[index]? :=
        fun index hmem => slots_release_of_ne hstate fun heq => hfirst (heq ▸ hmem)
      have hids : rest.filterMap (table.release id).2.allocated?
          = rest.filterMap table.allocated? :=
        List.filterMap_congr fun index hmem => allocated?_congr (hlater index hmem)
      have hvalues : ∀ id' ∈ rest.filterMap table.allocated?,
          (table.release id).2.state? id' = table.state? id' := by
        intro id' hmem
        obtain ⟨index, hindex, hid⟩ := List.mem_filterMap.1 hmem
        obtain ⟨rfl, -⟩ := allocated?_eq_some_iff.1 hid
        exact state?_congr (hlater _ hindex)
      simp only [fst_release hstate, ih hrest, hids, List.filterMap_cons_some hallocated]
      rw [List.filterMap_congr fun id' hmem => by rw [hvalues id' hmem]]
      rw [List.filterMap_cons, hstate, Option.bind_some]
      cases state.value? <;> simp

lemma WellFormed.drainAt {indices : List Nat} (h : table.WellFormed) :
    (table.drainAt indices).2.WellFormed := by
  induction indices generalizing table with
  | nil => exact h
  | cons first rest ih =>
    rw [SlotTable.drainAt]
    split
    · exact ih h
    · next id hallocated =>
      obtain ⟨state, hstate⟩ := Option.isSome_iff_exists.1 (allocated?_eq_some_iff.1 hallocated).2
      exact ih (h.release hstate)

theorem WellFormed.drain (h : table.WellFormed) : table.drain.2.WellFormed :=
  h.drainAt

/-- Every slot has been freed. -/
theorem slots_drain (table : SlotTable α) (index : Nat) :
    table.drain.2.slots[index]? = (table.slots[index]?).map Slot.freed := by
  rw [drain, slots_drainAt List.nodup_range]
  split
  · rfl
  · next hmem =>
    rw [List.getElem?_eq_none (Nat.not_lt.1 (mt List.mem_range.2 hmem))]
    rfl

/-- All parked values come back, each once, in the order of their indices. -/
theorem fst_drain (table : SlotTable α) :
    table.drain.1
      = table.identities.filterMap fun id => (table.state? id).bind SlotState.value? :=
  fst_drainAt List.nodup_range table

theorem state?_drain (table : SlotTable α) (id : SlotId) : table.drain.2.state? id = none := by
  rcases hslot : table.slots[id.index]? with _ | slot
  · rw [state?, slots_drain, hslot]
    rfl
  · refine state?_eq_none (by rw [slots_drain, hslot]; rfl) (.inr ?_)
    obtain ⟨generation, state⟩ := slot
    cases state <;> rfl

end SlotTable

end SiteServer
