import SiteServer.Proofs.Slot.Refinement

/-!
# The history of a slot table

A table that has come from the empty one by any requests answers as a bounded map does, and its
books are right (`refines_map`).  Beside this, a history says which identities have been handed out
and how often each slot has been freed.  A slot is filled under the generation that it has, and
goes on to the next one when it is freed (`SlotMoved`), so as long as the generations of a slot have
not run out, no identity is handed out twice (`nodup_issued`).
-/

namespace SiteServer.SlotTable

variable {α : Type} {table next : SlotTable α} {id : SlotId} {state : SlotState α} {index : Nat}

/-! ### One slot -/

/-- The generation of the slot at an index; one that has not been used yet is in the first. -/
def generationAt (table : SlotTable α) (index : Nat) : Nat :=
  (table.slots[index]?.map Slot.generation).getD 0

/-- What a request can do to the slot at an index, when it hands out the identity `issued`. -/
inductive SlotMoved (table next : SlotTable α) (issued : Option SlotId) (index : Nat) : Prop where
  | stays (generation : next.generationAt index = table.generationAt index)
      (allocated : (next.allocated? index).isSome = (table.allocated? index).isSome)
      (issued : ∀ id ∈ issued, id.index ≠ index)
  /-- The slot gets a value under its own generation. -/
  | fills (generation : next.generationAt index = table.generationAt index)
      (vacant : table.allocated? index = none) (filled : (next.allocated? index).isSome)
      (issued : issued = some ⟨index, table.generationAt index⟩)
  /-- The slot is freed and goes on to the next generation. -/
  | frees (generation : next.generationAt index
        = SlotId.nextGeneration (table.generationAt index))
      (held : (table.allocated? index).isSome) (vacant : next.allocated? index = none)
      (issued : issued = none)

lemma generationAt_of_slot {slot : Slot α} (h : table.slots[index]? = some slot) :
    table.generationAt index = slot.generation := by
  rw [generationAt, h]
  rfl

lemma generationAt_of_state? (h : table.state? id = some state) :
    table.generationAt id.index = id.generation :=
  generationAt_of_slot (slot_of_state? h)

/-- To exchange what is in a slot does not change its generation. -/
lemma generationAt_setState (table : SlotTable α) (index : Nat) (state : SlotState α) (i : Nat) :
    (table.setState index state).generationAt i = table.generationAt i := by
  rw [generationAt, generationAt, setState, List.getElem?_modify]
  cases table.slots[i]? with
  | none => rfl
  | some slot => by_cases h : index = i <;> simp [h]

/-- A slot gets a new value under the generation that it has. -/
lemma generationAt_insert (hw : table.WellFormed) {make : SlotId → α}
    (h : table.insert make = some (id, next)) (i : Nat) :
    next.generationAt i = table.generationAt i := by
  by_cases hi : i = id.index
  · subst hi
    have hparked : next.state? id = some (.parked (make id)) := by
      rw [(insert_spec hw h).2.1, Function.update_self]
    rw [generationAt_of_state? hparked, generationAt, ← (slots_insert h).1]
  · rw [generationAt, generationAt, (slots_insert h).2 i hi]

/-- To free a slot begins its next generation. -/
lemma generationAt_release (h : table.state? id = some state) (i : Nat) :
    (table.release id).2.generationAt i
      = if i = id.index then SlotId.nextGeneration id.generation else table.generationAt i := by
  split
  · next hi =>
    have hlt := (List.getElem?_eq_some_iff.1 (slot_of_state? h)).1
    have hslot : (table.release id).2.slots[i]?
        = some ⟨SlotId.nextGeneration id.generation, .vacant⟩ := by
      rw [release_eq h, hi, List.getElem?_set_self hlt]
    rw [generationAt_of_slot hslot]
  · next hi => rw [generationAt, generationAt, slots_release_of_ne h hi]

/-- A slot that is not touched stays. -/
lemma slotMoved_of_slot_eq {issued : Option SlotId}
    (h : next.slots[index]? = table.slots[index]?) (hissued : ∀ id ∈ issued, id.index ≠ index) :
    SlotMoved table next issued index :=
  .stays (by rw [generationAt, generationAt, h]) (by rw [allocated?_congr h]) hissued

lemma Served.slotMoved {reply : SlotReply α} (h : Served table reply next)
    (hw : table.WellFormed) (index : Nat) : SlotMoved table next reply.issued? index := by
  cases h with
  | unchanged issued => exact slotMoved_of_slot_eq rfl (by simp [issued])
  | @inserted make id _ made =>
    by_cases hindex : index = id.index
    · subst hindex
      have hgeneration : id.generation = table.generationAt id.index := (slots_insert made).1
      have hparked : next.state? id = some (.parked (make id)) := by
        rw [(insert_spec hw made).2.1, Function.update_self]
      refine .fills ?_ (allocated?_of_insert hw made) ?_ ?_
      · rw [generationAt_of_state? hparked, hgeneration]
      · rw [allocated?_of_state? hparked]
        rfl
      · rw [← hgeneration]
        rfl
    · refine slotMoved_of_slot_eq ((slots_insert made).2 index hindex) fun id' hid' => ?_
      obtain rfl : id = id' := Option.some.inj hid'
      exact Ne.symm hindex
  | @exchanged _ id state new held stays issued =>
    rw [issued]
    by_cases hindex : index = id.index
    · subst hindex
      have hnew : (table.setState id.index new).state? id = some new := by
        rw [state?_setState held stays, Function.update_self]
      refine .stays ?_ ?_ (by simp)
      · rw [generationAt_of_state? hnew, generationAt_of_state? held]
      · rw [allocated?_of_state? hnew, allocated?_of_state? held]
    · refine slotMoved_of_slot_eq ?_ (by simp)
      rw [slots_setState held, List.getElem?_set_ne (Ne.symm hindex)]
  | @released _ id state held issued =>
    rw [issued]
    by_cases hindex : index = id.index
    · subst hindex
      have hlt := (List.getElem?_eq_some_iff.1 (slot_of_state? held)).1
      have hslot : (table.release id).2.slots[id.index]?
          = some ⟨SlotId.nextGeneration id.generation, .vacant⟩ := by
        rw [release_eq held, List.getElem?_set_self hlt]
      refine .frees ?_ (by rw [allocated?_of_state? held]; rfl) ?_ rfl
      · rw [generationAt_of_slot hslot, generationAt_of_state? held]
      · rw [allocated?, hslot]
    · exact slotMoved_of_slot_eq (slots_release_of_ne held hindex) (by simp)
  | drained =>
    rcases hallocated : table.allocated? index with _ | id
    · refine slotMoved_of_slot_eq ?_ (by simp [SlotReply.issued?])
      rw [slots_drain, freed_of_allocated?_eq_none hallocated]
    · have hslot := (slots_drain table index).trans (freed_of_allocated? hallocated)
      obtain ⟨rfl, hsome⟩ := allocated?_eq_some_iff.1 hallocated
      obtain ⟨state, hstate⟩ := Option.isSome_iff_exists.1 hsome
      refine .frees ?_ (by rw [hallocated]; rfl) ?_ rfl
      · rw [generationAt_of_slot hslot, generationAt_of_state? hstate]
      · rw [allocated?, hslot]

/-! ### Histories -/

/-- The table after a list of requests. -/
def after (table : SlotTable α) : List (SlotRequest α) → SlotTable α
  | [] => table
  | request :: rest => (table.serve request).2.after rest

lemma after_append (table : SlotTable α) (front rest : List (SlotRequest α)) :
    table.after (front ++ rest) = (table.after front).after rest := by
  induction front generalizing table with
  | nil => rfl
  | cons request front ih => exact ih _

/-- The identities that a list of requests is given, in their order. -/
def issued (table : SlotTable α) : List (SlotRequest α) → List SlotId
  | [] => []
  | request :: rest =>
    (table.serve request).1.issued?.toList ++ (table.serve request).2.issued rest

/-- How often a list of requests frees the slot at an index. -/
def releases (table : SlotTable α) (index : Nat) : List (SlotRequest α) → Nat
  | [] => 0
  | request :: rest =>
    let next := (table.serve request).2
    let freed := (table.allocated? index).isSome && (next.allocated? index).isNone
    freed.toNat + next.releases index rest

lemma releases_le_length (table : SlotTable α) (index : Nat) (requests : List (SlotRequest α)) :
    table.releases index requests ≤ requests.length := by
  induction requests generalizing table with
  | nil => exact Nat.le_refl 0
  | cons request rest ih =>
    have hrest := ih (table.serve request).2
    have hfreed := Bool.toNat_le ((table.allocated? index).isSome &&
      ((table.serve request).2.allocated? index).isNone)
    simp only [releases, List.length_cons]
    omega

lemma releases_tail_le (table : SlotTable α) (request : SlotRequest α)
    (rest : List (SlotRequest α)) (index : Nat) :
    (table.serve request).2.releases index rest ≤ table.releases index (request :: rest) := by
  simp only [releases]
  omega

lemma releases_of_frees {request : SlotRequest α} (held : (table.allocated? index).isSome)
    (vacant : (table.serve request).2.allocated? index = none) (rest : List (SlotRequest α)) :
    table.releases index (request :: rest)
      = (table.serve request).2.releases index rest + 1 := by
  simp [releases, held, vacant, Nat.add_comm]

/-! ### Identities that are still to come -/

/-- No slot comes to the end of its generations while these requests are served. -/
def Lasts (table : SlotTable α) (requests : List (SlotRequest α)) : Prop :=
  ∀ index, table.generationAt index + table.releases index requests < SlotId.generationCount

/-- The identity has not been handed out: its slot has not come to its generation, or has come to it
and is not allocated yet. -/
def Unissued (table : SlotTable α) (id : SlotId) : Prop :=
  table.generationAt id.index < id.generation ∨
    table.generationAt id.index = id.generation ∧ table.allocated? id.index = none

lemma nextGeneration_of_lt {generation : Nat} (h : generation + 1 < SlotId.generationCount) :
    SlotId.nextGeneration generation = generation + 1 :=
  Nat.mod_eq_of_lt h

lemma Lasts.tail {request : SlotRequest α} {rest : List (SlotRequest α)} (hw : table.WellFormed)
    (h : table.Lasts (request :: rest)) : (table.serve request).2.Lasts rest := by
  intro index
  have hlasts := h index
  have htail := releases_tail_le table request rest index
  cases (served_serve table request).slotMoved hw index with
  | stays generation => omega
  | fills generation => omega
  | frees generation held vacant =>
    rw [releases_of_frees held vacant] at hlasts
    rw [generation, nextGeneration_of_lt (by omega)]
    omega

/-- What is still to come after a request was still to come before it, and is not what the request
is given. -/
lemma Unissued.of_serve {request : SlotRequest α} {rest : List (SlotRequest α)}
    (hw : table.WellFormed) (hlasts : table.Lasts (request :: rest))
    (h : (table.serve request).2.Unissued id) :
    table.Unissued id ∧ id ∉ (table.serve request).1.issued? := by
  have hroom := hlasts id.index
  cases (served_serve table request).slotMoved hw id.index with
  | stays generation allocated issued =>
    refine ⟨?_, fun hmem => issued id hmem rfl⟩
    have hnone : (table.serve request).2.allocated? id.index = none ↔
        table.allocated? id.index = none := by
      rw [← Option.not_isSome_iff_eq_none, ← Option.not_isSome_iff_eq_none, allocated]
    rwa [Unissued, generation, hnone] at h
  | fills generation vacant filled issued =>
    rcases h with hlt | ⟨-, hnone⟩
    · -- the identity handed out has the slot's own generation, and this one a later generation
      rw [generation] at hlt
      refine ⟨.inl hlt, fun hmem => ?_⟩
      rw [issued] at hmem
      have hgeneration := congrArg SlotId.generation (Option.some.inj hmem)
      simp only at hgeneration
      omega
    · simp [hnone] at filled
  | frees generation held vacant issued =>
    -- the release is one of those that are still counted, so the generation does not start again
    rw [releases_of_frees held vacant] at hroom
    rw [Unissued, generation, nextGeneration_of_lt (by omega)] at h
    refine ⟨.inl ?_, by simp [issued]⟩
    rcases h with hlt | ⟨heq, -⟩ <;> omega

/-- What a request is given was still to come. -/
lemma unissued_of_issued {request : SlotRequest α} (hw : table.WellFormed)
    (h : id ∈ (table.serve request).1.issued?) : table.Unissued id := by
  cases (served_serve table request).slotMoved hw id.index with
  | stays _ _ issued => exact absurd rfl (issued id h)
  | fills _ vacant _ issued =>
    rw [issued] at h
    have hgeneration := congrArg SlotId.generation (Option.some.inj h)
    exact .inr ⟨hgeneration, vacant⟩
  | frees _ _ _ issued => simp [issued] at h

/-- No identity is handed out twice, and none that had been handed out before. -/
theorem nodup_issued {requests : List (SlotRequest α)} (hw : table.WellFormed)
    (hlasts : table.Lasts requests) :
    (table.issued requests).Nodup ∧ ∀ id ∈ table.issued requests, table.Unissued id := by
  induction requests generalizing table with
  | nil => exact ⟨List.nodup_nil, by simp [issued]⟩
  | cons request rest ih =>
    obtain ⟨hnodup, hlater⟩ := ih ((served_serve table request).wellFormed hw) (hlasts.tail hw)
    -- what is handed out later is still to come after this request, so it is not given by it
    have hback : ∀ id ∈ (table.serve request).2.issued rest,
        table.Unissued id ∧ id ∉ (table.serve request).1.issued? :=
      fun id hmem => (hlater id hmem).of_serve hw hlasts
    refine ⟨List.nodup_append.2 ⟨?_, hnodup, ?_⟩, fun id hmem => ?_⟩
    · cases (table.serve request).1.issued? <;> simp
    · rintro id hid _ hmem rfl
      exact (hback id hmem).2 (Option.mem_toList.1 hid)
    · rcases List.mem_append.1 hmem with hid | hid
      · exact unissued_of_issued hw (Option.mem_toList.1 hid)
      · exact (hback id hid).1

/-! ### Tables that have come from the empty one -/

lemma WellFormed.after (hw : table.WellFormed) (requests : List (SlotRequest α)) :
    (table.after requests).WellFormed := by
  induction requests generalizing table with
  | nil => exact hw
  | cons request rest ih => exact ih ((served_serve table request).wellFormed hw)

lemma Within.after {limit : Nat} (hb : table.Within limit) (requests : List (SlotRequest α)) :
    (table.after requests).Within limit := by
  induction requests generalizing table with
  | nil => exact hb
  | cons request rest ih => exact ih ((served_serve table request).within hb)

lemma within_withCapacity (capacity : Nat) :
    (withCapacity capacity : SlotTable α).Within (min capacity SlotId.indexCount) :=
  ⟨rfl, Nat.zero_le _⟩

lemma lasts_withCapacity {capacity : Nat} {requests : List (SlotRequest α)}
    (h : ∀ index, (withCapacity capacity).releases index requests < SlotId.generationCount) :
    (withCapacity capacity).Lasts requests := by
  intro index
  have hgeneration : (withCapacity capacity : SlotTable α).generationAt index = 0 := by
    simp [generationAt, withCapacity]
  rw [hgeneration, Nat.zero_add]
  exact h index

/-- A table that starts empty is a map that holds at most `min capacity SlotId.indexCount`
identities: after any requests it answers the next one as the map does, and a request that the map
refuses leaves all of it as it is.  Its size is the number of the identities it holds, of which no
two have one index, its free list has each vacant slot once, and while each slot has been freed
fewer than `SlotId.generationCount` times, all identities handed out are different. -/
theorem refines_map (capacity : Nat) (requests : List (SlotRequest α)) :
    let limit := min capacity SlotId.indexCount
    let empty : SlotTable α := withCapacity capacity
    let table := empty.after requests
    (∀ id, empty.state? id = none) ∧
      (∀ request, Serves limit table.state? request (table.serve request).1
        (table.serve request).2.state?) ∧
      (∀ request, Refuses limit table.state? request → (table.serve request).2 = table) ∧
      (∃ ids, ListedBy table.state? ids ∧ table.size = ids.length) ∧
      table.free.Nodup ∧
      (∀ index, index ∈ table.free ↔
        ∃ generation, table.slots[index]? = some ⟨generation, .vacant⟩) ∧
      ((∀ index, empty.releases index requests < SlotId.generationCount) →
        (empty.issued requests).Nodup) := by
  intro limit empty table
  have hw : table.WellFormed := (wellFormed_withCapacity capacity).after requests
  have hb : table.Within limit := (within_withCapacity capacity).after requests
  refine ⟨state?_withCapacity capacity, serves hw hb, fun request hrefuses => ?_,
    ⟨_, listedBy_identities table, (length_identities hw).symm⟩, hw.nodup_free, hw.mem_free_iff,
    fun hreleases => ?_⟩
  · rw [serve_of_refuses hw hb hrefuses]
  · exact (nodup_issued (wellFormed_withCapacity capacity) (lasts_withCapacity hreleases)).1

/-- The one slot of a table is used three times: it is freed while its value is lent out, and then
with all others; in between a stale identity and a second value are refused. -/
def recycling : List (SlotRequest Nat) :=
  [.insert SlotId.generation, .take ⟨0, 0⟩, .release ⟨0, 0⟩, .insert SlotId.generation,
    .park ⟨0, 0⟩ 9, .insert SlotId.generation, .drain, .insert SlotId.generation]

theorem refines_map_recycling :
    let empty : SlotTable Nat := withCapacity 1
    let table := empty.after recycling
    (∀ index, empty.releases index recycling < SlotId.generationCount) ∧
      empty.issued recycling = [⟨0, 0⟩, ⟨0, 1⟩, ⟨0, 2⟩] ∧ (empty.issued recycling).Nodup ∧
      Refuses 1 table.state? (.take ⟨0, 1⟩) ∧ (table.serve (.take ⟨0, 1⟩)).2 = table := by
  intro empty table
  obtain ⟨-, -, hrefused, -, -, -, hnodup⟩ := refines_map 1 recycling
  have hreleases : ∀ index, empty.releases index recycling < SlotId.generationCount :=
    fun index => (releases_le_length empty index recycling).trans_lt (by decide)
  have hstale : table.state? ⟨0, 1⟩ = none := by decide
  have hrefuses : Refuses 1 table.state? (.take ⟨0, 1⟩) := fun value => by
    rw [hstale]
    simp
  exact ⟨hreleases, by decide, hnodup hreleases, hrefuses, hrefused _ hrefuses⟩

end SiteServer.SlotTable
