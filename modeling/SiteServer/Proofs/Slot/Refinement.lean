import SiteServer.Proofs.Slot.Census

/-!
# The slot table as a bounded map

Whatever a slot table is asked, it answers as a partial map from identities would that holds at most
`limit` of them: `Serves` has one rule for each request that is granted, which says what the map
holds afterwards, and one rule for the requests that are refused, after which nothing has changed.
A table whose free list is in order follows these rules (`serves`), and stays in order.
-/

namespace SiteServer

/-- What can be asked of a slot table. -/
inductive SlotRequest (α : Type) where
  /-- A slot for the value made for its identity. -/
  | insert (make : SlotId → α)
  | take (id : SlotId)
  | park (id : SlotId) (value : α)
  | release (id : SlotId)
  | drain

/-- What a slot table answers. -/
inductive SlotReply (α : Type) where
  | inserted (id : Option SlotId)
  | taken (value : Option α)
  /-- The value is in its slot again, or it is handed back. -/
  | parked (refused : Option α)
  | released (value : Option α)
  | drained (values : List α)
  deriving DecidableEq, Repr

variable {α : Type}

/-- The answer to a request that is refused. -/
def SlotRequest.refusal : SlotRequest α → SlotReply α
  | .insert _ => .inserted none
  | .take _ => .taken none
  | .park _ value => .parked (some value)
  | .release _ => .released none
  | .drain => .drained []

/-- The identity that an answer hands out. -/
def SlotReply.issued? : SlotReply α → Option SlotId
  | .inserted id => id
  | _ => none

namespace SlotTable

/-- The answer to a request and the table afterwards. -/
def serve (table : SlotTable α) : SlotRequest α → SlotReply α × SlotTable α
  | .insert make =>
    match table.insert make with
    | some (id, next) => (.inserted (some id), next)
    | none => (.inserted none, table)
  | .take id =>
    match table.take id with
    | some (value, next) => (.taken (some value), next)
    | none => (.taken none, table)
  | .park id value =>
    match table.park id value with
    | some next => (.parked none, next)
    | none => (.parked (some value), table)
  | .release id => (.released (table.release id).1, (table.release id).2)
  | .drain => (.drained table.drain.1, table.drain.2)

end SlotTable

/-! ### The map -/

/-- What identities stand for: an allocated one for what is in its slot. -/
abbrev Holdings (α : Type) := SlotId → Option (SlotState α)

/-- These are the allocated identities, in the order of their indices; no two have one index. -/
structure ListedBy (holdings : Holdings α) (ids : List SlotId) : Prop where
  pairwise : ids.Pairwise fun a b => a.index < b.index
  mem_iff : ∀ id, id ∈ ids ↔ (holdings id).isSome

/-- A map that holds at most `limit` identities refuses the request. -/
def Refuses (limit : Nat) (holdings : Holdings α) : SlotRequest α → Prop
  | .insert _ => ∃ ids, ListedBy holdings ids ∧ limit ≤ ids.length
  | .take id => ∀ value, holdings id ≠ some (.parked value)
  | .park id _ => holdings id ≠ some .lent
  | .release id => holdings id = none
  | .drain => False

/-- What a map that holds at most `limit` identities answers to a request, and what it holds
afterwards. -/
inductive Serves (limit : Nat) (holdings : Holdings α) :
    SlotRequest α → SlotReply α → Holdings α → Prop where
  | insert {make : SlotId → α} {id : SlotId} {ids : List SlotId} (listed : ListedBy holdings ids)
      (room : ids.length < limit) (fresh : ∀ id', id'.index = id.index → holdings id' = none) :
      Serves limit holdings (.insert make) (.inserted (some id))
        (Function.update holdings id (some (.parked (make id))))
  | take {id : SlotId} {value : α} (parked : holdings id = some (.parked value)) :
      Serves limit holdings (.take id) (.taken (some value))
        (Function.update holdings id (some .lent))
  | park {id : SlotId} {value : α} (lent : holdings id = some .lent) :
      Serves limit holdings (.park id value) (.parked none)
        (Function.update holdings id (some (.parked value)))
  | release {id : SlotId} {state : SlotState α} (held : holdings id = some state) :
      Serves limit holdings (.release id) (.released state.value?)
        (Function.update holdings id none)
  | drain {ids : List SlotId} (listed : ListedBy holdings ids) :
      Serves limit holdings .drain
        (.drained (ids.filterMap fun id => (holdings id).bind SlotState.value?)) fun _ => none
  | refuse {request : SlotRequest α} (refused : Refuses limit holdings request) :
      Serves limit holdings request request.refusal holdings

namespace SlotTable

variable {table next : SlotTable α} {id : SlotId} {state : SlotState α} {limit index : Nat}

lemma listedBy_identities (table : SlotTable α) : ListedBy table.state? table.identities :=
  ⟨identities_pairwise table, fun _ => mem_identities⟩

/-- A map has one list of its identities. -/
lemma ListedBy.eq_identities {ids : List SlotId} (h : ListedBy table.state? ids) :
    ids = table.identities := by
  have hasymm : ∀ a b : SlotId, a.index < b.index → ¬ b.index < a.index := fun a b => by omega
  have hperm : ids.Perm table.identities := by
    refine (List.perm_ext_iff_of_nodup ?_ ?_).2 fun id => by rw [h.mem_iff, mem_identities]
    · exact h.pairwise.imp fun hlt heq => by simp [heq] at hlt
    · exact (identities_pairwise table).imp fun hlt heq => by simp [heq] at hlt
  exact List.Perm.eq_of_pairwise (fun a b _ _ hab hba => absurd hba (hasymm a b hab)) h.pairwise
    (identities_pairwise table) hperm

/-- The table has no more slots than it may have. -/
structure Within (limit : Nat) (table : SlotTable α) : Prop where
  capacity : table.capacity = limit
  length_le : table.slots.length ≤ limit

/-- A new value is refused when the table is full. -/
lemma insert_eq_none_iff (hw : table.WellFormed) (hb : table.Within limit) {make : SlotId → α} :
    table.insert make = none ↔ limit ≤ table.size := by
  unfold insert size
  have hle := hb.length_le
  split
  · next index free hfree =>
    obtain ⟨generation, hslot⟩ := (hw.mem_free_iff index).1 (by simp [hfree])
    have hlt := (List.getElem?_eq_some_iff.1 hslot).1
    simp only [reduceCtorEq, hfree, List.length_cons, false_iff]
    omega
  · next hfree =>
    rw [hb.capacity, hfree]
    split <;> simp <;> omega

/-- A new value changes no slot but its own, whose generation its identity has. -/
lemma slots_insert {make : SlotId → α} (h : table.insert make = some (id, next)) :
    id.generation = (table.slots[id.index]?.map Slot.generation).getD 0 ∧
      ∀ index, index ≠ id.index → next.slots[index]? = table.slots[index]? := by
  unfold insert at h
  split at h
  · next first free hfree =>
    simp only [Option.some.injEq, Prod.mk.injEq] at h
    obtain ⟨rfl, rfl⟩ := h
    refine ⟨rfl, fun index hne => ?_⟩
    simp [setState, Ne.symm hne]
  · split at h
    · simp only [Option.some.injEq, Prod.mk.injEq] at h
      obtain ⟨rfl, rfl⟩ := h
      refine ⟨by simp, fun index hne => ?_⟩
      simp only at hne
      rcases Nat.lt_or_gt_of_ne hne with hlt | hgt
      · exact List.getElem?_append_left hlt
      · rw [List.getElem?_eq_none (by simp; omega), List.getElem?_eq_none (by omega)]
    · simp at h

/-- The slot that a new value gets has not been allocated. -/
lemma allocated?_of_insert (hw : table.WellFormed) {make : SlotId → α}
    (h : table.insert make = some (id, next)) : table.allocated? id.index = none := by
  by_contra hne
  obtain ⟨id', hid'⟩ := Option.ne_none_iff_exists'.1 hne
  obtain ⟨hindex, hsome⟩ := allocated?_eq_some_iff.1 hid'
  obtain ⟨state, hstate⟩ := Option.isSome_iff_exists.1 hsome
  have hgeneration := (slots_insert h).1
  rw [← hindex, slot_of_state? hstate] at hgeneration
  have heq : id' = id := by
    cases id'
    cases id
    simp_all
  rw [heq, (insert_spec hw h).1] at hsome
  simp at hsome

lemma Within.insert (hb : table.Within limit) {make : SlotId → α}
    (h : table.insert make = some (id, next)) : next.Within limit := by
  obtain ⟨hcapacity, hle⟩ := hb
  unfold SlotTable.insert at h
  split at h
  · simp only [Option.some.injEq, Prod.mk.injEq] at h
    obtain ⟨-, rfl⟩ := h
    exact ⟨hcapacity, by simpa [setState] using hle⟩
  · split at h
    · next hlt =>
      simp only [Option.some.injEq, Prod.mk.injEq] at h
      obtain ⟨-, rfl⟩ := h
      exact ⟨hcapacity, by simp only [List.length_append, List.length_singleton]; omega⟩
    · simp at h

lemma Within.setState (hb : table.Within limit) (index : Nat) (state : SlotState α) :
    (table.setState index state).Within limit :=
  ⟨hb.capacity, by simpa [SlotTable.setState] using hb.length_le⟩

lemma Within.release (hb : table.Within limit) (id : SlotId) :
    (table.release id).2.Within limit := by
  cases hstate : table.state? id with
  | none => rwa [release_of_state?_eq_none hstate]
  | some state =>
    rw [release_eq hstate]
    exact ⟨hb.capacity, by simpa using hb.length_le⟩

lemma Within.drainAt {indices : List Nat} (hb : table.Within limit) :
    (table.drainAt indices).2.Within limit := by
  induction indices generalizing table with
  | nil => exact hb
  | cons first rest ih =>
    rw [SlotTable.drainAt]
    split
    · exact ih hb
    · exact ih (hb.release _)

/-! ### One request -/

lemma take_eq_none (h : ∀ value, table.state? id ≠ some (.parked value)) :
    table.take id = none := by
  by_contra hne
  obtain ⟨⟨value, next⟩, htake⟩ := Option.ne_none_iff_exists'.1 hne
  exact h value (take_eq_some_iff.1 htake).1

lemma park_eq_none {value : α} (h : table.state? id ≠ some .lent) : table.park id value = none := by
  by_contra hne
  obtain ⟨next, hpark⟩ := Option.ne_none_iff_exists'.1 hne
  exact h (park_eq_some_iff.1 hpark).1

/-- A request that is refused leaves the whole table as it is. -/
theorem serve_of_refuses (hw : table.WellFormed) (hb : table.Within limit)
    {request : SlotRequest α} (h : Refuses limit table.state? request) :
    table.serve request = (request.refusal, table) := by
  cases request with
  | insert make =>
    obtain ⟨ids, hlisted, hle⟩ := h
    rw [ListedBy.eq_identities hlisted, length_identities hw] at hle
    rw [serve, (insert_eq_none_iff hw hb).2 hle]
    rfl
  | take id =>
    rw [serve, take_eq_none h]
    rfl
  | park id value =>
    rw [serve, park_eq_none h]
    rfl
  | release id =>
    rw [serve, release_of_state?_eq_none h]
    rfl
  | drain => exact h.elim

/-- The table answers as the map does, and holds what the map holds. -/
theorem serves (hw : table.WellFormed) (hb : table.Within limit) (request : SlotRequest α) :
    Serves limit table.state? request (table.serve request).1 (table.serve request).2.state? := by
  by_cases hrefuses : Refuses limit table.state? request
  · rw [serve_of_refuses hw hb hrefuses]
    exact .refuse hrefuses
  · cases request with
    | insert make =>
      have hroom : ¬ limit ≤ table.size := by
        rw [← length_identities hw]
        exact fun hle => hrefuses ⟨_, listedBy_identities table, hle⟩
      have hsome : table.insert make ≠ none := mt (insert_eq_none_iff hw hb).1 hroom
      obtain ⟨⟨id, next⟩, hinsert⟩ := Option.ne_none_iff_exists'.1 hsome
      have hserve : table.serve (.insert make) = (.inserted (some id), next) := by
        rw [serve, hinsert]
      rw [hserve, (insert_spec hw hinsert).2.1]
      refine .insert (listedBy_identities table) ?_ fun id' hindex => ?_
      · rw [length_identities hw]
        omega
      · -- an identity that stood for something would have its slot allocated before
        by_contra hne
        have hallocated := allocated?_eq_some_iff.2 ⟨hindex, Option.isSome_iff_ne_none.2 hne⟩
        rw [allocated?_of_insert hw hinsert] at hallocated
        simp at hallocated
    | take id =>
      simp only [Refuses, not_forall, not_not] at hrefuses
      obtain ⟨value, hparked⟩ := hrefuses
      have hserve : table.serve (.take id)
          = (.taken (some value), table.setState id.index .lent) := by
        rw [serve, take_eq_some_iff.2 ⟨hparked, rfl⟩]
      rw [hserve, state?_setState hparked (by simp)]
      exact .take hparked
    | park id value =>
      have hlent : table.state? id = some .lent := not_not.1 hrefuses
      have hserve : table.serve (.park id value)
          = (.parked none, table.setState id.index (.parked value)) := by
        rw [serve, park_eq_some_iff.2 ⟨hlent, rfl⟩]
      rw [hserve, state?_setState hlent (by simp)]
      exact .park hlent
    | release id =>
      obtain ⟨state, hstate⟩ := Option.ne_none_iff_exists'.1 hrefuses
      rw [serve, fst_release hstate, state?_release hstate]
      exact .release hstate
    | drain =>
      have hempty : table.drain.2.state? = fun _ => none := funext (state?_drain table)
      rw [serve, hempty, fst_drain]
      exact .drain (listedBy_identities table)

/-! ### What a request does to the table -/

/-- All that a request can do to a table. -/
inductive Served (table : SlotTable α) : SlotReply α → SlotTable α → Prop where
  | unchanged {reply : SlotReply α} (issued : reply.issued? = none) : Served table reply table
  | inserted {make : SlotId → α} {id : SlotId} {next : SlotTable α}
      (made : table.insert make = some (id, next)) : Served table (.inserted (some id)) next
  /-- What is in an allocated slot is exchanged. -/
  | exchanged {reply : SlotReply α} {id : SlotId} {state new : SlotState α}
      (held : table.state? id = some state) (stays : new ≠ .vacant)
      (issued : reply.issued? = none) : Served table reply (table.setState id.index new)
  | released {reply : SlotReply α} {id : SlotId} {state : SlotState α}
      (held : table.state? id = some state) (issued : reply.issued? = none) :
      Served table reply (table.release id).2
  | drained : Served table (.drained table.drain.1) table.drain.2

lemma served_serve (table : SlotTable α) (request : SlotRequest α) :
    Served table (table.serve request).1 (table.serve request).2 := by
  cases request with
  | insert make =>
    rw [serve]
    split
    · next hinsert => exact .inserted hinsert
    · exact .unchanged rfl
  | take id =>
    rw [serve]
    split
    · next htake =>
      obtain ⟨hparked, rfl⟩ := take_eq_some_iff.1 htake
      exact .exchanged hparked (by simp) rfl
    · exact .unchanged rfl
  | park id value =>
    rw [serve]
    split
    · next hpark =>
      obtain ⟨hlent, rfl⟩ := park_eq_some_iff.1 hpark
      exact .exchanged hlent (by simp) rfl
    · exact .unchanged rfl
  | release id =>
    cases hstate : table.state? id with
    | none =>
      rw [serve, release_of_state?_eq_none hstate]
      exact .unchanged rfl
    | some state => exact .released hstate rfl
  | drain => exact .drained

lemma Served.wellFormed {reply : SlotReply α} (h : Served table reply next)
    (hw : table.WellFormed) : next.WellFormed := by
  cases h with
  | unchanged => exact hw
  | inserted made => exact (insert_spec hw made).2.2
  | exchanged held stays => exact hw.setState held stays
  | released held => exact hw.release held
  | drained => exact hw.drain

lemma Served.within {reply : SlotReply α} (h : Served table reply next)
    (hb : table.Within limit) : next.Within limit := by
  cases h with
  | unchanged => exact hb
  | inserted made => exact hb.insert made
  | exchanged => exact hb.setState _ _
  | released => exact hb.release _
  | drained => exact hb.drainAt

end SlotTable

end SiteServer
