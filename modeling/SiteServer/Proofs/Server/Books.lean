import SiteServer.Proofs.Slot.States
import SiteServer.Server.EventLoop

/-!
# The books of the event loop

The loop keeps two books on its connections: the slot table, and the sockets that are registered for
poll events.  A connection that is not parked is on its way, in a job or in a report, and its slot
is lent for exactly that time.  `Books` says how the three go together, and there is one lemma for
each thing the loop does with them.
-/

namespace SiteServer

/-- The identity of the connection that a job moves on. -/
def Work.id? : Work → Option SlotId
  | .accept _ => none
  | .step connection => some connection.id

/-- The identity of the connection that a report is about, when it has a slot. -/
def Completion.id? : Completion → Option SlotId
  | .stepped connection _ => some connection.id
  | .closed id => some id
  | .accepted _ | .acceptAgain _ => none

/-- How the slot table, the registered sockets and the identities of the connections that are on
their way go together. -/
structure Books (slots : SlotTable Connection) (watched : List (SlotId × Interest))
    (travelling : List SlotId) : Prop where
  wellFormed : slots.WellFormed
  /-- A slot is lent while its connection is on its way, and it is on one way only. -/
  count_eq : ∀ id, travelling.count id = if slots.state? id = some .lent then 1 else 0
  id_eq : ∀ id c, slots.state? id = some (.parked c) → c.id = id
  nodup_watched : (watched.map Prod.fst).Nodup
  mem_watched_iff : ∀ id, id ∈ watched.map Prod.fst ↔ ∃ c, slots.state? id = some (.parked c)

namespace Books

variable {slots next : SlotTable Connection} {watched : List (SlotId × Interest)}
  {travelling : List SlotId} {id : SlotId} {c : Connection}

lemma perm (h : Books slots watched travelling) {travelling' : List SlotId}
    (hperm : travelling'.Perm travelling) : Books slots watched travelling' :=
  ⟨h.wellFormed, fun id => (hperm.count_eq id).trans (h.count_eq id), h.id_eq, h.nodup_watched,
    h.mem_watched_iff⟩

lemma empty (capacity : Nat) : Books (.withCapacity capacity) [] [] where
  wellFormed := SlotTable.wellFormed_withCapacity capacity
  count_eq := by simp [SlotTable.state?_withCapacity]
  id_eq := by simp [SlotTable.state?_withCapacity]
  nodup_watched := by simp
  mem_watched_iff := by simp [SlotTable.state?_withCapacity]

/-- The slot of a connection on its way is lent. -/
lemma state?_eq_lent (h : Books slots watched travelling) (hmem : id ∈ travelling) :
    slots.state? id = some .lent := by
  have hpos := List.count_pos_iff.2 hmem
  rw [h.count_eq] at hpos
  by_contra hne
  simp [hne] at hpos

/-- What one identity stands for has changed, and the books agree on it. -/
lemma of_update (h : Books slots watched travelling) (hw : next.WellFormed)
    {state : Option (SlotState Connection)} {watched' : List (SlotId × Interest)}
    {travelling' : List SlotId} (hstate : next.state? = Function.update slots.state? id state)
    (hcount : travelling'.count id = if state = some .lent then 1 else 0)
    (hcount_ne : ∀ id', id' ≠ id → travelling'.count id' = travelling.count id')
    (hid : ∀ c, state = some (.parked c) → c.id = id) (hnodup : (watched'.map Prod.fst).Nodup)
    (hmem : id ∈ watched'.map Prod.fst ↔ ∃ c, state = some (.parked c))
    (hmem_ne : ∀ id', id' ≠ id → (id' ∈ watched'.map Prod.fst ↔ id' ∈ watched.map Prod.fst)) :
    Books next watched' travelling' := by
  refine ⟨hw, fun id' => ?_, fun id' c' hparked => ?_, hnodup, fun id' => ?_⟩
  · by_cases heq : id' = id
    · rw [heq, hstate, Function.update_self, hcount]
    · rw [hstate, Function.update_of_ne heq, hcount_ne id' heq, h.count_eq]
  · by_cases heq : id' = id
    · rw [heq, hstate, Function.update_self] at hparked
      rw [heq, hid c' hparked]
    · rw [hstate, Function.update_of_ne heq] at hparked
      exact h.id_eq id' c' hparked
  · by_cases heq : id' = id
    · rw [heq, hstate, Function.update_self, hmem]
    · rw [hstate, Function.update_of_ne heq, hmem_ne id' heq, h.mem_watched_iff]

lemma count_cons_of_ne {id' : SlotId} (h : id' ≠ id) :
    (id :: travelling).count id' = travelling.count id' :=
  List.count_cons_of_ne (Ne.symm h)

/-- A connection on its way has no other way. -/
lemma count_eq_zero (h : Books slots watched (id :: travelling)) : travelling.count id = 0 := by
  have hone := h.count_eq id
  rw [h.state?_eq_lent List.mem_cons_self, if_pos rfl, List.count_cons_self] at hone
  omega

lemma not_mem_watched (h : Books slots watched travelling)
    (hstate : ∀ c, slots.state? id ≠ some (.parked c)) : id ∉ watched.map Prod.fst := by
  rw [h.mem_watched_iff]
  rintro ⟨c, hc⟩
  exact hstate c hc

/-- A parked connection is sent on its way, and its socket is not watched any more. -/
lemma lend (h : Books slots watched travelling) (hparked : slots.state? id = some (.parked c)) :
    Books (slots.setState id.index .lent) (watched.filter (·.1 ≠ id)) (id :: travelling) := by
  have hfresh : travelling.count id = 0 := by simp [h.count_eq, hparked]
  refine h.of_update (h.wellFormed.setState hparked (by simp))
    (SlotTable.state?_setState hparked (by simp)) ?_ (fun id' => count_cons_of_ne) (by simp)
    ?_ ?_ ?_
  · rw [List.count_cons_self, hfresh, if_pos rfl]
  · exact h.nodup_watched.sublist (List.filter_sublist.map Prod.fst)
  · simp
  · intro id' hne
    simp [hne]

/-- A connection comes back and is parked, and its socket is watched. -/
lemma park (h : Books slots watched (id :: travelling)) (hid : c.id = id) (interest : Interest) :
    Books (slots.setState id.index (.parked c)) (watched ++ [(id, interest)]) travelling := by
  have hlent := h.state?_eq_lent List.mem_cons_self
  have hnot : id ∉ watched.map Prod.fst := h.not_mem_watched (by simp [hlent])
  refine h.of_update (h.wellFormed.setState hlent (by simp))
    (SlotTable.state?_setState hlent (by simp)) (by simp [h.count_eq_zero])
    (fun id' hne => (count_cons_of_ne hne).symm) ?_ ?_ (by simp) ?_
  · rintro c' ⟨⟩
    exact hid
  · rw [List.map_append, List.nodup_append_comm]
    exact List.nodup_cons.2 ⟨hnot, h.nodup_watched⟩
  · intro id' hne
    simp [hne]

/-- A connection comes back and its slot is freed. -/
lemma free (h : Books slots watched (id :: travelling)) :
    Books (slots.release id).2 watched travelling := by
  have hlent := h.state?_eq_lent List.mem_cons_self
  have hnot : id ∉ watched.map Prod.fst := h.not_mem_watched (by simp [hlent])
  exact h.of_update (h.wellFormed.release hlent) (SlotTable.state?_release hlent)
    (by simp [h.count_eq_zero]) (fun id' hne => (count_cons_of_ne hne).symm) (by simp)
    h.nodup_watched (by simp [hnot]) fun id' _ => Iff.rfl

/-- A new connection gets a slot, which is lent at once. -/
lemma enroll (h : Books slots watched travelling) {make : SlotId → Connection}
    (hinsert : slots.insert make = some (id, next)) :
    Books (next.setState id.index .lent) watched (id :: travelling) := by
  obtain ⟨hnone, hnext, hw⟩ := SlotTable.insert_spec h.wellFormed hinsert
  have hparked : next.state? id = some (.parked (make id)) := by rw [hnext, Function.update_self]
  have hlent : (next.setState id.index .lent).state?
      = Function.update slots.state? id (some .lent) := by
    rw [SlotTable.state?_setState hparked (by simp), hnext, Function.update_idem]
  have hfresh : travelling.count id = 0 := by simp [h.count_eq, hnone]
  have hnot : id ∉ watched.map Prod.fst := h.not_mem_watched (by simp [hnone])
  refine h.of_update (hw.setState hparked (by simp)) hlent ?_ (fun id' => count_cons_of_ne)
    (by simp) h.nodup_watched (by simp [hnot]) fun id' _ => Iff.rfl
  rw [List.count_cons_self, hfresh, if_pos rfl]

end Books

end SiteServer
