import SiteServer.Slot.Id

/-!
# The slot table

A table of at most `capacity` slots, each of which is vacant, holds a parked value, or has lent its
value out.  Releasing a slot moves it on to the next generation, so that every identity handed out
for it before is refused from then on.  Vacant slots are used again last released first.
-/

namespace SiteServer

/-- What a slot holds. -/
inductive SlotState (α : Type) where
  | vacant
  | parked (value : α)
  /-- The value has been taken out, and the slot waits for it. -/
  | lent
  deriving DecidableEq, Repr

/-- A slot of the table. -/
structure Slot (α : Type) where
  generation : Nat
  state : SlotState α
  deriving DecidableEq, Repr

/-- The slots in use so far and the vacant ones among them, the last released first. -/
structure SlotTable (α : Type) where
  slots : List (Slot α)
  free : List Nat
  capacity : Nat
  deriving DecidableEq, Repr

namespace SlotTable

variable {α : Type}

/-- The table without slots that can grow to `capacity` of them. -/
def withCapacity (capacity : Nat) : SlotTable α :=
  ⟨[], [], min capacity SlotId.indexCount⟩

/-- The number of allocated slots. -/
def size (table : SlotTable α) : Nat :=
  table.slots.length - table.free.length

/-- The table with another state in the slot at an index. -/
def setState (table : SlotTable α) (index : Nat) (state : SlotState α) : SlotTable α :=
  { table with slots := table.slots.modify index fun slot => { slot with state } }

/-- The state that an identity stands for, when its slot is allocated in that generation. -/
def state? (table : SlotTable α) (id : SlotId) : Option (SlotState α) :=
  match table.slots[id.index]? with
  | some ⟨generation, .parked value⟩ =>
    if generation = id.generation then some (.parked value) else none
  | some ⟨generation, .lent⟩ => if generation = id.generation then some .lent else none
  | _ => none

/-- The table with one more slot, which holds the value made for its identity; a table that is full
takes none. -/
def insert (table : SlotTable α) (make : SlotId → α) : Option (SlotId × SlotTable α) :=
  match table.free with
  | index :: free =>
    let generation := (table.slots[index]?.map Slot.generation).getD 0
    let id : SlotId := ⟨index, generation⟩
    some (id, { table with free }.setState index (.parked (make id)))
  | [] =>
    if table.slots.length < table.capacity then
      let id : SlotId := ⟨table.slots.length, 0⟩
      some (id, { table with slots := table.slots ++ [⟨0, .parked (make id)⟩] })
    else
      none

/-- The parked value of a slot, which the table lends out. -/
def take (table : SlotTable α) (id : SlotId) : Option (α × SlotTable α) :=
  match table.state? id with
  | some (.parked value) => some (value, table.setState id.index .lent)
  | _ => none

/-- The table with a lent value back in its slot; it is refused when the slot does not wait for
it. -/
def park (table : SlotTable α) (id : SlotId) (value : α) : Option (SlotTable α) :=
  match table.state? id with
  | some .lent => some (table.setState id.index (.parked value))
  | _ => none

/-- The table with a slot freed, and the value that was parked in it. -/
def release (table : SlotTable α) (id : SlotId) : Option α × SlotTable α :=
  match table.state? id with
  | none => (none, table)
  | some state =>
    let freed : SlotTable α :=
      { table with
        slots := table.slots.set id.index ⟨SlotId.nextGeneration id.generation, .vacant⟩
        free := id.index :: table.free }
    match state with
    | .parked value => (some value, freed)
    | _ => (none, freed)

/-- The identity that the slot at an index is allocated under. -/
def allocated? (table : SlotTable α) (index : Nat) : Option SlotId :=
  match table.slots[index]? with
  | none | some ⟨_, .vacant⟩ => none
  | some ⟨generation, _⟩ => some ⟨index, generation⟩

/-- The parked values from some indices on and the table with these slots freed. -/
def drainAt (table : SlotTable α) : List Nat → List α × SlotTable α
  | [] => ([], table)
  | index :: rest =>
    match table.allocated? index with
    | none => table.drainAt rest
    | some id =>
      let (value, freed) := table.release id
      let (values, last) := freed.drainAt rest
      (value.toList ++ values, last)

/-- All parked values in the order of their indices, and the table with every slot freed. -/
def drain (table : SlotTable α) : List α × SlotTable α :=
  table.drainAt (List.range table.slots.length)

@[simp] theorem size_withCapacity (capacity : Nat) :
    (withCapacity capacity : SlotTable α).size = 0 := rfl

/-- An identity that stands for nothing changes nothing. -/
theorem release_of_state?_eq_none {table : SlotTable α} {id : SlotId}
    (h : table.state? id = none) : table.release id = (none, table) := by
  simp [release, h]

end SlotTable

end SiteServer
