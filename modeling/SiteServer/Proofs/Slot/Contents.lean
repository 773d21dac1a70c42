import SiteServer.Proofs.Slot.Census

/-!
# What is in a slot table

The identities that are allocated make up a list, and so do the values that are parked.  An
operation is seen by one identity only, so it changes both lists in one place: what this identity
stood for is taken out, and what it stands for afterwards is put in (`identities_update`,
`contents_update`).  A table that has lent nothing has as many values as slots allocated
(`length_contents`).
-/

open scoped List

namespace SiteServer.SlotTable

variable {α : Type} {table next : SlotTable α} {id : SlotId} {state : SlotState α} {value : α}
  {new : Option (SlotState α)}

lemma nodup_identities (table : SlotTable α) : table.identities.Nodup :=
  (identities_pairwise table).imp fun hlt heq => by simp [heq] at hlt

/-- The parked values in the order of their indices. -/
def contents (table : SlotTable α) : List α :=
  table.identities.filterMap fun id => (table.state? id).bind SlotState.value?

/-- Apart from one identity, the lists are those of the other ones. -/
lemma identities_perm (table : SlotTable α) (id : SlotId) :
    table.identities.Perm
      (((table.state? id).map fun _ => id).toList ++ table.identities.filter (· ≠ id)) := by
  refine (List.perm_ext_iff_of_nodup (nodup_identities table) ?_).2 fun id' => ?_
  · refine List.nodup_append.2 ⟨?_, (nodup_identities table).filter _, ?_⟩
    · cases table.state? id <;> simp
    · rintro id' hid _ hmem rfl
      have hne : id' ≠ id := by simpa using (List.mem_filter.1 hmem).2
      cases hstate : table.state? id <;> simp_all
  · by_cases hid : id' = id
    · subst hid
      cases hstate : table.state? id' <;> simp [mem_identities, hstate]
    · have hhead : id' ∉ ((table.state? id).map fun _ => id).toList := by
        cases table.state? id <;> simp [hid]
      simp [hid, hhead]

lemma filter_identities (h : next.state? = Function.update table.state? id new) :
    (next.identities.filter (· ≠ id)).Perm (table.identities.filter (· ≠ id)) := by
  refine (List.perm_ext_iff_of_nodup ((nodup_identities next).filter _)
    ((nodup_identities table).filter _)).2 fun id' => ?_
  by_cases hid : id' = id
  · simp [hid]
  · simp [mem_identities, h, hid]

/-- An operation takes out the identity that it is about, and puts it in again if it stands for
something afterwards. -/
theorem identities_update (h : next.state? = Function.update table.state? id new) :
    ((new.map fun _ => id).toList ++ table.identities).Perm
      (((table.state? id).map fun _ => id).toList ++ next.identities) := by
  have hnext := identities_perm next id
  have hnew : next.state? id = new := by rw [h, Function.update_self]
  rw [hnew] at hnext
  calc (new.map fun _ => id).toList ++ table.identities
      _ ~ ((new.map fun _ => id).toList ++ (((table.state? id).map fun _ => id).toList
          ++ table.identities.filter (· ≠ id))) := (identities_perm table id).append_left _
      _ ~ (((table.state? id).map fun _ => id).toList
          ++ ((new.map fun _ => id).toList ++ table.identities.filter (· ≠ id))) :=
        List.perm_append_comm_assoc _ _ _
      _ ~ (((table.state? id).map fun _ => id).toList ++ next.identities) :=
        (((filter_identities h).symm.append_left _).trans hnext.symm).append_left _

lemma contents_perm (table : SlotTable α) (id : SlotId) :
    table.contents.Perm
      (((table.state? id).bind SlotState.value?).toList
        ++ (table.identities.filter (· ≠ id)).filterMap fun id' =>
          (table.state? id').bind SlotState.value?) := by
  refine ((identities_perm table id).filterMap _).trans (.of_eq ?_)
  rw [List.filterMap_append]
  cases hstate : table.state? id with
  | none => rfl
  | some state => cases hvalue : state.value? <;> simp [hstate, hvalue]

/-- An operation takes out the value that its identity stood for, and puts in the one that it stands
for afterwards. -/
theorem contents_update (h : next.state? = Function.update table.state? id new) :
    ((new.bind SlotState.value?).toList ++ table.contents).Perm
      (((table.state? id).bind SlotState.value?).toList ++ next.contents) := by
  have hnext := contents_perm next id
  have hnew : next.state? id = new := by rw [h, Function.update_self]
  rw [hnew] at hnext
  have hothers : ((next.identities.filter (· ≠ id)).filterMap fun id' =>
      (next.state? id').bind SlotState.value?).Perm
        ((table.identities.filter (· ≠ id)).filterMap fun id' =>
          (table.state? id').bind SlotState.value?) := by
    refine ((filter_identities h).filterMap _).trans (.of_eq (List.filterMap_congr ?_))
    intro id' hmem
    have hne : id' ≠ id := by simpa using (List.mem_filter.1 hmem).2
    rw [h, Function.update_of_ne hne]
  calc (new.bind SlotState.value?).toList ++ table.contents
      _ ~ ((new.bind SlotState.value?).toList ++ (((table.state? id).bind SlotState.value?).toList
          ++ _)) := (contents_perm table id).append_left _
      _ ~ (((table.state? id).bind SlotState.value?).toList
          ++ ((new.bind SlotState.value?).toList ++ _)) := List.perm_append_comm_assoc _ _ _
      _ ~ (((table.state? id).bind SlotState.value?).toList ++ next.contents) :=
        ((hothers.symm.append_left _).trans hnext.symm).append_left _

/-! ### The size -/

/-- A table that has lent nothing has a value for each allocated slot. -/
theorem length_contents (h : table.WellFormed) (hlent : ∀ id, table.state? id ≠ some .lent) :
    table.contents.length = table.size := by
  rw [← length_identities h, contents, List.length_filterMap_eq_countP, List.countP_eq_length]
  intro id hmem
  obtain ⟨state, hstate⟩ := Option.isSome_iff_exists.1 (mem_identities.1 hmem)
  have hne := ne_vacant_of_state? hstate
  have hnot := hlent id
  rw [hstate] at hnot ⊢
  cases state <;> simp_all [SlotState.value?]

/-- To exchange what is in a slot allocates none and frees none. -/
lemma size_setState (table : SlotTable α) (index : Nat) (state : SlotState α) :
    (table.setState index state).size = table.size := by
  simp [size, setState]

/-! ### Emptying the table -/

lemma identities_drain (table : SlotTable α) : table.drain.2.identities = [] := by
  refine List.eq_nil_iff_forall_not_mem.2 fun id hmem => ?_
  have hsome := mem_identities.1 hmem
  simp [state?_drain] at hsome

lemma contents_drain (table : SlotTable α) : table.drain.2.contents = [] := by
  rw [contents, identities_drain]
  rfl

lemma size_drain (h : table.WellFormed) : table.drain.2.size = 0 := by
  rw [← length_identities h.drain, identities_drain]
  rfl

end SiteServer.SlotTable
