import Mathlib.Data.Nat.ModEq
import SiteServer.Proofs.Slot.History

/-!
# Identities after their slot has been freed

An identity names a slot in one of its generations, and a generation counts how often the slot has
been freed, as far as `SlotId.generationCount` lets it count (`generationAt_eq_releases`).  So an
identity whose slot is freed comes to stand for nothing, whatever the slot holds from then on, and
this lasts until the slot has been freed `SlotId.generationCount` times: then the next value that
the slot gets has the same identity once more.  Up to then it has been freed under this identity
once (`releasesOf_eq`).
-/

namespace SiteServer

variable {α : Type}

/-- The identity that a request asks for; to insert a value and to drain the table names none. -/
def SlotRequest.about? : SlotRequest α → Option SlotId
  | .take id | .park id _ | .release id => some id
  | .insert _ | .drain => none

namespace SlotTable

variable {table next : SlotTable α} {id : SlotId} {state : SlotState α} {index : Nat}
  {request : SlotRequest α}

/-- Some request for an identity is granted: it is answered otherwise than a refusal is, or changes
the table. -/
def Accepts (table : SlotTable α) (id : SlotId) : Prop :=
  ∃ request : SlotRequest α, request.about? = some id ∧
    table.serve request ≠ (request.refusal, table)

/-! ### Counting the times a slot is freed -/

lemma releases_append (table : SlotTable α) (index : Nat) (front rest : List (SlotRequest α)) :
    table.releases index (front ++ rest)
      = table.releases index front + (table.after front).releases index rest := by
  induction front generalizing table with
  | nil => simp [releases, after]
  | cons request front ih =>
    simp only [List.cons_append, releases, after, ih]
    omega

/-- A slot that stays as it is or is filled is not freed. -/
lemma releases_of_not_frees (rest : List (SlotRequest α))
    (h : (table.allocated? index).isSome → ((table.serve request).2.allocated? index).isSome) :
    table.releases index (request :: rest) = (table.serve request).2.releases index rest := by
  rcases hbefore : (table.allocated? index).isSome
  · simp [releases, hbefore]
  · obtain ⟨id, hid⟩ := Option.isSome_iff_exists.1 (h hbefore)
    simp [releases, hid]

/-- To exchange what is in an allocated slot leaves every slot allocated as it was. -/
lemma allocated?_setState {new : SlotState α} (h : table.state? id = some state)
    (hnew : new ≠ .vacant) (index : Nat) :
    (table.setState id.index new).allocated? index = table.allocated? index := by
  by_cases hindex : index = id.index
  · have hstate : (table.setState id.index new).state? id = some new := by
      rw [state?_setState h hnew, Function.update_self]
    rw [hindex, allocated?_of_state? hstate, allocated?_of_state? h]
  · refine allocated?_congr ?_
    rw [slots_setState h, List.getElem?_set_ne (Ne.symm hindex)]

/-- A slot is freed when its identity is released and when the table is drained, and never else. -/
theorem freed_iff (hw : table.WellFormed) (held : (table.allocated? index).isSome) :
    (table.serve request).2.allocated? index = none ↔
      request = .drain ∨ ∃ id, request = .release id ∧ table.allocated? index = some id := by
  have hheld : table.allocated? index ≠ none := Option.isSome_iff_ne_none.1 held
  cases request with
  | insert make =>
    rcases hinsert : table.insert make with _ | ⟨id, next⟩
    · simp [serve, hinsert, hheld]
    · have hne : index ≠ id.index := by
        rintro rfl
        exact hheld (allocated?_of_insert hw hinsert)
      simp [serve, hinsert, allocated?_congr ((slots_insert hinsert).2 index hne), hheld]
  | take id =>
    rcases htake : table.take id with _ | ⟨value, next⟩
    · simp [serve, htake, hheld]
    · obtain ⟨hparked, rfl⟩ := take_eq_some_iff.1 htake
      simp [serve, htake, allocated?_setState hparked, hheld]
  | park id value =>
    rcases hpark : table.park id value with _ | next
    · simp [serve, hpark, hheld]
    · obtain ⟨hlent, rfl⟩ := park_eq_some_iff.1 hpark
      simp [serve, hpark, allocated?_setState hlent, hheld]
  | release id =>
    simp only [serve, reduceCtorEq, SlotRequest.release.injEq, exists_eq_left', false_or]
    rcases hstate : table.state? id with _ | state
    · -- the identity stands for nothing, so it is not the one that the slot is allocated under
      rw [release_of_state?_eq_none hstate]
      simp [hheld, allocated?_eq_some_iff, hstate]
    · by_cases hindex : index = id.index
      · subst hindex
        have hslot : (table.release id).2.slots[id.index]?
            = some ⟨SlotId.nextGeneration id.generation, .vacant⟩ := by
          rw [release_eq hstate,
            List.getElem?_set_self (List.getElem?_eq_some_iff.1 (slot_of_state? hstate)).1]
        simp [allocated?, hslot, ← allocated?_of_state? hstate]
      · rw [allocated?_congr (slots_release_of_ne hstate hindex)]
        simp [hheld, allocated?_eq_some_iff, Ne.symm hindex]
  | drain =>
    have hslot := slots_drain table index
    obtain ⟨id, hid⟩ := Option.isSome_iff_exists.1 held
    rw [freed_of_allocated? hid] at hslot
    simp [serve, allocated?, hslot]

/-- A generation counts how often its slot is freed, up to whole turns of all generations. -/
lemma generationAt_after (hw : table.WellFormed) (index : Nat) (requests : List (SlotRequest α)) :
    (table.after requests).generationAt index
      ≡ table.generationAt index + table.releases index requests
        [MOD SlotId.generationCount] := by
  induction requests generalizing table with
  | nil => exact Nat.ModEq.refl _
  | cons request rest ih =>
    have hrest := ih ((served_serve table request).wellFormed hw)
    cases (served_serve table request).slotMoved hw index with
    | stays generation allocated =>
      rwa [releases_of_not_frees rest (by rw [allocated]; exact id), ← generation]
    | fills generation vacant =>
      rwa [releases_of_not_frees rest (by simp [vacant]), ← generation]
    | frees generation held vacant =>
      rw [releases_of_frees held vacant, ← Nat.add_assoc, Nat.add_right_comm]
      rw [generation] at hrest
      exact hrest.trans ((Nat.mod_modEq _ _).add_right _)

lemma generationAt_after_lt (hw : table.WellFormed)
    (h : table.generationAt index < SlotId.generationCount) (requests : List (SlotRequest α)) :
    (table.after requests).generationAt index < SlotId.generationCount := by
  induction requests generalizing table with
  | nil => exact h
  | cons request rest ih =>
    refine ih ((served_serve table request).wellFormed hw) ?_
    cases (served_serve table request).slotMoved hw index with
    | stays generation => rwa [generation]
    | fills generation => rwa [generation]
    | frees generation =>
      rw [generation]
      exact Nat.mod_lt _ (Nat.zero_lt_of_lt h)

lemma generationAt_withCapacity (capacity index : Nat) :
    (withCapacity capacity : SlotTable α).generationAt index = 0 := by
  simp [generationAt, withCapacity]

/-- In a table that started empty, each generation is the count of the times that its slot has been
freed. -/
theorem generationAt_eq_releases (capacity index : Nat) (requests : List (SlotRequest α)) :
    ((withCapacity capacity).after requests).generationAt index
      = (withCapacity capacity).releases index requests % SlotId.generationCount := by
  have hw := wellFormed_withCapacity (α := α) capacity
  have hcount := generationAt_after hw index requests
  have hlt : ((withCapacity capacity).after requests).generationAt index
      < SlotId.generationCount :=
    generationAt_after_lt hw (by rw [generationAt_withCapacity]; decide) requests
  rw [generationAt_withCapacity, Nat.zero_add] at hcount
  rw [← Nat.mod_eq_of_lt hlt]
  exact hcount

/-! ### What is granted -/

/-- An identity stands for something when its slot is allocated in its generation. -/
lemma isSome_state?_iff :
    (table.state? id).isSome ↔
      (table.allocated? id.index).isSome ∧ table.generationAt id.index = id.generation := by
  constructor
  · intro hsome
    obtain ⟨state, hstate⟩ := Option.isSome_iff_exists.1 hsome
    exact ⟨by simp [allocated?_of_state? hstate], generationAt_of_state? hstate⟩
  · rintro ⟨hallocated, hgeneration⟩
    obtain ⟨id', hid'⟩ := Option.isSome_iff_exists.1 hallocated
    obtain ⟨hindex, hsome⟩ := allocated?_eq_some_iff.1 hid'
    obtain ⟨state, hstate⟩ := Option.isSome_iff_exists.1 hsome
    have hgeneration' := generationAt_of_state? hstate
    have heq : id' = id := by
      cases id'
      cases id
      simp_all
    rwa [← heq]

/-- What asks for an identity that stands for nothing is refused. -/
lemma serve_of_state?_eq_none (h : table.state? id = none) (hid : request.about? = some id) :
    table.serve request = (request.refusal, table) := by
  cases request with
  | insert make => simp [SlotRequest.about?] at hid
  | take id' =>
    obtain rfl := Option.some.inj hid
    rw [serve, take_eq_none (by simp [h])]
    rfl
  | park id' value =>
    obtain rfl := Option.some.inj hid
    rw [serve, park_eq_none (by simp [h])]
    rfl
  | release id' =>
    obtain rfl := Option.some.inj hid
    rw [serve, release_of_state?_eq_none h]
    rfl
  | drain => simp [SlotRequest.about?] at hid

/-- The identities that something is granted to are those that stand for something: to free the slot
is granted to each of them. -/
theorem accepts_iff_isSome : table.Accepts id ↔ (table.state? id).isSome := by
  constructor
  · rintro ⟨request, hid, hgranted⟩
    by_contra hnone
    rw [Option.not_isSome_iff_eq_none] at hnone
    exact hgranted (serve_of_state?_eq_none hnone hid)
  · intro hsome
    obtain ⟨state, hstate⟩ := Option.isSome_iff_exists.1 hsome
    refine ⟨.release id, rfl, fun hrefused => ?_⟩
    have hnone := congrFun (state?_release hstate) id
    rw [show (table.release id).2 = table from congrArg Prod.snd hrefused, Function.update_self,
      hstate] at hnone
    simp at hnone

/-! ### Counting the times an identity is freed -/

/-- How often a list of requests frees the slot of an identity under this identity. -/
def releasesOf (table : SlotTable α) (id : SlotId) : List (SlotRequest α) → Nat
  | [] => 0
  | request :: rest =>
    let next := (table.serve request).2
    let freed := decide (table.allocated? id.index = some id) && (next.allocated? id.index).isNone
    freed.toNat + next.releasesOf id rest

/-- Two counts that are less than a turn apart are in different generations. -/
lemma not_modEq_of_lt {before count : Nat} (hlt : before < count)
    (hturn : count < before + SlotId.generationCount) :
    ¬ count ≡ before [MOD SlotId.generationCount] := by
  intro hmod
  have hdvd := (Nat.modEq_iff_dvd' (Nat.le_of_lt hlt)).1 hmod.symm
  exact Nat.not_dvd_of_pos_of_lt (Nat.sub_pos_of_lt hlt) (by omega) hdvd

/-- An identity of another generation is not freed until its turn comes. -/
lemma releasesOf_eq_zero {requests : List (SlotRequest α)} (hw : table.WellFormed) {count : Nat}
    (hgeneration : table.generationAt id.index ≡ id.generation + count
      [MOD SlotId.generationCount])
    (hpos : 0 < count) (hturn : count + table.releases id.index requests < SlotId.generationCount) :
    table.releasesOf id requests = 0 := by
  induction requests generalizing table count with
  | nil => rfl
  | cons request rest ih =>
    have hother : table.allocated? id.index ≠ some id := by
      intro hid
      obtain ⟨state, hstate⟩ := Option.isSome_iff_exists.1 (allocated?_eq_some_iff.1 hid).2
      rw [generationAt_of_state? hstate] at hgeneration
      exact not_modEq_of_lt (Nat.lt_add_of_pos_right hpos) (by omega) hgeneration.symm
    have hw' := (served_serve table request).wellFormed hw
    simp only [releasesOf, hother, decide_false, Bool.false_and, Bool.toNat_false, Nat.zero_add]
    cases (served_serve table request).slotMoved hw id.index with
    | stays generation allocated =>
      rw [releases_of_not_frees rest (by rw [allocated]; exact fun held => held)] at hturn
      exact ih hw' (by rwa [generation]) hpos hturn
    | fills generation vacant =>
      rw [releases_of_not_frees rest (by simp [vacant])] at hturn
      exact ih hw' (by rwa [generation]) hpos hturn
    | frees generation held vacant =>
      rw [releases_of_frees held vacant] at hturn
      have hnext : (table.serve request).2.generationAt id.index
          ≡ id.generation + (count + 1) [MOD SlotId.generationCount] := by
        rw [generation]
        exact (Nat.mod_modEq _ _).trans (hgeneration.add_right 1)
      exact ih hw' hnext (Nat.succ_pos _) (by omega)

/-- The first time that a slot is freed, this is done under the identity that it has; and then not
again, until a whole turn of the generations has gone by. -/
theorem releasesOf_eq {requests : List (SlotRequest α)} (hw : table.WellFormed)
    (hid : (table.state? id).isSome)
    (hturn : table.releases id.index requests < SlotId.generationCount) :
    table.releasesOf id requests = min 1 (table.releases id.index requests) := by
  induction requests generalizing table with
  | nil => rfl
  | cons request rest ih =>
    have hw' := (served_serve table request).wellFormed hw
    obtain ⟨state, hstate⟩ := Option.isSome_iff_exists.1 hid
    have hallocated := allocated?_of_state? hstate
    have hgeneration := generationAt_of_state? hstate
    cases (served_serve table request).slotMoved hw id.index with
    | stays generation allocated =>
      have hkeeps : (table.allocated? id.index).isSome →
          ((table.serve request).2.allocated? id.index).isSome := allocated.symm ▸ fun held => held
      rw [releases_of_not_frees rest hkeeps] at hturn ⊢
      have hid' : ((table.serve request).2.state? id).isSome :=
        isSome_state?_iff.2 ⟨hkeeps (by simp [hallocated]), by rw [generation, hgeneration]⟩
      obtain ⟨state', hstate'⟩ := Option.isSome_iff_exists.1 hid'
      rw [← ih hw' hid' hturn, releasesOf, allocated?_of_state? hstate']
      simp
    | fills _ vacant => simp [hallocated] at vacant
    | frees generation held vacant =>
      rw [releases_of_frees held vacant] at hturn ⊢
      have hrest : (table.serve request).2.releasesOf id rest = 0 := by
        have hnext : (table.serve request).2.generationAt id.index
            ≡ id.generation + 1 [MOD SlotId.generationCount] := by
          rw [generation, hgeneration]
          exact Nat.mod_modEq _ _
        exact releasesOf_eq_zero hw' hnext Nat.one_pos (by omega)
      simp [releasesOf, hallocated, vacant, hrest]

/-! ### The identity of a slot that is given away -/

lemma insert_of_serve {make : SlotId → α}
    (h : (table.serve (.insert make)).1 = .inserted (some id)) :
    ∃ next, table.insert make = some (id, next) ∧ (table.serve (.insert make)).2 = next := by
  rcases hinsert : table.insert make with _ | ⟨id', next⟩
  · simp [serve, hinsert] at h
  · have heq : id' = id := by simpa [serve, hinsert] using h
    exact ⟨next, by rw [heq], by simp [serve, hinsert]⟩

/-- A new value gets its slot in the generation that the slot has. -/
lemma generation_of_serve {make : SlotId → α}
    (h : (table.serve (.insert make)).1 = .inserted (some id)) :
    id.generation = table.generationAt id.index := by
  obtain ⟨next, hinsert, -⟩ := insert_of_serve h
  exact (slots_insert hinsert).1

/-- How an identity that a slot got after it had been freed `before` times stands in a table in
which it has been freed `count` times. -/
structure Standing (table : SlotTable α) (id : SlotId) (before count : Nat) : Prop where
  /-- It is accepted in its own generation only, and there while the slot is allocated. -/
  accepts_iff : table.Accepts id ↔
    (table.allocated? id.index).isSome ∧ count ≡ before [MOD SlotId.generationCount]
  /-- From the first time that the slot is freed on it is refused, until a whole turn of the
  generations has gone by. -/
  refused : before < count → count < before + SlotId.generationCount →
    ∀ request : SlotRequest α, request.about? = some id →
      table.serve request = (request.refusal, table)
  /-- The slot gives it away again in its own generation only. -/
  given_iff : ∀ (make : SlotId → α) (id' : SlotId),
    (table.serve (.insert make)).1 = .inserted (some id') → id'.index = id.index →
      (id' = id ↔ count ≡ before [MOD SlotId.generationCount])

lemma standing_of_generationAt {before count : Nat}
    (hid : id.generation = before % SlotId.generationCount)
    (h : table.generationAt id.index = count % SlotId.generationCount) :
    table.Standing id before count := by
  have hgeneration : table.generationAt id.index = id.generation ↔
      count ≡ before [MOD SlotId.generationCount] := by
    rw [h, hid]
    rfl
  have hiff : table.Accepts id ↔
      (table.allocated? id.index).isSome ∧ count ≡ before [MOD SlotId.generationCount] := by
    rw [accepts_iff_isSome, isSome_state?_iff, hgeneration]
  refine ⟨hiff, fun hlt hturn request hrequest => ?_, fun make id' hgiven hindex => ?_⟩
  · by_contra hgranted
    exact not_modEq_of_lt hlt hturn (hiff.1 ⟨request, hrequest, hgranted⟩).2
  · rw [← hgeneration, ← hindex, ← generation_of_serve hgiven]
    constructor
    · rintro rfl
      rfl
    · intro heq
      cases id'
      cases id
      simp_all

/-- A table of one slot fills it and is drained, so many times. -/
def refills : Nat → List (SlotRequest Nat)
  | 0 => []
  | n + 1 => .insert SlotId.generation :: .drain :: refills n

/-- The table of one slot, which is vacant. -/
def oneSlot (generation : Nat) : SlotTable Nat :=
  ⟨[⟨generation, .vacant⟩], [0], 1⟩

/-- The table of one slot with a value in it. -/
def oneFilled (generation : Nat) : SlotTable Nat :=
  ⟨[⟨generation, .parked generation⟩], [], 1⟩

lemma serve_oneSlot (generation : Nat) :
    (oneSlot generation).serve (.insert SlotId.generation)
      = (.inserted (some ⟨0, generation⟩), oneFilled generation) := rfl

lemma drain_oneFilled (generation : Nat) :
    (oneFilled generation).drain = ([generation], oneSlot (SlotId.nextGeneration generation)) := by
  simp [drain, oneFilled, oneSlot, drainAt, allocated?, release, state?]

lemma after_refills (generation n : Nat) :
    let requests := .drain :: refills n
    (oneFilled generation).after requests
        = oneSlot ((generation + 1 + n) % SlotId.generationCount) ∧
      (oneFilled generation).releases 0 requests = n + 1 := by
  have hdrain : ∀ generation, (oneFilled generation).serve .drain
      = (.drained [generation], oneSlot (SlotId.nextGeneration generation)) :=
    fun generation => by rw [serve, drain_oneFilled]
  have hreleases : ∀ generation rest, (oneFilled generation).releases 0 (.drain :: rest)
      = (oneSlot (SlotId.nextGeneration generation)).releases 0 rest + 1 := by
    intro generation rest
    rw [releases_of_frees (by rfl) (by rw [hdrain]; rfl), hdrain]
  induction n generalizing generation with
  | zero => exact ⟨by rw [after, hdrain]; rfl, by rw [hreleases]; rfl⟩
  | succ n ih =>
    obtain ⟨hafter, hcount⟩ := ih (SlotId.nextGeneration generation)
    constructor
    · rw [after, hdrain, refills, after, serve_oneSlot, hafter, SlotId.nextGeneration,
        Nat.add_assoc, Nat.mod_add_mod, Nat.add_comm n]
    · rw [hreleases, refills, releases_of_not_frees _ (fun held => by cases held),
        serve_oneSlot, hcount]

/-- The identity that a slot gives away carries the number of times that the slot has been freed
before, modulo `SlotId.generationCount`.  From then on it stands as this number says, after every
further request. -/
theorem identity_of_releases (capacity : Nat) (front : List (SlotRequest α)) (make : SlotId → α)
    (id : SlotId)
    (given : (((withCapacity capacity).after front).serve (.insert make)).1
      = .inserted (some id))
    (rest : List (SlotRequest α)) :
    let empty : SlotTable α := withCapacity capacity
    let before := empty.releases id.index front
    let history := front ++ .insert make :: rest
    id.generation = before % SlotId.generationCount ∧
      (empty.after history).Standing id before (empty.releases id.index history) := by
  intro empty before history
  have hid : id.generation = before % SlotId.generationCount := by
    rw [generation_of_serve given, generationAt_eq_releases]
  exact ⟨hid, standing_of_generationAt hid (generationAt_eq_releases capacity id.index history)⟩

/-- The first identity of a table of one slot is refused while the slot is filled and freed again,
until it has been freed once for each generation; then the slot gives it away once more. -/
theorem identity_of_releases_refills :
    let empty : SlotTable Nat := withCapacity 1
    let history := fun n => [] ++ .insert SlotId.generation :: .drain :: refills n
    (empty.serve (.insert SlotId.generation)).1 = .inserted (some ⟨0, 0⟩) ∧
      (∀ n, n + 1 < SlotId.generationCount → ∀ request : SlotRequest Nat,
        request.about? = some ⟨0, 0⟩ →
          (empty.after (history n)).serve request = (request.refusal, empty.after (history n))) ∧
      ((empty.after (history (SlotId.generationCount - 1))).serve (.insert SlotId.generation)).1
        = .inserted (some ⟨0, 0⟩) := by
  intro empty history
  have hgiven : (empty.serve (.insert SlotId.generation)).1 = .inserted (some ⟨0, 0⟩) := rfl
  refine ⟨hgiven, fun n hn request hrequest => ?_, ?_⟩
  · obtain ⟨-, hstanding⟩ :=
      identity_of_releases 1 [] SlotId.generation ⟨0, 0⟩ hgiven (.drain :: refills n)
    have hcount : empty.releases 0 (history n) = n + 1 :=
      (releases_of_not_frees _ fun held => by cases held).trans (after_refills 0 n).2
    exact hstanding.refused (by rw [hcount]; exact Nat.succ_pos n)
      (by rw [hcount, releases, Nat.zero_add]; exact hn) request hrequest
  · have hafter : ∀ n, empty.after (history n) = oneSlot ((0 + 1 + n) % SlotId.generationCount) :=
      fun n => (after_refills 0 n).1
    have hturn : (0 + 1 + (SlotId.generationCount - 1)) % SlotId.generationCount = 0 := by decide
    rw [hafter, hturn, serve_oneSlot]

end SlotTable

end SiteServer
