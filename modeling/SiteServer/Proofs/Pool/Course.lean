import SiteServer.Proofs.Pool.Discipline
import SiteServer.Proofs.Pool.Roster

/-!
# The course that a pool takes

A pool seen from afar: how far each worker is with its jobs, which jobs wait, and which slot the
controller is about to look at.  Seen like this the threads do five things (`View.Shift`): the
controller looks on or fills a slot, and a worker starts a job, ends it, or frees its slot.

In which order they do them is up to the threads, but not what comes of it.  After a request at most
one worker has something to do.  When none has and jobs wait, the first free worker will take them:
it is the only free one, or else a single job waits and the controller has not gone past that
worker's slot.  `View.Course` says this together with what comes of the pool, which no shift changes
(`View.Course.shift`).
-/

namespace SiteServer

variable {J : Type}

/-- How far a worker is with its jobs. -/
inductive Stance (J : Type) where
  /-- Its slot may be filled. -/
  | free
  /-- It has been given a job and has not started it. -/
  | bound (job : J)
  | running (job : J)
  /-- Its job has ended, and its slot is still marked. -/
  | done
  /-- Its job broke down. -/
  | lost
  deriving DecidableEq, Repr

namespace Stance

/-- What the worker does when nobody looks closer. -/
def duty : Stance J → Duty J
  | .running job => .runs job
  | .lost => .lost
  | _ => .idle

/-- Whether the worker has something to do. -/
def isDue (ending : J → Option Ending) : Stance J → Bool
  | .bound _ | .done => true
  | .running job => (ending job).isSome
  | .free | .lost => false

/-- How far a worker is when its job has ended. -/
def after : Ending → Stance J
  | .normal => .done
  | .panic => .lost

/-- An idle worker with nothing to do is free. -/
lemma eq_free_of_duty {ending : J → Option Ending} {stance : Stance J}
    (idle : stance.isDue ending = false) (h : stance.duty = .idle) : stance = .free := by
  cases stance <;> simp_all [isDue, duty]

end Stance

/-- A pool seen from afar. -/
structure View (J : Type) where
  stances : List (Stance J)
  /-- The jobs that have not been given to a worker, the newest first. -/
  pending : List J
  log : List (PoolEvent J)
  /-- The slot that the controller is about to look at. -/
  scanned : Option Nat := none

namespace View

def duties (view : View J) : List (Duty J) :=
  view.stances.map Stance.duty

def roster (view : View J) : Roster J :=
  ⟨view.duties, view.pending, view.log⟩

/-- What comes of a pool in which one worker goes on, from a stance of its own, and nobody else has
anything to do. -/
def outcome (ending : J → Option Ending) (view : View J) (index : Nat) : Stance J → Roster J
  | .free | .done => .serve ending index view.duties view.pending view.log
  | .bound job => .serve ending index view.duties (job :: view.pending) view.log
  | .running job =>
    match ending job with
    | none => view.roster
    | some e => .finish ending index view.duties job view.pending view.log e
  | .lost => view.roster

/-- What the threads of a pool do, seen from afar. -/
inductive Shift (ending : J → Option Ending) (view : View J) : View J → Prop where
  /-- The controller begins to look at the slots, or it does not look at any. -/
  | looks {scanned : Option Nat} (begins : scanned = none ∨ scanned = some 0) :
      Shift ending view { view with scanned }
  /-- The controller goes past a slot that is marked. -/
  | passes {index : Nat} {stance : Stance J} (scanned : view.scanned = some index)
      (found : view.stances[index]? = some stance) (marked : stance ≠ .free) :
      Shift ending view { view with scanned := some (index + 1) }
  | assigns {index : Nat} {job : J} {rest : List J} (scanned : view.scanned = some index)
      (found : view.stances[index]? = some .free) (pending : view.pending = job :: rest) :
      Shift ending view ⟨view.stances.set index (.bound job), rest, view.log, none⟩
  | starts {index : Nat} {job : J} (found : view.stances[index]? = some (.bound job)) :
      Shift ending view
        { view with
          stances := view.stances.set index (.running job)
          log := .started job index :: view.log }
  | ends {index : Nat} {job : J} {e : Ending} (found : view.stances[index]? = some (.running job))
      (due : ending job = some e) :
      Shift ending view
        { view with
          stances := view.stances.set index (.after e)
          log := .ended job index e :: view.log }
  | frees {index : Nat} (found : view.stances[index]? = some .done) :
      Shift ending view { view with stances := view.stances.set index .free }
  /-- Nothing can be seen of what a thread does. -/
  | still : Shift ending view view

/-- No worker has anything to do. -/
def Calm (ending : J → Option Ending) (view : View J) : Prop :=
  ∀ (index : Nat) (stance : Stance J), view.stances[index]? = some stance →
    stance.isDue ending = false

/-- No worker but one has anything to do or will get a job that waits. -/
def Alone (ending : J → Option Ending) (view : View J) (index : Nat) : Prop :=
  ∀ (i : Nat) (stance : Stance J), i ≠ index → view.stances[i]? = some stance →
    stance.isDue ending = false ∧ (stance = .free → view.pending = [])

/-- What a pool is at, and what comes of it. -/
inductive Course (ending : J → Option Ending) (view : View J) : Roster J → Prop where
  /-- One worker has something to do. -/
  | turn {index : Nat} {stance : Stance J} (found : view.stances[index]? = some stance)
      (due : stance.isDue ending = true) (alone : view.Alone ending index) :
      Course ending view (view.outcome ending index stance)
  /-- Jobs wait, and the first free worker will take them: it is the only one, or there is a single
  job and the controller has not gone past it. -/
  | seek {index : Nat} (found : view.stances[index]? = some .free) (waits : view.pending ≠ [])
      (calm : view.Calm ending) (first : ∀ i < index, view.stances[i]? ≠ some .free)
      (ahead : (∀ i, i ≠ index → view.stances[i]? ≠ some .free) ∨
        view.pending.length = 1 ∧ ∀ i, view.scanned = some i → i ≤ index) :
      Course ending view (view.outcome ending index .free)
  /-- Nobody has anything to do. -/
  | rest (calm : view.Calm ending) (served : view.pending = [] ∨ .free ∉ view.stances) :
      Course ending view view.roster

variable {ending : J → Option Ending} {view next : View J} {index : Nat} {stance new : Stance J}
  {result : Roster J}

/-! ### One worker moves on -/

lemma duties_of_set (stances : next.stances = view.stances.set index new) :
    next.duties = view.duties.set index new.duty := by
  rw [duties, stances, List.map_set, duties]

lemma found_of_set (found : view.stances[index]? = some stance)
    (stances : next.stances = view.stances.set index new) : next.stances[index]? = some new := by
  rw [stances, List.getElem?_set_self (List.getElem?_eq_some_iff.1 found).1]

/-- The others do not get more to do when a worker moves on by itself. -/
lemma Alone.of_set (h : view.Alone ending index)
    (stances : next.stances = view.stances.set index new)
    (pending : view.pending = [] → next.pending = []) : next.Alone ending index := by
  intro i s hi hs
  rw [stances, List.getElem?_set_ne (Ne.symm hi)] at hs
  obtain ⟨idle, served⟩ := h i s hi hs
  exact ⟨idle, fun free => pending (served free)⟩

/-- When the one worker with something to do has done it, nobody has. -/
lemma Alone.calm (h : view.Alone ending index)
    (stances : next.stances = view.stances.set index new)
    (idle : new.isDue ending = false) : next.Calm ending := by
  rw [Calm, stances]
  exact Pool.getElem?_set_forall (P := fun _ s => s.isDue ending = false)
    (fun i s hi hs => (h i s hi hs).1) idle

/-- A job that waits when its worker takes no more waits for all of them. -/
lemma Alone.served (h : view.Alone ending index)
    (stances : next.stances = view.stances.set index new) (pending : next.pending = view.pending)
    (taken : new ≠ .free) : next.pending = [] ∨ .free ∉ next.stances := by
  rw [or_iff_not_imp_left, pending, stances]
  intro waits hmem
  obtain ⟨i, hi⟩ := List.mem_iff_getElem?.1 hmem
  exact Pool.getElem?_set_forall (P := fun _ s => s ≠ .free)
    (fun i s hne hs free => waits ((h i s hne hs).2 free)) taken i _ hi rfl

/-! ### Shifts -/

/-- It is the turn of a worker that has something to do. -/
lemma Course.alone (h : view.Course ending result) (found : view.stances[index]? = some stance)
    (due : stance.isDue ending = true) :
    view.Alone ending index ∧ result = view.outcome ending index stance := by
  cases h with
  | @turn i s found' due' alone =>
    by_cases hi : index = i
    · subst hi
      obtain rfl : s = stance := Option.some.inj (found'.symm.trans found)
      exact ⟨alone, rfl⟩
    · rw [(alone index stance hi found).1] at due
      simp at due
  | seek _ _ calm => simp [calm index stance found] at due
  | rest calm => simp [calm index stance found] at due

/-- Nothing comes of a pool in which nobody has anything to do. -/
lemma Course.eq_roster (h : view.Course ending result) (calm : view.Calm ending)
    (served : view.pending = [] ∨ .free ∉ view.stances) : result = view.roster := by
  cases h with
  | turn found due => simp [calm _ _ found] at due
  | seek found waits =>
    rcases served with served | served
    · exact absurd served waits
    · exact absurd (List.mem_of_getElem? found) served
  | rest => rfl

/-- The free worker that gets a job is the one that was to get it. -/
lemma Course.assigns {job : J} {rest : List J} (h : view.Course ending result)
    (scanned : view.scanned = some index) (found : view.stances[index]? = some .free)
    (pending : view.pending = job :: rest)
    (stances : next.stances = view.stances.set index (.bound job)) (left : next.pending = rest)
    (log : next.log = view.log) : next.Course ending result := by
  have waits : view.pending ≠ [] := by simp [pending]
  cases h with
  | @turn i s found' due alone =>
    by_cases hi : index = i
    · subst hi
      obtain rfl : s = .free := Option.some.inj (found'.symm.trans found)
      simp [Stance.isDue] at due
    · exact absurd ((alone index .free hi found).2 rfl) waits
  | rest _ served =>
    rcases served with served | served
    · exact absurd served waits
    · exact absurd (List.mem_of_getElem? found) served
  | @seek i _ _ calm first ahead =>
    obtain rfl : index = i := by
      by_contra hne
      rcases ahead with only | ⟨-, hle⟩
      · exact only index hne found
      · exact first index (Nat.lt_of_le_of_ne (hle index scanned) hne) found
    have alone : next.Alone ending index := by
      intro j s hj hs
      rw [stances, List.getElem?_set_ne (Ne.symm hj)] at hs
      refine ⟨calm j s hs, ?_⟩
      rintro rfl
      rcases ahead with only | ⟨hlength, -⟩
      · exact absurd hs (only j hj)
      · simpa [pending, left] using hlength
    have houtcome : view.outcome ending index .free = next.outcome ending index (.bound job) := by
      simp only [outcome, pending, left, log, duties_of_set stances, Roster.serve_set]
    rw [houtcome]
    exact .turn (found_of_set found stances) rfl alone

/-- A worker starts the job that it has been given. -/
lemma Course.starts {job : J} (h : view.Course ending result)
    (found : view.stances[index]? = some (.bound job))
    (stances : next.stances = view.stances.set index (.running job))
    (pending : next.pending = view.pending) (log : next.log = .started job index :: view.log) :
    next.Course ending result := by
  obtain ⟨alone, rfl⟩ := h.alone found rfl
  rcases ends : ending job with _ | e
  · have houtcome : view.outcome ending index (.bound job) = next.roster := by
      simp only [outcome, Roster.serve_of_holds ends, roster, pending, log, duties_of_set stances,
        Stance.duty]
    rw [houtcome]
    exact .rest (alone.calm stances (by simp [Stance.isDue, ends]))
      (alone.served stances pending (by simp))
  · have houtcome : view.outcome ending index (.bound job)
        = next.outcome ending index (.running job) := by
      simp only [outcome, Roster.serve_of_ends ends, ends, pending, log, duties_of_set stances,
        Roster.finish_set]
    rw [houtcome]
    exact .turn (found_of_set found stances) (by simp [Stance.isDue, ends])
      (alone.of_set stances fun served => pending.trans served)

/-- A worker ends its job. -/
lemma Course.ends {job : J} {e : Ending} (h : view.Course ending result)
    (found : view.stances[index]? = some (.running job)) (due : ending job = some e)
    (stances : next.stances = view.stances.set index (.after e))
    (pending : next.pending = view.pending) (log : next.log = .ended job index e :: view.log) :
    next.Course ending result := by
  obtain ⟨alone, rfl⟩ := h.alone found (by simp [Stance.isDue, due])
  cases e with
  | normal =>
    have houtcome : view.outcome ending index (.running job) = next.outcome ending index .done := by
      simp only [outcome, due, Roster.finish, pending, log, duties_of_set stances,
        Roster.serve_set]
    rw [houtcome]
    exact .turn (found_of_set found stances) rfl
      (alone.of_set stances fun served => pending.trans served)
  | panic =>
    have houtcome : view.outcome ending index (.running job) = next.roster := by
      simp only [outcome, due, Roster.finish, roster, pending, log, duties_of_set stances,
        Stance.after, Stance.duty]
    rw [houtcome]
    exact .rest (alone.calm stances rfl) (alone.served stances pending (by simp [Stance.after]))

/-- A worker whose job has ended becomes free: no other one is, if jobs wait. -/
lemma Course.frees (h : view.Course ending result) (found : view.stances[index]? = some .done)
    (stances : next.stances = view.stances.set index .free)
    (pending : next.pending = view.pending) (log : next.log = view.log) :
    next.Course ending result := by
  obtain ⟨alone, rfl⟩ := h.alone found rfl
  have calm : next.Calm ending := alone.calm stances rfl
  have houtcome : view.outcome ending index .done = next.outcome ending index .free := by
    simp only [outcome, pending, log, duties_of_set stances, Roster.serve_set]
  by_cases waits : view.pending = []
  · have hroster : view.outcome ending index .done = next.roster := by
      simp only [outcome, waits, Roster.serve_nil, roster, pending, log, duties_of_set stances,
        Stance.duty]
    rw [hroster]
    exact .rest calm (.inl (pending.trans waits))
  · have only : ∀ i, i ≠ index → next.stances[i]? ≠ some .free := by
      intro i hi hfree
      rw [stances, List.getElem?_set_ne (Ne.symm hi)] at hfree
      exact waits ((alone i .free hi hfree).2 rfl)
    rw [houtcome]
    exact .seek (found_of_set found stances) (pending ▸ waits) calm
      (fun i hi => only i (Nat.ne_of_lt hi)) (.inl only)

/-- Where the controller looks does not matter while it is not past the free worker that is to take
the job. -/
lemma Course.scans {scanned : Option Nat} (h : view.Course ending result)
    (ahead : ∀ i index, scanned = some i → view.stances[index]? = some .free →
      (∀ i, view.scanned = some i → i ≤ index) → i ≤ index) :
    Course ending { view with scanned } result := by
  cases h with
  | turn found due alone => exact .turn found due alone
  | @seek index found waits calm first near =>
    refine .seek found waits calm first (near.imp_right fun ⟨hlength, hle⟩ => ⟨hlength, ?_⟩)
    exact fun i hi => ahead i index hi found hle
  | rest calm served => exact .rest calm served

/-- **No shift changes what comes of a pool.** -/
theorem Course.shift (h : view.Course ending result) (shift : Shift ending view next) :
    next.Course ending result := by
  cases shift with
  | @looks scanned begins =>
    refine h.scans fun i index hi _ _ => ?_
    rcases begins with rfl | rfl
    · simp at hi
    · exact (Option.some.inj hi) ▸ Nat.zero_le index
  | @passes k s scanned found marked =>
    refine h.scans fun i index hi free hle => ?_
    obtain rfl : k + 1 = i := Option.some.inj hi
    have hne : k ≠ index := by
      rintro rfl
      exact marked (Option.some.inj (found.symm.trans free))
    exact Nat.lt_of_le_of_ne (hle k scanned) hne
  | assigns scanned found pending => exact h.assigns scanned found pending rfl rfl rfl
  | starts found => exact h.starts found rfl rfl rfl
  | ends found due => exact h.ends found due rfl rfl rfl
  | frees found => exact h.frees found rfl rfl rfl
  | still => exact h

/-- A pool that has been given no job yet. -/
def Fresh (view : View J) : Prop :=
  view.pending = [] ∧ ∀ stance ∈ view.stances, stance = .free

lemma Fresh.calm (h : view.Fresh) : view.Calm ending := by
  intro i s hs
  rw [h.2 s (List.mem_of_getElem? hs)]
  rfl

/-- A pool that has been given no job does nothing that can be seen. -/
lemma Fresh.shift (h : view.Fresh) (shift : Shift ending view next) : next.Fresh := by
  have absent : ∀ {i : Nat} {s : Stance J}, view.stances[i]? = some s → s = .free :=
    fun hs => h.2 _ (List.mem_of_getElem? hs)
  cases shift with
  | looks => exact h
  | passes => exact h
  | assigns _ _ pending => simp [h.1] at pending
  | starts found => simpa using absent found
  | ends found => simpa using absent found
  | frees found => simpa using absent found
  | still => exact h

/-! ### Requests -/

section Requests

variable [DecidableEq J]

/-- The first of the workers that do the same. -/
lemma exists_of_idxOf? {duty : Duty J} (h : view.duties.idxOf? duty = some index) :
    (∃ stance, view.stances[index]? = some stance ∧ stance.duty = duty) ∧
      ∀ i stance, i < index → view.stances[i]? = some stance → stance.duty ≠ duty := by
  obtain ⟨hlt, hduty, first⟩ := List.idxOf?_eq_some_iff.1 h
  have hlength : view.duties.length = view.stances.length := List.length_map _
  refine ⟨⟨view.stances[index], List.getElem?_eq_getElem _, by simpa [duties] using hduty⟩, ?_⟩
  intro i stance hi hs
  obtain ⟨hlt', rfl⟩ := List.getElem?_eq_some_iff.1 hs
  simpa [duties] using first i hi

lemma duty_ne_of_idxOf? {duty : Duty J} (h : view.duties.idxOf? duty = none)
    (found : view.stances[index]? = some stance) : stance.duty ≠ duty := by
  rintro rfl
  exact List.idxOf?_eq_none_iff.1 h (List.mem_map_of_mem (List.mem_of_getElem? found))

/-- A job that is put onto the stack of a pool at rest comes to what it comes to without threads. -/
lemma Course.submit (calm : view.Calm ending) (served : view.pending = [] ∨ .free ∉ view.stances)
    (scanned : view.scanned = none) (job : J) :
    Course ending { view with pending := job :: view.pending }
      (view.roster.submit ending job) := by
  rcases idle : view.duties.idxOf? .idle with _ | index
  · have hsubmit : view.roster.submit ending job
        = roster { view with pending := job :: view.pending } := by
      simp only [Roster.submit, roster, idle]
      rfl
    rw [hsubmit]
    refine .rest calm (.inr fun hmem => ?_)
    obtain ⟨i, hi⟩ := List.mem_iff_getElem?.1 hmem
    exact duty_ne_of_idxOf? idle hi rfl
  · obtain ⟨⟨stance, found, hduty⟩, first⟩ := exists_of_idxOf? idle
    obtain rfl := Stance.eq_free_of_duty (calm index stance found) hduty
    have empty : view.pending = [] := by
      rcases served with served | served
      · exact served
      · exact absurd (List.mem_of_getElem? found) served
    have hsubmit : view.roster.submit ending job
        = outcome ending { view with pending := job :: view.pending } index .free := by
      simp only [Roster.submit, roster, idle]
      rfl
    rw [hsubmit]
    exact .seek found (by simp) calm (fun i hi hfree => first i _ hi hfree rfl)
      (.inr ⟨by simp [empty], by simp [scanned]⟩)

/-- A job is let go in a pool at rest: if a worker runs it, this one ends it. -/
lemma Course.release {later : J → Option Ending} {job : J} (calm : view.Calm ending)
    (served : view.pending = [] ∨ .free ∉ view.stances) (ends : later job = some .normal)
    (others : ∀ other, other ≠ job → later other = ending other)
    (unique : ∀ i j : Nat, view.stances[i]? = some (.running job) →
      view.stances[j]? = some (.running job) → i = j) :
    Course later view (view.roster.release later job) := by
  -- what was not due before is due only if it is that job
  have idle : ∀ (i : Nat) (s : Stance J), view.stances[i]? = some s → s ≠ .running job →
      s.isDue later = false := by
    intro i s hs hne
    have hcalm := calm i s hs
    cases s with
    | running other =>
      rw [Stance.isDue, others other fun heq => hne (heq ▸ rfl)]
      exact hcalm
    | _ => exact hcalm
  rcases runner : view.duties.idxOf? (.runs job) with _ | index
  · have hrelease : view.roster.release later job = view.roster := by
      simp only [Roster.release, roster, runner]
    rw [hrelease]
    refine .rest (fun i s hs => idle i s hs ?_) served
    rintro rfl
    exact duty_ne_of_idxOf? runner hs rfl
  · obtain ⟨⟨stance, found, hduty⟩, -⟩ := exists_of_idxOf? runner
    obtain rfl : stance = .running job := by cases stance <;> simp_all [Stance.duty]
    have hrelease : view.roster.release later job
        = view.outcome later index (.running job) := by
      simp only [Roster.release, roster, runner, outcome, ends]
    rw [hrelease]
    refine .turn found (by simp [Stance.isDue, ends]) fun i s hi hs => ⟨idle i s hs ?_, ?_⟩
    · rintro rfl
      exact hi (unique i index hs found)
    · rintro rfl
      rcases served with served | served
      · exact served
      · exact absurd (List.mem_of_getElem? hs) served

end Requests

end View

end SiteServer
