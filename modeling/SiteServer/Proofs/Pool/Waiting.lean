import SiteServer.Proofs.Pool.History

/-!
# In which order jobs wait

The jobs that wait for a worker are the one in the controller's hand and, below it, those on the
stack.  A job that is submitted goes on top of the stack, and so below the job in the hand.  When no
worker is idle, the controller puts its job back, on top of whatever has been submitted in the
meantime: from then on an older job stands above newer ones, and it is handed out before them.
Nothing else disturbs the order: of two jobs on the stack the newer one is above, unless it was
submitted while the controller had the older one in its hand (`stack_order`).
-/

namespace SiteServer.Pool

variable {J : Type}

open scoped List

/-- The jobs that a run submits, in their order. -/
def submitted (moves : List (PoolMove J)) : List J :=
  moves.filterMap PoolMove.submitted?

/-- The jobs that wait for a worker, the next one first. -/
def waiting (pool : Pool J) : List J :=
  pool.controller.job?.toList ++ pool.stack.items

/-- The job `late` was submitted while the controller had `held` in its hand. -/
def SubmittedBehind (size : Nat) (moves : List (PoolMove J)) (held late : J) : Prop :=
  ∃ front before, front ++ [.push late] <+: moves ∧ (start size).after? front = some before ∧
    before.controller.job? = some held

/-- Why a job waits above another one: it is newer, or the other one came while it was in the
controller's hand. -/
inductive Above (size : Nat) (moves : List (PoolMove J)) (upper lower : J) : Prop where
  | newer (order : [lower, upper] <+ submitted moves)
      (apart : ¬ SubmittedBehind size moves lower upper)
  | putBack (behind : SubmittedBehind size moves upper lower)

section Runs

variable {size : Nat} {moves front : List (PoolMove J)} {m : PoolMove J} {pool next : Pool J}
  {held late upper lower older newer job : J}

/-! ### The order of submission -/

lemma submitted_append (front moves : List (PoolMove J)) :
    submitted (front ++ moves) = submitted front ++ submitted moves :=
  List.filterMap_append

/-- Of two different jobs only one comes first. -/
lemma not_sublist_of_sublist {list : List J} (hnodup : list.Nodup) (h : [upper, lower] <+ list) :
    ¬ [lower, upper] <+ list := by
  induction list with
  | nil => simp at h
  | cons first rest ih => grind

/-- Of two different members one comes first. -/
lemma sublist_or_sublist {list : List J} (hupper : upper ∈ list) (hlower : lower ∈ list)
    (hne : upper ≠ lower) : [upper, lower] <+ list ∨ [lower, upper] <+ list := by
  induction list with
  | nil => simp at hupper
  | cons first rest ih => grind

lemma waiting_sublist_everywhere (pool : Pool J) : pool.waiting <+ pool.everywhere := by
  simp only [waiting, everywhere, live, List.append_assoc]
  rw [← List.append_assoc]
  exact List.sublist_append_left _ _

/-- A job that waits has been submitted. -/
lemma mem_submitted_of_mem_waiting (h : (start size).after? moves = some pool)
    (hjob : job ∈ pool.waiting) : job ∈ submitted moves :=
  (accounted_of_after? h).perm.mem_iff.1 ((waiting_sublist_everywhere pool).subset hjob)

/-- Different jobs wait in different places. -/
lemma nodup_waiting (h : (start size).after? moves = some pool) (hnodup : (submitted moves).Nodup) :
    pool.waiting.Nodup :=
  ((accounted_of_after? h).perm.nodup_iff.2 hnodup).sublist (waiting_sublist_everywhere pool)

lemma mem_submitted_of_job? (h : (start size).after? moves = some pool)
    (hjob : pool.controller.job? = some job) : job ∈ submitted moves :=
  mem_submitted_of_mem_waiting h (by simp [waiting, hjob])

/-- What is submitted behind a job is submitted after it. -/
lemma SubmittedBehind.order (h : SubmittedBehind size moves held late) :
    [held, late] <+ submitted moves := by
  obtain ⟨front, before, ⟨rest, rfl⟩, hrun, hjob⟩ := h
  have hheld : [held] <+ submitted front :=
    List.singleton_sublist.2 (mem_submitted_of_job? hrun hjob)
  rw [submitted_append, submitted_append]
  exact (hheld.append (List.Sublist.refl [late])).trans (List.sublist_append_left _ _)

/-- What a further move submits is submitted behind the job that the controller holds. -/
lemma submittedBehind_concat_iff (h : (start size).after? moves = some pool) :
    SubmittedBehind size (moves ++ [m]) held late ↔
      SubmittedBehind size moves held late ∨
        m = .push late ∧ pool.controller.job? = some held := by
  constructor
  · rintro ⟨front, before, hprefix, hrun, hjob⟩
    rcases List.prefix_concat_iff.1 hprefix with heq | hprefix
    · obtain ⟨rfl, hm⟩ := List.append_inj' heq rfl
      obtain rfl : before = pool := Option.some.inj (hrun.symm.trans h)
      exact .inr ⟨(List.singleton_inj.1 hm).symm, hjob⟩
    · exact .inl ⟨front, before, hprefix, hrun, hjob⟩
  · rintro (⟨front, before, hprefix, hrun, hjob⟩ | ⟨rfl, hjob⟩)
    · exact ⟨front, before, hprefix.trans (List.prefix_append _ _), hrun, hjob⟩
    · exact ⟨moves, pool, List.prefix_refl _, h, hjob⟩

/-! ### One move -/

/-- A move that submits nothing leaves the waiting jobs as they are, or takes some away. -/
lemma Moved.waiting_sublist (moved : Moved pool m next) (hm : m.submitted? = none) :
    next.waiting <+ pool.waiting := by
  cases moved with
  | push job => simp [PoolMove.submitted?] at hm
  | raise => exact .refl _
  | controller moved =>
    cases moved with
    | goOn phase => simp [waiting, phase, ControllerPhase.job?]
    | stop phase => simp [waiting, phase, ControllerPhase.job?]
    | wake phase => simp [waiting, phase, ControllerPhase.job?]
    | pop phase stack => simp [waiting, phase, stack, ControllerPhase.job?]
    | rest phase stack => simp [waiting, phase, stack, ControllerPhase.job?]
    | hold phase => simp [waiting, phase, ControllerPhase.job?]
    | drop phase => simp [waiting, phase, ControllerPhase.job?]
    | skip phase => simp [waiting, phase, ControllerPhase.job?]
    | assign phase => simp [waiting, phase, ControllerPhase.job?]
    | scanned phase => simp [waiting, phase, ControllerPhase.job?]
    | raise phase => simp [waiting, phase, ControllerPhase.job?]
    | raiseNone phase => simp [waiting, phase, ControllerPhase.job?]
    | putBack phase => simp [waiting, phase, ControllerPhase.job?, WorkStack.push]
  | worker found moved => cases moved <;> exact .refl _
  | finish => exact .refl _
  | shutdown moved =>
    cases moved with
    | drain => exact (List.Sublist.refl _).append (List.nil_sublist _)
    | _ => exact .refl _

/-- A further move changes nothing between two jobs that have been submitted before it. -/
lemma Above.concat (h : (start size).after? moves = some pool)
    (hnodup : (submitted (moves ++ [m])).Nodup) (habove : Above size moves upper lower) :
    Above size (moves ++ [m]) upper lower := by
  cases habove with
  | newer order apart =>
    have hupper : upper ∈ submitted moves := order.subset (by simp)
    refine .newer (order.trans ?_) ?_
    · rw [submitted_append]
      exact List.sublist_append_left _ _
    · rw [submittedBehind_concat_iff h]
      rintro (hbehind | ⟨rfl, -⟩)
      · exact apart hbehind
      · -- a job is not submitted twice
        rw [submitted_append] at hnodup
        exact (List.nodup_append.1 hnodup).2.2 upper hupper upper (by simp [submitted,
          PoolMove.submitted?]) rfl
  | putBack behind => exact .putBack ((submittedBehind_concat_iff h).2 (.inl behind))

/-- A job that is submitted comes between the one in the controller's hand and those on the
stack. -/
lemma pairwise_push (h : (start size).after? moves = some pool)
    (hnodup : (submitted (moves ++ [.push job])).Nodup)
    (hwaiting : pool.waiting.Pairwise (Above size moves)) :
    (pool.controller.job?.toList ++ job :: pool.stack.items).Pairwise
      (Above size (moves ++ [.push job])) := by
  have hsubmitted : submitted (moves ++ [.push job]) = submitted moves ++ [job] :=
    submitted_append moves [.push job]
  have hfresh : job ∉ submitted moves := by
    rw [hsubmitted] at hnodup
    exact fun hmem => (List.nodup_append.1 hnodup).2.2 job hmem job (by simp) rfl
  have hbefore : (submitted moves).Nodup := by
    rw [hsubmitted] at hnodup
    exact hnodup.of_append_left
  obtain ⟨hhand, hstack, hbetween⟩ :=
    List.pairwise_append.1 (hwaiting.imp (Above.concat h hnodup))
  refine List.pairwise_append.2 ⟨hhand, List.pairwise_cons.2 ⟨fun lower hlower => ?_, hstack⟩, ?_⟩
  · have hmem : lower ∈ submitted moves :=
      mem_submitted_of_mem_waiting h (List.mem_append_right _ hlower)
    refine .newer ?_ ?_
    · rw [hsubmitted]
      exact (List.singleton_sublist.2 hmem).append (List.Sublist.refl [job])
    · rw [submittedBehind_concat_iff h]
      rintro (hbehind | ⟨-, hheld⟩)
      · exact hfresh (hbehind.order.subset (by simp))
      · -- what is in the hand is not on the stack
        exact (List.nodup_append.1 (nodup_waiting h hbefore)).2.2 lower (by simp [hheld]) lower
          hlower rfl
  · intro upper hupper lower hlower
    rcases List.mem_cons.1 hlower with rfl | hlower
    · refine .putBack ((submittedBehind_concat_iff h).2 (.inr ⟨rfl, ?_⟩))
      exact Option.mem_toList.1 hupper
    · exact hbetween upper hupper lower hlower

/-! ### Runs -/

/-- Of two jobs that wait the upper one is above for a reason. -/
theorem pairwise_waiting (h : (start size).after? moves = some pool)
    (hnodup : (submitted moves).Nodup) : pool.waiting.Pairwise (Above size moves) := by
  induction moves using List.reverseRecOn generalizing pool with
  | nil =>
    obtain rfl : start size = pool := Option.some.inj h
    exact List.Pairwise.nil
  | append_singleton moves m ih =>
    obtain ⟨before, hbefore, hm⟩ := after?_append_singleton.1 h
    have hmoves : (submitted moves).Nodup := by
      rw [submitted_append] at hnodup
      exact hnodup.of_append_left
    have hwaiting := ih hbefore hmoves
    have moved := moved_of_move? hm
    cases m with
    | push job =>
      cases moved with
      | push => exact pairwise_push hbefore hnodup hwaiting
    | _ =>
      exact (hwaiting.imp (Above.concat hbefore hnodup)).sublist (moved.waiting_sublist rfl)

/-- The upper one of two jobs is the newer one unless the lower one was submitted behind it. -/
lemma Above.newer_iff (hnodup : (submitted moves).Nodup) (h : Above size moves upper lower) :
    [lower, upper] <+ submitted moves ↔ ¬ SubmittedBehind size moves upper lower := by
  cases h with
  | newer order apart =>
    exact ⟨fun _ hbehind => not_sublist_of_sublist hnodup hbehind.order order, fun _ => order⟩
  | putBack behind =>
    exact ⟨fun order => absurd order (not_sublist_of_sublist hnodup behind.order),
      fun hnot => absurd behind hnot⟩

lemma above_of_sublist (h : (start size).after? moves = some pool)
    (hnodup : (submitted moves).Nodup) (hsublist : [upper, lower] <+ pool.stack.items) :
    Above size moves upper lower :=
  List.pairwise_iff_forall_sublist.1 (pairwise_waiting h hnodup)
    (hsublist.trans (List.sublist_append_right _ _))

/-- The older one of two jobs is above exactly when the newer one was submitted behind it. -/
lemma older_above_iff (h : (start size).after? moves = some pool)
    (hnodup : (submitted moves).Nodup) (holder : older ∈ pool.stack.items)
    (hnewer : newer ∈ pool.stack.items) (order : [older, newer] <+ submitted moves) :
    [older, newer] <+ pool.stack.items ↔ SubmittedBehind size moves older newer := by
  constructor
  · intro hsublist
    cases above_of_sublist h hnodup hsublist with
    | newer order' => exact absurd order' (not_sublist_of_sublist hnodup order)
    | putBack behind => exact behind
  · intro hbehind
    have hne : older ≠ newer := by
      rintro rfl
      exact List.nodup_iff_sublist.1 hnodup older order
    rcases sublist_or_sublist holder hnewer hne with hsublist | hsublist
    · exact hsublist
    · cases above_of_sublist h hnodup hsublist with
      | newer _ apart => exact absurd hbehind apart
      | putBack behind => exact absurd behind.order (not_sublist_of_sublist hnodup order)

/-- **The order of the stack.**  After any run of the threads of a pool, in which different jobs are
submitted:

* of two jobs on the stack the older one is above exactly when the newer one was submitted while the
  controller had the older one in its hand;
* so the newest jobs are on top, in their order, exactly when none on the stack was submitted behind
  another one that is there;
* when the controller takes a job, it takes one that is newer than all others on the stack, but for
  those that were submitted while it had this job in its hand before. -/
theorem stack_order (h : (start size).after? moves = some pool)
    (hnodup : (submitted moves).Nodup) :
    (∀ older ∈ pool.stack.items, ∀ newer ∈ pool.stack.items, [older, newer] <+ submitted moves →
      ([older, newer] <+ pool.stack.items ↔ SubmittedBehind size moves older newer)) ∧
    (pool.stack.items.Pairwise (fun upper lower => [lower, upper] <+ submitted moves) ↔
      ∀ held ∈ pool.stack.items, ∀ late ∈ pool.stack.items,
        ¬ SubmittedBehind size moves held late) ∧
    (∀ next job, pool.move? .controller = some next → pool.controller = .popping →
      next.controller = .holding job →
        ∀ other ∈ next.stack.items,
          [other, job] <+ submitted moves ↔ ¬ SubmittedBehind size moves job other) := by
  refine ⟨fun older holder newer hnewer => older_above_iff h hnodup holder hnewer, ?_, ?_⟩
  · constructor
    · intro hnewest held hheld late hlate hbehind
      have hsublist := (older_above_iff h hnodup hheld hlate hbehind.order).2 hbehind
      exact not_sublist_of_sublist hnodup hbehind.order
        (List.pairwise_iff_forall_sublist.1 hnewest hsublist)
    · intro hapart
      refine List.pairwise_iff_forall_sublist.2 fun {upper lower} hsublist => ?_
      refine ((above_of_sublist h hnodup hsublist).newer_iff hnodup).2 ?_
      exact hapart upper (hsublist.subset (by simp)) lower (hsublist.subset (by simp))
  · intro next job hmove phase hholding other hother
    cases moved_of_move? hmove with
    | controller moved =>
      cases moved with
      | @pop top rest _ stack =>
        obtain rfl : top = job := by simpa using hholding
        have hsublist : [top, other] <+ pool.stack.items := by
          rw [stack]
          exact (List.singleton_sublist.2 hother).cons_cons top
        exact (above_of_sublist h hnodup hsublist).newer_iff hnodup
      | _ => simp_all

end Runs

/-! ### A job that overtakes a newer one -/

/-- The only worker runs one job; the controller has taken a second one and looked at the worker's
slot when a third job is submitted, and then it puts the second one back. -/
def crossing : List (PoolMove Nat) :=
  [.push 0, .raise] ++ List.replicate 7 .controller ++ List.replicate 5 (.worker 0)
    ++ [.push 1, .raise] ++ List.replicate 6 .controller ++ [.push 2, .controller]

/-- The worker's job ends, and the controller takes the next one for it. -/
def handingOut : List (PoolMove Nat) :=
  [.raise, .finish 0 .normal, .worker 0, .worker 0] ++ List.replicate 5 .controller

/-- The pool after that run, before the worker's job ends. -/
def crossed : Pool Nat :=
  { stack := ⟨[1, 2]⟩
    workers := [{ phase := .running 0, marked := true }]
    total := 1
    busy := 1
    raisesDue := 1
    log := [.started 0 0] }

theorem stack_order_crossing :
    (start 1).after? crossing = some crossed ∧ (submitted crossing).Nodup ∧
      SubmittedBehind 1 crossing 1 2 ∧
      ¬ crossed.stack.items.Pairwise (fun upper lower => [lower, upper] <+ submitted crossing) := by
  have hrun : (start 1).after? crossing = some crossed := by decide
  have hnodup : (submitted crossing).Nodup := by decide
  obtain ⟨horder, hnewest, -⟩ := stack_order hrun hnodup
  have hbehind : SubmittedBehind 1 crossing 1 2 :=
    (horder 1 (by decide) 2 (by decide) (by decide)).1 (by decide)
  refine ⟨hrun, hnodup, hbehind, fun hpairwise => ?_⟩
  exact hnewest.1 hpairwise 1 (by decide) 2 (by decide) hbehind

/-- The newest job is not on top of the stack, and the worker is given the older one. -/
theorem older_job_first :
    submitted crossing = [0, 1, 2] ∧
      (∃ pool : Pool Nat, (start 1).after? crossing = some pool ∧ pool.stack.items = [1, 2] ∧
        ¬ pool.stack.items.Pairwise (fun upper lower => [lower, upper] <+ submitted crossing)) ∧
      ∃ pool : Pool Nat, (start 1).after? (crossing ++ handingOut) = some pool ∧
        pool.stack.items = [2] ∧ pool.workers.map Worker.job = [some 1] := by
  refine ⟨by decide, ⟨crossed, by decide, rfl, by decide⟩, ?_⟩
  have hrun : ∃ pool : Pool Nat, (start 1).after? (crossing ++ handingOut) = some pool :=
    Option.isSome_iff_exists.1 (by decide)
  obtain ⟨pool, hpool⟩ := hrun
  have hseen : ((start 1).after? (crossing ++ handingOut)).map
      (fun pool => (pool.stack.items, pool.workers.map Worker.job)) = some ([2], [some 1]) := by
    decide
  rw [hpool] at hseen
  have hends := Option.some.inj hseen
  exact ⟨pool, hpool, congrArg Prod.fst hends, congrArg Prod.snd hends⟩

end SiteServer.Pool
