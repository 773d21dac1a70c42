import SiteServer.Proofs.Server.Exchanges

/-!
# Clients do not influence each other

While a server runs, connections of many clients go through the same slots, jobs and reports.
`Told` is the invariant that keeps them apart: every connection that may still be moved on is the
current one of the newest exchange of its identity, and every exchange is that of a lone connection.
A move of the server leaves the connections in its hands as they are (`Told.mono`), gives a slot to
a new one (`Told.process`), or moves one on, whose identity no other one in its hands has
(`Told.stepped`).

What has been written to a client's socket is therefore what a connection alone would have sent
(`Chronicle.written_alone`).  The exchange that this is compared with knows nothing of the server:
it reads the same bytes at the same site on the same day.
-/

namespace SiteServer.Server

variable {H : Type} {exchanges : List (Exchange H)}
  {server next : Server} {c : Connection}

/-- A connection is in the hands of the server, and may be moved on. -/
inductive Holds (server : Server) (c : Connection) : Prop where
  | job (live : .step c ∈ server.pool.live)
  | parked {id : SlotId} (active : server.pool.active = true)
    (state : server.slots.state? id = some (.parked c))
  | reported {interest : Interest} (active : server.pool.active = true)
    (report : .stepped c interest ∈ server.completions)

/-- Every connection in the hands of the server is the current one of its identity. -/
structure Told (exchanges : List (Exchange H)) (server : Server) : Prop where
  kept : Kept server
  /-- When the pool does not run any more, the loop does not go back to its events. -/
  phase_of_inactive : server.pool.active = false →
    server.phase = .stopping ∨ server.phase = .closing ∨ server.phase = .stopped
  nodup : (server.pool.live.filterMap Work.id?).Nodup
  isLone : ∀ exchange ∈ exchanges, exchange.IsLone
  isCurrent : ∀ c, server.Holds c → Exchange.IsCurrent exchanges c

namespace Told

/-- While the loop goes about its events, the pool runs. -/
lemma active (h : Told exchanges server) (hphase : server.phase ≠ .stopping)
    (hclosing : server.phase ≠ .closing) (hstopped : server.phase ≠ .stopped) :
    server.pool.active = true := by
  by_contra hactive
  rcases h.phase_of_inactive (Bool.eq_false_iff.2 hactive) with hp | hp | hp
  · exact hphase hp
  · exact hclosing hp
  · exact hstopped hp

/-- Jobs have different identities, as long as no new ones come in. -/
lemma nodup_of_perm (h : Told exchanges server) {gone : List Work}
    (hlive : server.pool.live.Perm (gone ++ next.pool.live)) :
    (next.pool.live.filterMap Work.id?).Nodup := by
  have hids := hlive.filterMap Work.id?
  rw [List.filterMap_append] at hids
  exact (hids.nodup_iff.1 h.nodup).of_append_right

end Told

/-- As long as the pool runs, the identities of its jobs are all different. -/
lemma Kept.nodup (h : Kept server) (hactive : server.pool.active = true) :
    (server.pool.live.filterMap Work.id?).Nodup :=
  (nodup_travelling (h.books hactive)).sublist (List.sublist_append_left _ _)

/-- No connection comes into the hands of the server. -/
lemma Told.mono (h : Told exchanges server) (hkept : Kept next)
    (hphase : next.pool.active = false →
      next.phase = .stopping ∨ next.phase = .closing ∨ next.phase = .stopped)
    (hnodup : (next.pool.live.filterMap Work.id?).Nodup)
    (hholds : ∀ c, next.Holds c → server.Holds c) : Told exchanges next :=
  ⟨hkept, hphase, hnodup, h.isLone, fun c hc => h.isCurrent c (hholds c hc)⟩

/-! ### The pool -/

lemma holds_of_pool (server : Server) (hc : next.Holds c)
    (hactive : next.pool.active = true → server.pool.active = true)
    (hlive : ∀ c, .step c ∈ next.pool.live → .step c ∈ server.pool.live)
    (hslots : next.slots = server.slots)
    (hreports : ∀ c interest, .stepped c interest ∈ next.completions →
      .stepped c interest ∈ server.completions) : server.Holds c := by
  cases hc with
  | job live => exact .job (hlive c live)
  | parked active state => exact .parked (hactive active) (hslots ▸ state)
  | reported active report => exact .reported (hactive active) (hreports _ _ report)

/-- A move of the pool that brings no job. -/
lemma Told.pool (h : Told exchanges server) {move : PoolMove Work}
    (hmoved : server.pool.Moved move next.pool) (hsubmitted : move.submitted? = none)
    (hkept : Kept next) (hslots : next.slots = server.slots)
    (hreports : ∀ c interest, .stepped c interest ∈ next.completions →
      .stepped c interest ∈ server.completions)
    (hphase : next.pool.active = false →
      next.phase = .stopping ∨ next.phase = .closing ∨ next.phase = .stopped) :
    Told exchanges next := by
  obtain ⟨gone, hperm⟩ := hmoved.exists_live_perm h.kept.disciplined hsubmitted
  refine h.mono hkept hphase (h.nodup_of_perm hperm) fun c hc => ?_
  refine holds_of_pool server hc hmoved.active_of_active (fun c hc => ?_) hslots hreports
  exact hperm.mem_iff.2 (List.mem_append_right _ hc)

/-- Nothing but the phase, the waiting clients or the reports that are not about connections has
changed. -/
lemma Told.of_pool_eq (h : Told exchanges server) (hkept : Kept next)
    (hpool : next.pool = server.pool) (hslots : next.slots = server.slots)
    (hreports : ∀ c interest, .stepped c interest ∈ next.completions →
      .stepped c interest ∈ server.completions)
    (hphase : next.pool.active = false →
      next.phase = .stopping ∨ next.phase = .closing ∨ next.phase = .stopped) :
    Told exchanges next :=
  h.mono hkept hphase (hpool ▸ h.nodup) fun _ hc => holds_of_pool server hc
    (fun hactive => hpool ▸ hactive) (fun _ hc => hpool ▸ hc) hslots hreports

/-- A job that is submitted comes into the hands of the server. -/
lemma holds_submit {work : Work} (hc : (server.submit work).Holds c) :
    server.Holds c ∨ work = .step c := by
  cases hc with
  | job live =>
    have hperm : (server.submit work).pool.live.Perm (work :: server.pool.live) :=
      Pool.live_perm_of_push work _
    rcases List.mem_cons.1 (hperm.mem_iff.1 live) with heq | hmem
    · exact .inr heq.symm
    · exact .inl (.job hmem)
  | parked active state => exact .inl (.parked active state)
  | reported active report => exact .inl (.reported active report)

/-! ### The loop -/

section Loop

variable {registers : Bool} {interest : Interest} {id : SlotId} {d : Connection}

lemma Told.of_active (h : Told exchanges server) (hkept : Kept next)
    (hactive : next.pool.active = true) (hholds : ∀ c, next.Holds c → server.Holds c) :
    Told exchanges next :=
  h.mono hkept (by simp [hactive]) (hkept.nodup hactive) hholds

/-- One identity stands for something else than before. -/
lemma holds_of_update (server : Server) (hc : next.Holds c)
    {state : Option (SlotState Connection)} (hpool : next.pool = server.pool)
    (hslots : next.slots.state? = Function.update server.slots.state? id state)
    (hreports : ∀ c interest, .stepped c interest ∈ next.completions →
      .stepped c interest ∈ server.completions) :
    server.Holds c ∨ state = some (.parked c) := by
  cases hc with
  | job live => exact .inl (.job (hpool ▸ live))
  | @parked id' active hparked =>
    rw [hslots] at hparked
    by_cases hid : id' = id
    · rw [hid, Function.update_self] at hparked
      exact .inr hparked
    · rw [Function.update_of_ne hid] at hparked
      exact .inl (.parked (hpool ▸ active) hparked)
  | reported active report => exact .inl (.reported (hpool ▸ active) (hreports _ _ report))

lemma active_handle (server : Server) (token : Nat) :
    (server.handle token).pool.active = server.pool.active := by
  unfold Server.handle dispatch
  split
  · rfl
  · split
    · rfl
    · split
      · split <;> rfl
      · rfl

/-- An event brings no connection that has not been there. -/
lemma holds_handle (hactive : server.pool.active = true) {token : Nat}
    (hc : (server.handle token).Holds c) : server.Holds c := by
  unfold Server.handle at hc
  split at hc
  · exact hc
  · split at hc
    · exact (holds_submit hc).resolve_right (by simp)
    · split at hc
      · next id _ =>
        unfold dispatch at hc
        split at hc
        · exact hc
        · next parked slots htake =>
          obtain ⟨hparked, rfl⟩ := SlotTable.take_eq_some_iff.1 htake
          have hlent := SlotTable.state?_setState hparked (show SlotState.lent ≠ .vacant by simp)
          rcases holds_submit hc with hbefore | heq
          · exact (holds_of_update server hbefore rfl hlent fun _ _ h => h).resolve_right (by simp)
          · obtain rfl : parked = c := by simpa using heq
            exact .parked hactive hparked
      · exact hc

/-- The loop parks a connection that comes back, or closes it. -/
lemma holds_watch (hlent : server.slots.state? id = some .lent)
    (hc : (server.watch registers id d interest).Holds c) : server.Holds c ∨ c = d := by
  unfold watch at hc
  split at hc
  · rw [SlotTable.park_eq_some_iff.2 ⟨hlent, rfl⟩] at hc
    have hparked := SlotTable.state?_setState hlent (show SlotState.parked d ≠ .vacant by simp)
    rcases holds_of_update server hc rfl hparked fun _ _ h => h with hbefore | heq
    · exact .inl hbefore
    · exact .inr (by simpa using heq.symm)
  · have hfreed := SlotTable.state?_release hlent
    exact .inl ((holds_of_update server hc rfl hfreed fun _ _ h => h).resolve_right (by simp))

/-- The slot of a connection in the hands of a running server is allocated. -/
lemma Kept.state?_ne_none (h : Kept server) (hactive : server.pool.active = true)
    (hc : server.Holds c) : server.slots.state? c.id ≠ none := by
  have hbooks := h.books hactive
  cases hc with
  | job live =>
    have hmem : c.id ∈ server.travelling :=
      List.mem_append_left _ (List.mem_filterMap.2 ⟨_, live, rfl⟩)
    simp [hbooks.state?_eq_lent hmem]
  | parked active state => simp [hbooks.id_eq _ _ state, state]
  | reported active report =>
    have hmem : c.id ∈ server.travelling :=
      List.mem_append_right _ (List.mem_filterMap.2 ⟨_, report, rfl⟩)
    simp [hbooks.state?_eq_lent hmem]

/-- A client that gets a slot brings its new connection. -/
lemma holds_welcome (hw : server.slots.WellFormed) {peer : Nat} {slots : SlotTable Connection}
    (hinsert : server.slots.insert (fun id => { id, peer }) = some (id, slots))
    (hc : (server.welcome registers peer).Holds c) : server.Holds c ∨ c = { id, peer } := by
  obtain ⟨hnone, hnext, -⟩ := SlotTable.insert_spec hw hinsert
  have hparked : slots.state? id = some (.parked { id, peer }) := by
    rw [hnext, Function.update_self]
  have htake : slots.take id = some ({ id, peer }, slots.setState id.index .lent) :=
    SlotTable.take_eq_some_iff.2 ⟨hparked, rfl⟩
  have hlent : (slots.setState id.index .lent).state?
      = Function.update server.slots.state? id (some .lent) := by
    rw [SlotTable.state?_setState hparked (by simp), hnext, Function.update_idem]
  simp only [welcome, hinsert, htake] at hc
  rcases holds_watch (by simp only [hlent, Function.update_self]) hc with hbefore | heq
  · exact .inl ((holds_of_update server hbefore rfl hlent fun _ _ h => h).resolve_right (by simp))
  · exact .inr heq

lemma holds_of_completions {completion : Completion} {server seen : Server}
    (hseen : seen = { server with completions := completion :: server.completions })
    (hc : server.Holds c) : seen.Holds c := by
  subst hseen
  cases hc with
  | job live => exact .job live
  | parked active state => exact .parked active state
  | reported active report => exact .reported active (List.mem_cons_of_mem _ report)

/-- The loop sees what a job has reported. -/
lemma Told.process {completion : Completion} {seen : Server}
    (hseen : seen = { server with completions := completion :: server.completions })
    (h : Told exchanges seen) (hphase : server.phase = .draining)
    (hkept : Kept (server.process registers completion)) :
    Told
      (match seen.admitted? with
        | some (id, peer) => { id, peer } :: exchanges
        | none => exchanges)
      (server.process registers completion) := by
  have hactive : server.pool.active = true := by
    have hrunning := h.active (by simp [hseen, hphase]) (by simp [hseen, hphase])
      (by simp [hseen, hphase])
    rwa [hseen] at hrunning
  have hbooks := h.kept.books (by rw [hseen, hactive])
  have hheld {c : Connection} : server.Holds c → seen.Holds c := holds_of_completions hseen
  have hreport {c : Connection} {interest : Interest} :
      .stepped c interest ∈ seen.completions → seen.Holds c := .reported (by rw [hseen, hactive])
  cases completion with
  | accepted peer =>
    have hpool := (pool_welcome server registers peer).1
    have hnext : (server.process registers (.accepted peer)).pool.active = true := by
      rw [Server.process, hpool, hactive]
    cases hinsert : server.slots.insert fun id => ({ id, peer } : Connection) with
    | none =>
      have hadmitted : seen.admitted? = none := by simp [hseen, admitted?, hphase, hinsert]
      rw [hadmitted]
      refine h.of_active hkept hnext fun c hc => hheld ?_
      simp only [Server.process, welcome, hinsert] at hc
      exact holds_of_pool server hc id (fun _ hc => hc) rfl fun _ _ hc => hc
    | some found =>
      obtain ⟨id, slots⟩ := found
      have hadmitted : seen.admitted? = some (id, peer) := by
        simp [hseen, admitted?, hphase, hinsert]
      rw [hadmitted]
      have hw : server.slots.WellFormed := by simpa [hseen] using hbooks.wellFormed
      have hnone := (SlotTable.insert_spec hw hinsert).1
      refine ⟨hkept, by simp [hnext], hkept.nodup hnext, ?_, fun c hc => ?_⟩
      · intro exchange hmem
        rcases List.mem_cons.1 hmem with rfl | hmem
        · exact ⟨by simp, rfl, rfl⟩
        · exact h.isLone exchange hmem
      · rcases holds_welcome hw hinsert hc with hbefore | rfl
        · refine Exchange.isCurrent_cons_of_ne (h.isCurrent c (hheld hbefore)) fun hid => ?_
          refine h.kept.state?_ne_none (by rw [hseen, hactive]) (hheld hbefore) ?_
          rw [hid, hseen]
          exact hnone
        · exact Exchange.isCurrent_fresh id peer exchanges
  | acceptAgain listener =>
    have hadmitted : seen.admitted? = none := by simp [hseen, admitted?, hphase]
    rw [hadmitted]
    exact h.of_active hkept hactive fun c hc => hheld ((holds_submit hc).resolve_right (by simp))
  | stepped d interest =>
    have hadmitted : seen.admitted? = none := by simp [hseen, admitted?, hphase]
    rw [hadmitted]
    have hpool := (pool_watch server registers d.id d interest).1
    have hlent := hbooks.state?_eq_lent (mem_travelling (by rw [hseen]) rfl)
    refine h.of_active hkept (by rw [Server.process, hpool, hactive]) fun c hc => ?_
    rcases holds_watch (by rwa [hseen] at hlent) hc with hbefore | rfl
    · exact hheld hbefore
    · exact hreport (by rw [hseen]; exact List.mem_cons_self)
  | closed id =>
    have hadmitted : seen.admitted? = none := by simp [hseen, admitted?, hphase]
    rw [hadmitted]
    have hlent : server.slots.state? id = some .lent := by
      have hlent := hbooks.state?_eq_lent (mem_travelling (by rw [hseen]) rfl)
      rwa [hseen] at hlent
    refine h.of_active hkept hactive fun c hc => hheld ?_
    exact (holds_of_update server hc rfl (SlotTable.state?_release hlent)
      fun _ _ h => h).resolve_right (by simp)

lemma admitted?_of_phase (hphase : server.phase ≠ .draining) : server.admitted? = none := by
  unfold admitted?
  split
  · next hdraining _ => exact absurd hdraining hphase
  · rfl

/-- The loop makes a move. -/
lemma Told.loop (h : Told exchanges server) (hloop : server.loop? registers = some next) :
    Told
      (match server.admitted? with
        | some (id, peer) => { id, peer } :: exchanges
        | none => exchanges) next := by
  have hkept := h.kept.loop registers hloop
  -- what the loop does when it neither touches connections nor stops
  have hsame (hphase : server.phase ≠ .stopping ∧ server.phase ≠ .closing ∧
      server.phase ≠ .stopped) (hpool : next.pool = server.pool)
      (hslots : next.slots = server.slots) (hcompletions : next.completions = server.completions) :
      Told exchanges next :=
    h.of_pool_eq hkept hpool hslots (fun _ _ hc => hcompletions ▸ hc)
      (by simp [hpool, h.active hphase.1 hphase.2.1 hphase.2.2])
  unfold loop? at hloop
  split at hloop
  case h_1 hphase =>
    obtain rfl := Option.some.inj hloop
    rw [admitted?_of_phase (by simp [hphase])]
    exact hsame (by simp [hphase]) rfl rfl rfl
  case h_2 => simp at hloop
  case h_3 hphase =>
    obtain rfl := Option.some.inj hloop
    rw [admitted?_of_phase (by simp [hphase])]
    exact hsame (by simp [hphase]) rfl rfl rfl
  case h_4 token rest hphase =>
    obtain rfl := Option.some.inj hloop
    rw [admitted?_of_phase (by simp [hphase])]
    have hactive := h.active (by simp [hphase]) (by simp [hphase]) (by simp [hphase])
    refine h.of_active hkept ?_ fun c hc => ?_
    · rw [active_handle]
      exact hactive
    · have hbefore := holds_handle (by exact hactive) hc
      exact holds_of_pool server hbefore id (fun _ hc => hc) rfl fun _ _ hc => hc
  case h_5 hphase =>
    split at hloop
    · next hcompletions =>
      obtain rfl := Option.some.inj hloop
      have hadmitted : server.admitted? = none := by simp [admitted?, hphase, hcompletions]
      rw [hadmitted]
      exact hsame (by simp [hphase]) rfl rfl rfl
    · next completion rest hcompletions =>
      obtain rfl := Option.some.inj hloop
      exact h.process (by rw [← hcompletions]) hphase hkept
  case h_6 hphase =>
    obtain rfl := Option.some.inj hloop
    rw [admitted?_of_phase (by simp [hphase])]
    exact hsame (by simp [hphase]) rfl rfl rfl
  case h_7 hphase =>
    obtain ⟨pool, hmove, rfl⟩ := Option.map_eq_some_iff.1 hloop
    rw [admitted?_of_phase (by simp [hphase])]
    exact h.pool (Pool.moved_of_move? hmove) rfl hkept rfl (fun _ _ hc => hc) fun _ => by
      simp only
      split <;> simp
  case h_8 hphase =>
    rw [admitted?_of_phase (by simp [hphase])]
    have hinactive := h.kept.inactive_of_phase (.inl hphase)
    -- only jobs may be moved on now
    have hjobs {closed : Server} (hkept : Kept closed) (hpool : closed.pool = server.pool)
        (hclosed : closed.phase = .closing ∨ closed.phase = .stopped) :
        Told exchanges closed := by
      refine h.mono hkept (fun _ => .inr hclosed) (hpool ▸ h.nodup) fun c hc => ?_
      cases hc with
      | job live => exact .job (hpool ▸ live)
      | parked active => simp [hpool, hinactive] at active
      | reported active => simp [hpool, hinactive] at active
    split at hloop
    · obtain rfl := Option.some.inj hloop
      exact hjobs hkept rfl (.inr rfl)
    · next completion rest hcompletions =>
      obtain rfl := Option.some.inj hloop
      cases completion <;> exact hjobs hkept rfl (.inl hphase)
  case h_9 => simp at hloop

end Loop

/-! ### The jobs -/

/-- A job that ends takes its connection out of the pool. -/
lemma live_perm_of_running {pool ended : Pool Work} {worker : Nat} {ending : Ending} {job : Work}
    (hmove : pool.move? (.finish worker ending) = some ended)
    (hjob : pool.running? worker = some job) : pool.live.Perm (job :: ended.live) := by
  cases Pool.moved_of_move? hmove with
  | @finish index found job' ending hfound hphase =>
    obtain ⟨phase, marked, slot, raised⟩ := found
    obtain rfl := hphase
    rw [Pool.running?, hfound] at hjob
    obtain rfl := Option.some.inj hjob
    exact Pool.live_perm_of_finish ending hfound rfl _

/-- A connection that is parked or reported has another identity than those in jobs. -/
lemma Kept.id_ne_of_holds (h : Kept server) {d : Connection} (hactive : server.pool.active = true)
    (hc : .step c ∈ server.pool.live)
    (hd : (∃ id, server.slots.state? id = some (.parked d)) ∨
      ∃ interest, .stepped d interest ∈ server.completions) : d.id ≠ c.id := by
  have hbooks := h.books hactive
  have hmem : c.id ∈ server.pool.live.filterMap Work.id? := List.mem_filterMap.2 ⟨_, hc, rfl⟩
  intro heq
  rcases hd with ⟨id, hparked⟩ | ⟨interest, hreport⟩
  · have hlent := hbooks.state?_eq_lent (List.mem_append_left _ hmem)
    rw [← heq, hbooks.id_eq id d hparked, hparked] at hlent
    simp at hlent
  · have hreported : d.id ∈ server.completions.filterMap Completion.id? :=
      List.mem_filterMap.2 ⟨_, hreport, rfl⟩
    exact (List.nodup_append.1 (nodup_travelling hbooks)).2.2 _ hmem _ hreported heq.symm

/-- A job that moves its connection on ends with a report. -/
lemma Told.stepped (h : Told exchanges server) {worker : Nat} {reported : Server}
    {completion : Completion} {m : Moment H}
    (hc : server.stepping? worker = some c) (hfinish : reported.finishJob? worker = some next)
    (hreported : reported = { server with
      ended := reported.ended, completions := server.completions ++ [completion] })
    (hcompletion : ∀ d interest, completion = .stepped d interest → d = (c.stepAt m).1)
    (hkept : Kept next) : Told (Exchange.noteIn c m exchanges) next := by
  obtain ⟨pool, hmove, rfl⟩ := Option.map_eq_some_iff.1 hfinish
  rw [hreported] at hmove
  have hmoved := Pool.moved_of_move? hmove
  have hperm := live_perm_of_running hmove (running?_of_stepping? hc)
  have hlive : .step c ∈ server.pool.live := hperm.mem_iff.2 List.mem_cons_self
  have hcurrent := h.isCurrent c (.job hlive)
  have hids : c.id ∉ pool.live.filterMap Work.id? :=
    (List.nodup_cons.1 ((hperm.filterMap Work.id?).nodup_iff.1 h.nodup)).1
  refine ⟨hkept, fun hinactive => ?_, ?_, Exchange.isLone_of_mem_noteIn h.isLone hcurrent,
    fun d hd => ?_⟩
  · rw [hreported]
    refine h.phase_of_inactive ?_
    rcases hmoved.active_eq with heq | hshutdown
    · rw [← heq]
      exact hinactive
    · simp at hshutdown
  · exact (List.nodup_cons.1 ((hperm.filterMap Work.id?).nodup_iff.1 h.nodup)).2
  · cases hd with
    | job live =>
      have hheld : server.Holds d := .job (hperm.mem_iff.2 (List.mem_cons_of_mem _ live))
      refine Exchange.isCurrent_noteIn_of_ne (h.isCurrent d hheld) fun heq => hids ?_
      exact heq ▸ List.mem_filterMap.2 ⟨_, live, rfl⟩
    | @parked id active state =>
      have hactive := hmoved.active_of_active active
      rw [hreported] at state
      exact Exchange.isCurrent_noteIn_of_ne (h.isCurrent d (.parked hactive state))
        (h.kept.id_ne_of_holds hactive hlive (.inl ⟨id, state⟩))
    | @reported interest active report =>
      have hactive := hmoved.active_of_active active
      rw [hreported] at report
      rcases List.mem_append.1 report with hbefore | hnew
      · exact Exchange.isCurrent_noteIn_of_ne (h.isCurrent d (.reported hactive hbefore))
          (h.kept.id_ne_of_holds hactive hlive (.inr ⟨interest, hbefore⟩))
      · rw [hcompletion d interest (List.mem_singleton.1 hnew).symm]
        exact Exchange.isCurrent_stepAt hcurrent

lemma Told.step (h : Told exchanges server) {around : Surroundings H} {worker : Nat} {turn : Turn}
    (hstep : server.step? around worker turn = some next) :
    Told
      (match server.stepping? worker with
        | some c => Exchange.noteIn c ⟨around, turn⟩ exchanges
        | none => exchanges) next := by
  have hkept := h.kept.step hstep
  unfold step? at hstep
  split at hstep
  · simp at hstep
  · next c hc =>
    rw [hc]
    split at hstep
    · next after interest hafter =>
      refine h.stepped hc hstep rfl (fun d interest' heq => ?_) hkept
      obtain ⟨rfl, -⟩ := Completion.stepped.inj heq
      exact (congrArg Prod.fst hafter).symm
    · exact h.stepped hc hstep rfl (by simp) hkept

/-! ### Every move -/

/-- A job that accepts ends. -/
lemma Told.finishJob (h : Told exchanges server) {worker : Nat} {reported : Server}
    (hfinish : reported.finishJob? worker = some next) (hkept : Kept next)
    (hpool : reported.pool = server.pool) (hslots : reported.slots = server.slots)
    (hphase : reported.phase = server.phase)
    (hreports : ∀ c interest, .stepped c interest ∈ reported.completions →
      .stepped c interest ∈ server.completions) : Told exchanges next := by
  obtain ⟨pool, hmove, rfl⟩ := Option.map_eq_some_iff.1 hfinish
  rw [hpool] at hmove
  have hmoved := Pool.moved_of_move? hmove
  refine h.pool hmoved rfl hkept hslots hreports fun hinactive => ?_
  rw [hphase]
  refine h.phase_of_inactive ?_
  rcases hmoved.active_eq with heq | hshutdown
  · rw [← heq]
    exact hinactive
  · simp at hshutdown

theorem Told.move (h : Told exchanges server) {around : Surroundings H} {move : ServerMove}
    (hmove : server.move? around move = some next) :
    Told (server.record around exchanges move) next := by
  have hkept := h.kept.move hmove
  cases move with
  | arrive listener peer =>
    obtain ⟨-, hnext⟩ := Option.ite_none_right_eq_some.1 hmove
    obtain rfl := Option.some.inj hnext
    exact h.of_pool_eq hkept rfl rfl (fun _ _ hc => hc) h.phase_of_inactive
  | pool move =>
    obtain ⟨hinternal, hnext⟩ := Option.ite_none_right_eq_some.1 hmove
    obtain ⟨pool, hpool, rfl⟩ := Option.map_eq_some_iff.1 hnext
    have hmoved := Pool.moved_of_move? hpool
    refine h.pool hmoved (by cases move <;> simp_all [isInternal, PoolMove.submitted?]) hkept rfl
      (fun _ _ hc => hc) fun hinactive => h.phase_of_inactive ?_
    rcases hmoved.active_eq with heq | rfl
    · rw [← heq]
      exact hinactive
    · simp [isInternal] at hinternal
  | accept worker =>
    simp only [move?, accept?] at hmove
    split at hmove
    · simp at hmove
    · obtain ⟨peer, -, rfl⟩ := Option.map_eq_some_iff.1 hmove
      exact h.of_pool_eq hkept rfl rfl (by simp [complete]) h.phase_of_inactive
  | acceptEnd worker =>
    simp only [move?] at hmove
    split at hmove
    · simp at hmove
    · exact h.finishJob (Option.ite_none_right_eq_some.1 hmove).2 hkept rfl rfl rfl
        fun _ _ hc => hc
  | acceptRetry worker =>
    simp only [move?] at hmove
    split at hmove
    · simp at hmove
    · exact h.finishJob hmove hkept rfl rfl rfl (by simp [complete])
  | step worker turn => exact h.step hmove
  | poll tokens =>
    obtain ⟨hphase, hnext⟩ := Option.ite_none_right_eq_some.1 hmove
    obtain rfl := Option.some.inj hnext
    have hactive := h.active (by simp [hphase]) (by simp [hphase]) (by simp [hphase])
    exact h.of_pool_eq hkept rfl rfl (fun _ _ hc => hc) (by simp [hactive])
  | loop registers => exact h.loop hmove
  | requestStop =>
    obtain rfl := Option.some.inj hmove
    exact h.of_pool_eq hkept rfl rfl (fun _ _ hc => hc) h.phase_of_inactive

theorem Chronicle.told {listeners workers connectionLimit : Nat}
    (h : Chronicle listeners workers connectionLimit exchanges server) :
    Told exchanges server := by
  induction h with
  | start =>
    have hkept := kept_start listeners workers connectionLimit
    refine ⟨hkept, by simp [Server.start, Pool.start], hkept.nodup rfl, by simp [exchangeJournal],
      fun c hc => ?_⟩
    exact absurd (SlotTable.state?_withCapacity connectionLimit c.id)
      (hkept.state?_ne_none rfl hc)
  | step _ _ hmove ih => exact ih.move hmove

/-- A site with a handler that answers three bytes and one that breaks down. -/
def handlerSite : Surroundings Bool where
  site :=
    { root := ['/'], index := [], policy := .contained
      routes := (({} : RouteTable Bool).register [] (.path "/a".toList) true).register []
        (.path "/b".toList) false
      zone := .universal }
  ask := fun answers _ _ => if answers then .answered {} [1, 2, 3] else .panicked
  date := []
  tree := .empty 0

def requestFor (path : Text) : Bytes :=
  Utf8.encode ("GET ".toList ++ path ++ " HTTP/1.0\n\n".toList)

/-- Two clients share a worker: it moves the second one on first, whose handler breaks down, and
then the first one, whose answer is taken in two parts. -/
def sharedWorker : List ServerMove :=
  let controller (count : Nat) : List ServerMove := .replicate count (.pool .controller)
  let worker (count : Nat) : List ServerMove := .replicate count (.pool (.worker 0))
  let loop (count : Nat) : List ServerMove := .replicate count (.loop true)
  List.flatten [[.arrive 0 7, .arrive 0 8], loop 1, [.poll [Token.listener 0]], loop 2,
    [.pool .raise], controller 6, worker 5, [.accept 0, .accept 0, .acceptEnd 0], loop 5,
    [.poll [SlotId.token ⟨0, 0⟩, SlotId.token ⟨1, 0⟩]], loop 2, worker 4, controller 4, worker 3,
    [.step 0 ⟨.data (requestFor "/b".toList), [], []⟩], worker 4, controller 6, worker 3,
    [.step 0 ⟨.data (requestFor "/a".toList), [], []⟩], loop 6, [.poll [SlotId.token ⟨0, 0⟩]],
    loop 1, worker 4, controller 6, worker 3,
    [.step 0 ⟨.wouldBlock, [.accepted 100, .interrupted, .accepted 1000, .accepted 5], []⟩]]

end SiteServer.Server
