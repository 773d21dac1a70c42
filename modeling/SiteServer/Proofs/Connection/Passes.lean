import SiteServer.Proofs.Connection.Transfers

/-!
# Streaming a file, pass by pass

From balanced books every pass of the loop that streams a file comes to something, whatever the
calls come to, and leaves the books balanced (`exists_pass`).  `Does` says what is known of its
calls: what a read asks for and gives, what a write offers, and that before another pass each call
was interrupted or has moved bytes.  What `FileBody.send` comes to is what comes of one pass after
the other.
-/

namespace SiteServer

/-! ### Sending, read by read -/

namespace FileBody

lemma readLimit_pos_of_upTo {reads : List ReadOutcome}
    (h : ∀ limit, .upTo limit ∈ reads → 0 < limit) : 0 < readLimit reads := by
  rcases reads with _ | ⟨limit | _ | _, rest⟩
  · simp [readLimit, chunkSize]
  · exact h limit List.mem_cons_self
  · simp [readLimit, chunkSize]
  · simp [readLimit, chunkSize]

/-- With nothing left of the chunk, sending begins with a read. -/
lemma send_of_pending_eq_nil {body : FileBody} (h : body.pending = []) (content : Content)
    (length : Nat) (wire : Wire) (reads : List ReadOutcome) (writes : List WriteOutcome) :
    body.send content length wire reads writes = pump content length body wire reads writes := by
  simp [send, h, deliver, advance]

variable {content : Content} {length : Nat} {body : FileBody} {reads : List ReadOutcome}

lemma pump_of_le (hread : length ≤ body.read) (wire : Wire) (reads : List ReadOutcome)
    (writes : List WriteOutcome) :
    pump content length body wire reads writes = ⟨body, wire, .complete⟩ := by
  rw [pump.eq_def, if_pos hread]

lemma pump_failed (hread : body.read < length) (wire : Wire) (rest : List ReadOutcome)
    (writes : List WriteOutcome) :
    pump content length body wire (.failed :: rest) writes = ⟨body, wire, .failed⟩ := by
  rw [pump.eq_def, if_neg (Nat.not_le.2 hread)]

lemma pump_interrupted (hread : body.read < length) (wire : Wire) (rest : List ReadOutcome)
    (writes : List WriteOutcome) :
    pump content length body wire (.interrupted :: rest) writes
      = pump content length body wire rest writes := by
  rw [pump.eq_def, if_neg (Nat.not_le.2 hread)]

/-- The file ends before `length` bytes have been read. -/
lemma pump_of_nothing (hread : body.read < length)
    (hinterrupted : ∀ rest, reads ≠ .interrupted :: rest)
    (hchunk : body.nextChunk content length (readLimit reads) = []) (wire : Wire)
    (writes : List WriteOutcome) :
    pump content length body wire reads writes = ⟨body, wire, .failed⟩ := by
  rw [pump.eq_def, if_neg (Nat.not_le.2 hread)]
  rcases reads with _ | ⟨limit | _ | _, rest⟩ <;> simp_all

/-- A chunk that has been read is the one that is sent. -/
lemma pump_of_chunk (hread : body.read < length) (hfailed : ∀ rest, reads ≠ .failed :: rest)
    (hinterrupted : ∀ rest, reads ≠ .interrupted :: rest)
    (hchunk : body.nextChunk content length (readLimit reads) ≠ []) (wire : Wire)
    (writes : List WriteOutcome) :
    pump content length body wire reads writes
      = (body.refill (body.nextChunk content length (readLimit reads))).send content length wire
          reads.tail writes := by
  rw [pump.eq_def, if_neg (Nat.not_le.2 hread)]
  simp only [send, Tracks.pending_refill]
  rcases reads with _ | ⟨limit | _ | _, rest⟩ <;> simp_all

end FileBody

/-! ### One pass -/

open FileBody (chunkSize)

/-- What may be called behind the calls `front`, when the first `length` bytes of a file are
sent. -/
inductive Follows (content : Content) (length : Nat) (front : List StreamCall)
    (call : StreamCall) : Prop
  /-- When all that has been read has been taken, the bytes that come next are asked for. -/
  | read (asked : Nat) (result : Except Refusal Bytes) (hcall : call = .read asked result)
    (hall : takenBy front = givenBy front)
    (hasked : asked = min (length - (givenBy front).length) chunkSize) (hpos : 0 < asked)
    (hresult : ∀ bytes, result = .ok bytes →
      ∃ count ≤ asked, bytes = content.slice (givenBy front).length count)
  /-- What has been read and has not been taken is offered. -/
  | write (left : Bytes) (hleft : givenBy front = takenBy front ++ left)
    (hoffers : call.Offers left)

namespace Transfer

/-- What sending comes to when it goes on from a transfer. -/
def rest (content : Content) (length inode : Nat) (wire : Wire) (t : Transfer) : Streamed :=
  (t.window.body inode).send content length (wire ++ takenBy t.calls) t.reads t.writes

end Transfer

/-- What sending comes to when it goes on behind a pass. -/
def Pass.rest (content : Content) (length inode : Nat) (wire : Wire) : Pass → Streamed
  | .again next => next.rest content length inode wire
  | .returned flow last => ⟨last.window.body inode, wire ++ takenBy last.calls, flow⟩

namespace Transfer

/-- What is still to be done at most: bytes that are to be read or written, and reads whose outcome
is settled. -/
def toGo (length : Nat) (t : Transfer) : Nat :=
  (length - t.window.read) + (t.window.filled - t.window.position) + t.reads.length

/-- A pass that makes the calls `more`. -/
structure Does (content : Content) (length : Nat) (t : Transfer) (more : List StreamCall)
    (pass : Pass) : Prop where
  calls_eq : pass.transfer.calls = t.calls ++ more
  follows : ∀ front call back, more = front ++ call :: back →
    Follows content length (t.calls ++ front) call
  /-- A read gives nothing at the end of the file only, unless it is told to give nothing. -/
  ends : (∀ limit, .upTo limit ∈ t.reads → 0 < limit) →
    ∀ front asked back, more = front ++ .read asked (.ok []) :: back →
      content.size ≤ (givenBy (t.calls ++ front)).length
  /-- Before another pass there is a call, and each one is interrupted or moves bytes. -/
  goes_on : ∀ next, pass = .again next → more ≠ [] ∧ ∀ call ∈ more, call.isIdle = false
  toGo_lt : ∀ next, pass = .again next → next.toGo length < t.toGo length
  /-- Sending goes on as it should. -/
  rest_eq : ∀ inode wire, t.rest content length inode wire = pass.rest content length inode wire

variable {content : Content} {length : Nat} {t : Transfer} {delivery : Delivery}
  {written : Written}

/-- Writing calls as it should. -/
lemma Balanced.follows_wrote (h : Balanced length t) (content : Content)
    (hdelivers : Delivers (t.window.buffer.take t.window.filled) t.window.position delivery written)
    (front : List StreamCall) (call : StreamCall) (back : List StreamCall)
    (heq : written.calls = front ++ call :: back) :
    Follows content length (t.calls ++ front) call := by
  refine .write _ ?_ (hdelivers.offers front call back heq)
  rw [givenBy_append, hdelivers.givenBy_front_eq_nil heq, List.append_nil, takenBy_append,
    List.append_assoc, hdelivers.takenBy_front_append heq, h.given_eq, Window.pending]

/-- Sending begins with what is left of the chunk. -/
lemma Balanced.rest_wrote (h : Balanced length t) (content : Content)
    (hdelivers : Delivers (t.window.buffer.take t.window.filled) t.window.position
      (deliver (t.window.filled - t.window.position) t.writes) written)
    (inode : Nat) (wire : Wire) :
    t.rest content length inode wire
      = (Pass.behind (t.wrote written) written.flow).rest content length inode wire := by
  have hpending : (t.window.body inode).pending = t.window.pending := rfl
  have hbody : (t.wrote written).window.body inode = (t.window.body inode).advance
      (deliver (t.window.filled - t.window.position) t.writes).count := by
    simp [Transfer.wrote, Window.body, FileBody.advance, hdelivers.offset_eq]
  have hwire : wire ++ takenBy t.calls
      ++ t.window.pending.take (deliver (t.window.filled - t.window.position) t.writes).count
      = wire ++ takenBy (t.wrote written).calls := by
    apply Array.ext'
    simp [Transfer.wrote, hdelivers.taken_eq, Window.pending]
  rw [Transfer.rest, FileBody.send, hpending, h.length_pending, hdelivers.flow_eq]
  simp only [hwire, ← hbody]
  cases hflow : (deliver (t.window.filled - t.window.position) t.writes).flow with
  | blocked => rfl
  | failed => rfl
  | complete =>
    have hcount : (deliver (t.window.filled - t.window.position) t.writes).count
        = t.window.filled - t.window.position := (flow_deliver_eq_complete_iff _ _).1 hflow
    have hnil : ((t.wrote written).window.body inode).pending = [] := by
      rw [hbody, FileBody.Tracks.pending_advance, hpending, hcount, ← h.length_pending,
        List.drop_length]
    rw [Pass.behind, Pass.rest, Transfer.rest, FileBody.send_of_pending_eq_nil hnil]
    rw [← hdelivers.writes_eq]
    rfl

lemma writeOut?_eq (h : Balanced length t) :
    t.writeOut? = some (.behind
      (t.wrote (writeFrom (t.window.buffer.take t.window.filled) t.window.position t.writes))
      (writeFrom (t.window.buffer.take t.window.filled) t.window.position t.writes).flow) := by
  rw [writeOut?, if_pos (h.length_buffer ▸ h.filled_le)]

/-- Writing what is left always comes to something. -/
lemma exists_writeOut (h : Balanced length t) (content : Content)
    (hlt : t.window.position < t.window.filled) :
    ∃ pass more, t.writeOut? = some pass ∧ Balanced length pass.transfer
      ∧ Does content length t more pass := by
  have hdelivers := delivers_writeFrom (t.window.buffer.take t.window.filled) t.window.position
    t.writes (h.length_take.symm ▸ h.position_le)
  have hcount := count_deliver_le (t.window.filled - t.window.position) t.writes
  rw [h.length_take] at hdelivers
  rw [writeOut?_eq h]
  generalize writeFrom (t.window.buffer.take t.window.filled) t.window.position t.writes = written
    at hdelivers
  refine ⟨_, written.calls, rfl, ?_, ?_, ?_, ?_, ?_, ?_, ?_⟩
  · rw [Pass.transfer_behind]
    exact h.wrote hdelivers hcount
  · rw [Pass.transfer_behind]
    rfl
  · exact h.follows_wrote content hdelivers
  · intro _ front asked back heq
    obtain ⟨-, result, hcall, -⟩ := hdelivers.offers front _ back heq
    cases hcall
  · intro next hagain
    obtain ⟨hflow, -⟩ := Pass.again_eq_behind_iff.1 hagain
    exact ⟨hdelivers.calls_ne_nil (h.length_take.symm ▸ hlt),
      hdelivers.not_idle (hdelivers.flow_eq ▸ hflow)⟩
  · rintro next hagain
    obtain ⟨hflow, rfl⟩ := Pass.again_eq_behind_iff.1 hagain
    have hall := (flow_deliver_eq_complete_iff _ _).1 (hdelivers.flow_eq ▸ hflow)
    simp only [toGo, Transfer.wrote, hdelivers.offset_eq, hall]
    omega
  · exact h.rest_wrote content hdelivers

/-- What a read may ask for when all has been written. -/
lemma Balanced.follows_read (h : Balanced length t)
    (hposition : t.window.position = t.window.filled) (hread : t.window.read < length)
    {result : Except Refusal Bytes}
    (hresult : ∀ bytes, result = .ok bytes →
      ∃ count ≤ min (length - t.window.read) chunkSize, bytes = content.slice t.cursor count) :
    Follows content length t.calls (.read (min (length - t.window.read) chunkSize) result) := by
  refine .read _ result rfl ?_ (by rw [h.length_given]) ?_ hresult
  · rw [h.given_eq, h.pending_eq_nil hposition, List.append_nil]
  · simp only [chunkSize]
    omega

namespace Does

variable {next : Transfer} {call : StreamCall} {more : List StreamCall} {pass : Pass}

/-- A pass that returns without a call. -/
lemma nothing {flow : Flow}
    (hrest : ∀ inode wire, t.rest content length inode wire
      = (Pass.returned flow t).rest content length inode wire) :
    Does content length t [] (.returned flow t) where
  calls_eq := by simp [Pass.transfer]
  follows := by simp
  ends := by simp
  goes_on := by simp
  toGo_lt := by simp
  rest_eq := hrest

/-- A pass with one call. -/
lemma one (hcalls : pass.transfer.calls = t.calls ++ [call])
    (hfollows : Follows content length t.calls call)
    (hends : (∀ limit, .upTo limit ∈ t.reads → 0 < limit) →
      ∀ asked, call = .read asked (.ok []) → content.size ≤ (givenBy t.calls).length)
    (hgoes : ∀ next, pass = .again next →
      call.isIdle = false ∧ next.toGo length < t.toGo length)
    (hrest : ∀ inode wire, t.rest content length inode wire
      = pass.rest content length inode wire) :
    Does content length t [call] pass where
  calls_eq := hcalls
  follows := by
    intro front other back heq
    obtain ⟨rfl, rfl, rfl⟩ := only_call heq
    simpa using hfollows
  ends := by
    intro hreads front asked back heq
    obtain ⟨rfl, hcall, rfl⟩ := only_call heq
    simpa using hends hreads asked hcall.symm
  goes_on := fun next hagain => ⟨by simp, by simpa using (hgoes next hagain).1⟩
  toGo_lt := fun next hagain => (hgoes next hagain).2
  rest_eq := hrest

/-- A read before the other calls. -/
lemma read (h : Does content length next more pass) (hcalls : next.calls = t.calls ++ [call])
    (hfollows : Follows content length t.calls call) (hidle : call.isIdle = false)
    (hreads : ∀ outcome ∈ next.reads, outcome ∈ t.reads)
    (hle : next.toGo length ≤ t.toGo length)
    (hrest : ∀ inode wire, t.rest content length inode wire
      = next.rest content length inode wire) :
    Does content length t (call :: more) pass where
  calls_eq := by rw [h.calls_eq, hcalls, List.append_assoc, List.singleton_append]
  follows := by
    rintro (_ | ⟨first, front⟩) other back heq
    · obtain ⟨rfl, -⟩ := List.cons.inj heq
      simpa using hfollows
    · obtain ⟨rfl, hmore⟩ := List.cons.inj heq
      simpa [hcalls] using h.follows front other back hmore
  ends := by
    rintro hlimits (_ | ⟨first, front⟩) asked back heq
    · obtain ⟨rfl, -⟩ := List.cons.inj heq
      cases hidle
    · obtain ⟨rfl, hmore⟩ := List.cons.inj heq
      simpa [hcalls] using
        h.ends (fun limit hlimit => hlimits limit (hreads _ hlimit)) front asked back hmore
  goes_on := by
    intro last hagain
    obtain ⟨-, hmore⟩ := h.goes_on last hagain
    exact ⟨by simp, List.forall_mem_cons.2 ⟨hidle, hmore⟩⟩
  toGo_lt := fun last hagain => Nat.lt_of_lt_of_le (h.toGo_lt last hagain) hle
  rest_eq := fun inode wire => (hrest inode wire).trans (h.rest_eq inode wire)

end Does

/-- With nothing left of the chunk, sending goes on with a read. -/
lemma Balanced.rest_eq_pump (h : Balanced length t)
    (hposition : t.window.position = t.window.filled) (content : Content) (inode : Nat)
    (wire : Wire) :
    t.rest content length inode wire = FileBody.pump content length (t.window.body inode)
      (wire ++ takenBy t.calls) t.reads t.writes := by
  have hpending : (t.window.body inode).pending = [] := h.pending_eq_nil hposition
  exact FileBody.send_of_pending_eq_nil hpending content length _ t.reads t.writes

/-- A read that gives nothing is the end. -/
lemma Balanced.does_read_nothing (h : Balanced length t)
    (hposition : t.window.position = t.window.filled) (hread : t.window.read < length)
    (hinterrupted : ∀ rest, t.reads ≠ .interrupted :: rest)
    (hnothing : content.slice t.cursor
      (min (min (length - t.window.read) chunkSize) (FileBody.readLimit t.reads)) = []) :
    Does content length t [.read (min (length - t.window.read) chunkSize) (.ok [])]
      (.returned .failed
        (t.asked (min (length - t.window.read) chunkSize) (.ok [], t.reads.tail))) := by
  have hfollows : Follows content length t.calls
      (.read (min (length - t.window.read) chunkSize) (.ok [])) := by
    refine h.follows_read hposition hread fun bytes hbytes => ?_
    obtain rfl := Except.ok.inj hbytes
    exact ⟨_, Nat.min_le_left _ _, hnothing.symm⟩
  refine .one rfl hfollows ?_ (by simp) fun inode wire => ?_
  · intro hlimits asked hcall
    have hlimit := FileBody.readLimit_pos_of_upTo hlimits
    have hlength := congrArg List.length hnothing
    rw [Content.length_slice, List.length_nil] at hlength
    simp only [Transfer.cursor, chunkSize] at hlength
    omega
  · have hchunk : (t.window.body inode).nextChunk content length (FileBody.readLimit t.reads)
        = [] := by
      rw [← hnothing, Transfer.cursor, h.length_given]
      rfl
    rw [h.rest_eq_pump hposition, FileBody.pump_of_nothing hread hinterrupted hchunk]
    simp [Pass.rest, Transfer.asked, StreamCall.taken]

/-- A read that gives something leads to writing. -/
lemma exists_read_some (h : Balanced length t) (content : Content)
    (hposition : t.window.position = t.window.filled) (hread : t.window.read < length)
    (hinterrupted : ∀ rest, t.reads ≠ .interrupted :: rest)
    (hfailed : ∀ rest, t.reads ≠ .failed :: rest) {bytes : Bytes} (hsome : bytes ≠ [])
    (hbytes : bytes = content.slice t.cursor
      (min (min (length - t.window.read) chunkSize) (FileBody.readLimit t.reads))) :
    ∃ pass more,
      { t.asked (min (length - t.window.read) chunkSize) (.ok bytes, t.reads.tail) with
        window := t.window.fill bytes }.writeOut? = some pass
      ∧ Balanced length pass.transfer ∧ Does content length t more pass := by
  have hcount : bytes.length ≤ min (length - t.window.read) chunkSize := by
    rw [hbytes, Content.length_slice]
    omega
  have hpositive := List.length_pos_iff.2 hsome
  have hfilled : Balanced length
      { t.asked (min (length - t.window.read) chunkSize) (.ok bytes, t.reads.tail) with
        window := t.window.fill bytes } := h.filled hposition hcount
  obtain ⟨pass, more, hpass, hbalanced, hdoes⟩ := exists_writeOut hfilled content hpositive
  refine ⟨pass, _, hpass, hbalanced, hdoes.read rfl ?_ (StreamCall.isIdle_read hsome)
    (fun outcome => List.mem_of_mem_tail) ?_ fun inode wire => ?_⟩
  · refine h.follows_read hposition hread fun other hother => ?_
    obtain rfl := Except.ok.inj hother
    exact ⟨_, Nat.min_le_left _ _, hbytes⟩
  · simp only [toGo, Transfer.asked, Window.fill, List.length_tail]
    omega
  · have hchunk : (t.window.body inode).nextChunk content length (FileBody.readLimit t.reads)
        = bytes := by
      rw [hbytes, Transfer.cursor, h.length_given]
      rfl
    rw [h.rest_eq_pump hposition, FileBody.pump_of_chunk hread hfailed hinterrupted
      (by rwa [hchunk]), hchunk]
    simp [Transfer.rest, Transfer.asked, StreamCall.taken]

/-- With bytes left to be sent, nothing falls below zero when a read is prepared. -/
lemma pass?_of_lt (h : Balanced length t) (content : Content)
    (hposition : t.window.position = t.window.filled) (hread : t.window.read < length) :
    t.pass? content length = t.readIn? content (min (length - t.window.read) chunkSize) := by
  rw [pass?, if_pos hposition, if_neg (Nat.not_le.2 hread), Nat.psub_eq_sub (Nat.le_of_lt hread),
    Option.bind_some, h.length_buffer]

/-- With some bytes read, they are written. -/
lemma readIn?_of_some {size : Nat} {bytes : Bytes} {reads : List ReadOutcome}
    (hnext : nextRead content t.cursor size t.reads = (.ok bytes, reads)) (hsome : bytes ≠ [])
    (hcount : t.window.read + bytes.length < 2 ^ 64) :
    t.readIn? content size
      = { t.asked size (.ok bytes, reads) with window := t.window.fill bytes }.writeOut? := by
  rw [readIn?, hnext]
  simp only [hsome, if_false, hcount, if_true]

/-- A pass with a read comes to something. -/
lemma exists_readIn (hlength : length < 2 ^ 64) (h : Balanced length t) (content : Content)
    (hposition : t.window.position = t.window.filled) (hread : t.window.read < length) :
    ∃ pass more, t.readIn? content (min (length - t.window.read) chunkSize) = some pass
      ∧ Balanced length pass.transfer ∧ Does content length t more pass := by
  rcases nextRead_cases content t.cursor t.reads
      (Nat.min_le_right (length - t.window.read) chunkSize) with
    ⟨rest, hreads, hnext⟩ | ⟨rest, hreads, hnext⟩ | ⟨hinterrupted, hfailed, hnext⟩
  · -- the read is interrupted, and the next pass reads again
    rw [readIn?, hnext]
    refine ⟨_, _, rfl, h.asked rfl, .one rfl (h.follows_read hposition hread (by simp))
      (by simp) ?_ fun inode wire => ?_⟩
    · intro next hagain
      obtain rfl := Pass.again.inj hagain
      exact ⟨rfl, by simp [toGo, Transfer.asked, hreads]⟩
    rw [h.rest_eq_pump hposition, Pass.rest, (h.asked rfl).rest_eq_pump hposition, hreads,
      FileBody.pump_interrupted hread]
    simp [Transfer.asked, StreamCall.taken]
  · rw [readIn?, hnext]
    refine ⟨_, _, rfl, h.asked rfl, .one rfl (h.follows_read hposition hread (by simp))
      (by simp) (by simp) fun inode wire => ?_⟩
    rw [h.rest_eq_pump hposition, hreads, FileBody.pump_failed hread]
    simp [Pass.rest, Transfer.asked, StreamCall.taken]
  · generalize hbytes : content.slice t.cursor
      (min (min (length - t.window.read) chunkSize) (FileBody.readLimit t.reads)) = bytes at hnext
    by_cases hsome : bytes = []
    · rw [readIn?, hnext, hsome]
      exact ⟨_, _, rfl, h.asked rfl,
        h.does_read_nothing hposition hread hinterrupted (hbytes.trans hsome)⟩
    · have hcount : t.window.read + bytes.length < 2 ^ 64 := by
        rw [← hbytes, Content.length_slice]
        omega
      rw [readIn?_of_some hnext hsome hcount]
      exact exists_read_some h content hposition hread hinterrupted hfailed hsome hbytes.symm

/-- Every pass comes to something: no number leaves its range, and no slice its buffer. -/
lemma exists_pass (hlength : length < 2 ^ 64) (h : Balanced length t) (content : Content) :
    ∃ pass more, t.pass? content length = some pass ∧ Balanced length pass.transfer
      ∧ Does content length t more pass := by
  by_cases hposition : t.window.position = t.window.filled
  · rcases Nat.lt_or_ge t.window.read length with hread | hread
    · rw [pass?_of_lt h content hposition hread]
      exact exists_readIn hlength h content hposition hread
    · rw [pass?, if_pos hposition, if_pos hread]
      refine ⟨_, [], rfl, h, .nothing fun inode wire => ?_⟩
      rw [h.rest_eq_pump hposition, FileBody.pump_of_le hread]
      rfl
  · rw [pass?, if_neg hposition]
    exact exists_writeOut h content (Nat.lt_of_le_of_ne h.position_le hposition)

end Transfer

end SiteServer
