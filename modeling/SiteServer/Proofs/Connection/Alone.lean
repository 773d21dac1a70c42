import SiteServer.Proofs.Connection.Exactness

/-!
# A connection alone

While the files stay as they are, what a connection sends depends on nothing but what it has read
and the day on which it has been answered.  `Surroundings.sends` are these bytes; whatever a client
does, a beginning of them is on the wire, and when the client keeps reading, all of them once the
connection has been closed (`wire_of_read`).  `SentAlone` says that a connection sends some bytes
which is moved on by such a client alone, from its first read to its end; there is always one such
byte string, and only one (`sentAlone_iff`).
-/

namespace SiteServer

/-! ### Obliging partners -/

/-- A write that does not fail; one that takes nothing counts as failed. -/
def WriteOutcome.IsObliging : WriteOutcome → Prop
  | .failed | .accepted 0 => False
  | _ => True

/-- A read that does not fail; one that gives nothing counts as failed. -/
def ReadOutcome.IsObliging : ReadOutcome → Prop
  | .failed | .upTo 0 => False
  | _ => True

/-- The client stays connected and reads, and the file can be read. -/
structure Turn.IsObliging (turn : Turn) : Prop where
  writes : ∀ write ∈ turn.writes, write.IsObliging
  reads : ∀ read ∈ turn.reads, read.IsObliging

/-- The connection has been closed, or its handler has broken down. -/
def StepResult.IsEnd : StepResult → Prop
  | .wait _ => False
  | .done _ | .panicked => True

lemma flow_deliver_ne_failed (size : Nat) {writes : List WriteOutcome}
    (h : ∀ write ∈ writes, write.IsObliging) : (deliver size writes).flow ≠ .failed := by
  fun_induction deliver size writes <;> simp_all [Delivery.add, WriteOutcome.IsObliging]

lemma writes_deliver_subset (size : Nat) (writes : List WriteOutcome) :
    (deliver size writes).writes ⊆ writes := by
  fun_induction deliver size writes <;>
    simp_all [Delivery.add, List.subset_cons_of_subset]

/-- A socket takes all that it is offered. -/
lemma deliver_of_le {size limit : Nat} (hpos : 0 < size) (hle : size ≤ limit)
    (rest : List WriteOutcome) :
    deliver size (.accepted limit :: rest) = ⟨size, .complete, rest⟩ := by
  obtain ⟨size, rfl⟩ := Nat.exists_eq_add_of_lt hpos
  obtain ⟨limit, rfl⟩ := Nat.exists_eq_add_of_lt (Nat.lt_of_lt_of_le hpos hle)
  have hleft : size - limit = 0 := by omega
  have hmin : min limit size = size := by omega
  simp [deliver, Delivery.add, hleft, hmin]

namespace FileBody

variable {content : Content} {length : Nat} {body : FileBody} {wire : Wire}
  {reads : List ReadOutcome} {writes : List WriteOutcome}

lemma inode_pump : (body.pump content length wire reads writes).body.inode = body.inode := by
  fun_induction pump content length body wire reads writes with
  | case5 body wire writes hleft reads _ _ chunk hchunk delivery next wire' hflow ih => exact ih
  | case3 body wire writes hleft rest ih => exact ih
  | _ => rfl

lemma inode_send : (body.send content length wire reads writes).body.inode = body.inode := by
  simp only [send]
  split
  · exact inode_pump
  · rfl

lemma isPrefix_wire_pump :
    wire.toList <+: (body.pump content length wire reads writes).wire.toList := by
  fun_induction pump content length body wire reads writes with
  | case1 => exact List.prefix_refl _
  | case2 => exact List.prefix_refl _
  | case3 body wire writes hleft rest ih => exact ih
  | case4 => exact List.prefix_refl _
  | case5 body wire writes hleft reads _ _ chunk hchunk delivery next wire' hflow ih =>
    exact List.IsPrefix.trans (by simp [wire']) ih
  | case6 body wire writes hleft reads _ _ chunk hchunk delivery next wire' hflow => simp [wire']

lemma isPrefix_wire_send :
    wire.toList <+: (body.send content length wire reads writes).wire.toList := by
  simp only [send]
  split
  · exact List.IsPrefix.trans (by simp) isPrefix_wire_pump
  · simp

lemma nextChunk_ne_nil (hlength : length ≤ content.size) (hleft : ¬ length ≤ body.read)
    {limit : Nat} (hlimit : 0 < limit) : body.nextChunk content length limit ≠ [] := by
  rw [← List.length_pos_iff, nextChunk, Content.length_slice, chunkSize]
  omega

lemma length_nextChunk_le (body : FileBody) (content : Content) (length limit : Nat) :
    (body.nextChunk content length limit).length ≤ chunkSize := by
  rw [nextChunk, Content.length_slice]
  omega

lemma readLimit_pos (h : ∀ read ∈ reads, read.IsObliging) : 0 < readLimit reads := by
  unfold readLimit
  split
  · next limit rest =>
    have hread := h _ List.mem_cons_self
    cases limit with
    | zero => exact hread.elim
    | succ limit => exact Nat.zero_lt_succ _
  · simp [chunkSize]

lemma flow_pump_ne_failed (hlength : length ≤ content.size)
    (hreads : ∀ read ∈ reads, read.IsObliging) (hwrites : ∀ write ∈ writes, write.IsObliging) :
    (body.pump content length wire reads writes).flow ≠ .failed := by
  fun_induction pump content length body wire reads writes with
  | case1 => simp
  | case2 body wire writes hleft rest => exact (hreads _ List.mem_cons_self).elim
  | case3 body wire writes hleft rest ih =>
    exact ih (fun read hread => hreads read (List.mem_cons_of_mem _ hread)) hwrites
  | case4 body wire writes hleft reads _ _ chunk hchunk =>
    exact absurd hchunk (nextChunk_ne_nil hlength hleft (readLimit_pos hreads))
  | case5 body wire writes hleft reads _ _ chunk hchunk delivery next wire' hflow ih =>
    exact ih (fun read hread => hreads read (List.mem_of_mem_tail hread))
      fun write hwrite => hwrites write (writes_deliver_subset _ _ hwrite)
  | case6 body wire writes hleft reads _ _ chunk hchunk delivery next wire' hflow =>
    exact flow_deliver_ne_failed _ hwrites

lemma flow_send_ne_failed (hlength : length ≤ content.size)
    (hreads : ∀ read ∈ reads, read.IsObliging) (hwrites : ∀ write ∈ writes, write.IsObliging) :
    (body.send content length wire reads writes).flow ≠ .failed := by
  simp only [send]
  split
  · exact flow_pump_ne_failed hlength hreads
      fun write hwrite => hwrites write (writes_deliver_subset _ _ hwrite)
  · exact flow_deliver_ne_failed _ hwrites

/-- A client that takes all it is offered gets the rest of a file in one go. -/
lemma flow_pump_of_accepted (hlength : length ≤ content.size) {limit : Nat}
    (hlimit : chunkSize ≤ limit) (count : Nat) (hcount : length ≤ body.read + count) :
    (body.pump content length wire [] (List.replicate count (.accepted limit))).flow
      = .complete := by
  induction count generalizing body wire with
  | zero =>
    rw [pump.eq_def, if_pos (by simpa using hcount)]
  | succ count ih =>
    by_cases hdone : length ≤ body.read
    · rw [pump.eq_def, if_pos hdone]
    · have hchunk : body.nextChunk content length (readLimit []) ≠ [] :=
        nextChunk_ne_nil hlength hdone (by simp [readLimit, chunkSize])
      have hpos := List.length_pos_iff.2 hchunk
      have hdeliver := deliver_of_le hpos
        (Nat.le_trans (length_nextChunk_le body content length _) hlimit)
        (List.replicate count (.accepted limit))
      rw [pump.eq_def, if_neg hdone]
      simp only [hchunk, if_false, List.replicate_succ, hdeliver, List.tail_nil]
      refine ih ?_
      rw [read_advance_refill]
      omega

end FileBody

/-! ### What the socket has taken -/

namespace Connection

variable {H : Type} (around : Surroundings H) (reads : List ReadOutcome)
  (writes : List WriteOutcome) (c : Connection)

lemma wire_respond : (c.respond around).1.wire = c.wire := by
  unfold respond
  split
  · rfl
  · split <;> rfl

lemma wire_receive (receipt : Receipt) : (c.receive around receipt).1.wire = c.wire := by
  unfold receive
  split
  · cases receipt with
    | data bytes =>
      simp only
      split
      · rfl
      · split
        · rfl
        · split
          · rfl
          · exact wire_respond around _
    | _ => rfl
  · rfl

lemma wire_afterBody (flow : Flow) : (c.afterBody flow).1.wire = c.wire := by
  cases flow <;> rfl

lemma isPrefix_wire_sendBody :
    c.wire.toList <+: (c.sendBody around reads writes).1.wire.toList := by
  unfold sendBody
  split
  · split
    · simp [wire_afterBody]
    · simpa only [wire_afterBody] using FileBody.isPrefix_wire_send
    · exact List.prefix_refl _
  · exact List.prefix_refl _

lemma isPrefix_wire_startBody (response : Response) :
    c.wire.toList <+: (c.startBody around reads writes response).1.wire.toList := by
  unfold startBody
  split
  · exact isPrefix_wire_sendBody around reads writes { c with file := none, state := .sending }
  · split
    · next inode _ =>
      exact isPrefix_wire_sendBody around reads writes
        { c with file := some { inode }, state := .sending }
    · exact List.prefix_refl _

lemma isPrefix_wire_sendHeader :
    c.wire.toList <+: (c.sendHeader around reads writes).1.wire.toList := by
  unfold sendHeader
  split
  · simp only
    split
    · simp
    · simp [finish]
    · exact List.IsPrefix.trans (by simp) (isPrefix_wire_startBody around reads _ _ _)
  · exact List.prefix_refl _

/-- A step takes nothing back. -/
theorem isPrefix_wire_step (turn : Turn) :
    c.wire.toList <+: (c.step around turn).1.wire.toList := by
  unfold step
  split
  · simp [wire_receive]
  · simp [wire_respond]
  · exact isPrefix_wire_sendHeader around turn.reads turn.writes c
  · exact isPrefix_wire_sendBody around turn.reads turn.writes c
  · exact List.prefix_refl _

end Connection

/-! ### Responses from a tree that stays as it is -/

namespace Response

/-- The bytes that follow the header block; there are none when the body file cannot be opened. -/
def bodyFrom (tree : Tree) (response : Response) : Bytes :=
  match response.body with
  | .data bytes => bytes
  | .file path length =>
    match tree.open? path with
    | .ok inode => (tree.content inode).toList.take length
    | .error _ => []

/-- All bytes of the response. -/
def sentFrom (tree : Tree) (response : Response) : Bytes :=
  response.header ++ response.bodyFrom tree

/-- The bytes at their places in the body file. -/
def Shows (tree : Tree) (response : Response) (i : Nat) (b : UInt8) : Prop :=
  ∃ path length inode, response.body = .file path length ∧ tree.open? path = .ok inode ∧
    (tree.content inode).toList[i]? = some b

/-- The body file is as long as has been announced. -/
def Backed (tree : Tree) (response : Response) : Prop :=
  ∀ path length inode, response.body = .file path length → tree.open? path = .ok inode →
    (tree.content inode).size = length

variable {tree : Tree} {response : Response} {front : Bytes}

lemma isBeginning_of_fits (h : response.body.Fits (response.Shows tree) front) :
    front <+: response.bodyFrom tree := by
  unfold bodyFrom
  cases hbody : response.body with
  | data bytes =>
    rw [hbody] at h
    exact h
  | file path length =>
    rw [hbody] at h
    obtain ⟨hlength, hfaithful⟩ := h
    cases hopen : tree.open? path with
    | ok inode =>
      simp only [hopen]
      refine List.prefix_take_iff.2 ⟨Faithful.isBeginning fun i b hi => ?_, hlength⟩
      obtain ⟨path', length', inode', hbody', hopen', hshown⟩ := hfaithful i b hi
      obtain ⟨rfl, rfl⟩ : path = path' ∧ length = length' := by simpa [hbody] using hbody'
      obtain rfl : inode = inode' := by simpa [hopen] using hopen'
      exact hshown
    | error fault =>
      -- a file that is not opened shows nothing
      cases front with
      | nil => exact List.nil_prefix
      | cons b rest =>
        obtain ⟨path', length', inode', hbody', hopen', -⟩ := hfaithful 0 b rfl
        obtain ⟨rfl, rfl⟩ : path = path' ∧ length = length' := by simpa [hbody] using hbody'
        simp [hopen] at hopen'

lemma length_bodyFrom_le (tree : Tree) (response : Response) :
    (response.bodyFrom tree).length ≤ response.contentLength := by
  unfold bodyFrom contentLength
  cases response.body with
  | data bytes => exact Nat.le_refl _
  | file path length =>
    simp only [Body.length]
    split
    · exact List.length_take_le _ _
    · exact Nat.zero_le _

lemma exists_body_of_filePath? {path : Text} (h : response.filePath? = some path) :
    ∃ length, response.body = .file path length := by
  unfold filePath? at h
  split at h
  · simp at h
  · next length hbody =>
    obtain rfl := Option.some.inj h
    exact ⟨length, hbody⟩

lemma bodyFrom_of_error {fault : Fault}
    (h : response.filePath?.map tree.open? = some (.error fault)) :
    response.bodyFrom tree = [] := by
  obtain ⟨path, hpath, hopen⟩ := Option.map_eq_some_iff.1 h
  obtain ⟨length, hbody⟩ := exists_body_of_filePath? hpath
  simp only [bodyFrom, hbody, hopen]

end Response

namespace Connection

variable {H : Type} {tree : Tree} {response : Response} {c : Connection} {m : Moment H}

/-- The body file has been opened at the path of the response. -/
def HasOpened (tree : Tree) (response : Response) (c : Connection) : Prop :=
  ∀ body, c.file = some body →
    ∃ path length, response.body = .file path length ∧ tree.open? path = .ok body.inode

/-- What a step comes to that sends the response from the tree: the body file is the one that the
response names, and when everybody is `obliging` it does not break off. -/
structure Smooth (tree : Tree) (response : Response) (obliging : Prop)
    (out : Connection × StepResult) : Prop where
  hasOpened : HasOpened tree response out.1
  ne_sendFailed : obliging → out.2 ≠ .done .sendFailed

variable {obliging : Prop} {reads : List ReadOutcome} {writes : List WriteOutcome}
  {around : Surroundings H}

lemma smooth_finish {closing : Closing} (h : obliging → closing ≠ .sendFailed) :
    Smooth tree response obliging (c.finish closing) :=
  ⟨by simp [HasOpened, finish, close], fun ho => by simpa [finish] using h ho⟩

lemma smooth_afterBody (hopened : HasOpened tree response c) {flow : Flow}
    (hflow : obliging → flow ≠ .failed) : Smooth tree response obliging (afterBody flow c) := by
  cases flow with
  | complete => exact smooth_finish (by simp)
  | blocked => exact ⟨hopened, by simp [afterBody]⟩
  | failed => exact smooth_finish fun ho => absurd rfl (hflow ho)

section Sending

variable (hbacked : response.Backed tree) (htree : around.tree = tree)
  (hresponse : c.response = some response)
  (hreads : obliging → ∀ read ∈ reads, read.IsObliging)
  (hwrites : obliging → ∀ write ∈ writes, write.IsObliging)
include hbacked htree hresponse hreads hwrites

lemma smooth_sendBody (hopened : HasOpened tree response c) :
    Smooth tree response obliging (sendBody around reads writes c) := by
  unfold sendBody
  split
  · next found _ hfound =>
    obtain rfl : response = found := by simpa [hresponse] using hfound
    split
    · exact smooth_afterBody (by exact hopened) fun ho => flow_deliver_ne_failed _ (hwrites ho)
    · next path length body hbody hfile =>
      obtain ⟨path', length', hbody', hopen⟩ := hopened body hfile
      have hsize := hbacked path' length' body.inode hbody' hopen
      obtain ⟨rfl, rfl⟩ : path = path' ∧ length = length' := by simpa [hbody] using hbody'
      refine smooth_afterBody ?_ fun ho =>
        FileBody.flow_send_ne_failed (by simp [htree, hsize]) (hreads ho) (hwrites ho)
      rintro _ ⟨⟩
      rw [FileBody.inode_send]
      exact ⟨path, length, hbody, hopen⟩
    · exact smooth_finish (by simp)
  · exact smooth_finish (by simp)

lemma smooth_startBody :
    Smooth tree response obliging (startBody around reads writes response c) := by
  cases hbody : response.body with
  | data bytes =>
    simp only [startBody, Response.filePath?, hbody]
    exact smooth_sendBody hbacked htree hresponse hreads hwrites (by simp [HasOpened])
  | file path length =>
    simp only [startBody, Response.filePath?, hbody, htree]
    split
    · next inode hopen =>
      refine smooth_sendBody hbacked htree hresponse hreads hwrites ?_
      rintro _ ⟨⟩
      exact ⟨path, length, hbody, hopen⟩
    · exact smooth_finish (by simp)

lemma smooth_sendHeader (hopened : HasOpened tree response c) :
    Smooth tree response obliging (sendHeader around reads writes c) := by
  unfold sendHeader
  split
  · next found _ hfound =>
    obtain rfl : response = found := by simpa [hresponse] using hfound
    simp only
    split
    · exact ⟨hopened, by simp⟩
    · next hflow =>
      exact smooth_finish fun ho => absurd hflow (flow_deliver_ne_failed _ (hwrites ho))
    · refine smooth_startBody hbacked htree hresponse hreads fun ho write hwrite => ?_
      exact hwrites ho write (writes_deliver_subset _ _ hwrite)
  · exact smooth_finish (by simp)

end Sending

/-! ### Sending a response alone -/

/-- A connection that sends the response from the tree, or is about to. -/
structure UnderwayFrom (tree : Tree) (response : Response) (c : Connection) : Prop where
  underway : Underway (response.Shows tree) response c
  hasOpened : HasOpened tree response c

lemma UnderwayFrom.smooth (h : UnderwayFrom tree response c) (hbacked : response.Backed tree)
    (htree : m.around.tree = tree) : Smooth tree response m.turn.IsObliging (c.stepAt m) := by
  have hresponse := h.underway.response_eq
  cases h.underway.phase with
  | header hstate =>
    simp only [stepAt, step, hstate]
    exact smooth_sendHeader hbacked htree hresponse (·.reads) (·.writes) h.hasOpened
  | body hstate =>
    simp only [stepAt, step, hstate]
    exact smooth_sendBody hbacked htree hresponse (·.reads) (·.writes) h.hasOpened

/-- A step opens the body file that the response names. -/
lemma UnderwayFrom.filePath?_of_opening? (h : UnderwayFrom tree response c)
    (htree : m.around.tree = tree) {attempt : Except Fault Nat}
    (hattempt : c.opening? m = some attempt) :
    response.filePath?.map tree.open? = some attempt := by
  unfold opening? at hattempt
  split at hattempt
  · next found _ hfound =>
    obtain rfl : response = found := by simpa [h.underway.response_eq] using hfound
    rw [← htree]
    exact (Option.ite_none_right_eq_some.1 hattempt).2
  · simp at hattempt

/-- The file that a step sends from shows nothing else. -/
lemma UnderwayFrom.faithful (h : UnderwayFrom tree response c) (htree : m.around.tree = tree)
    {content : Content} (hcontent : c.streamed? m = some content) :
    Faithful (response.Shows tree) content.toList := by
  intro i b hi
  unfold streamed? at hcontent
  split at hcontent
  · next inode hopening =>
    obtain ⟨path, hpath, hopen⟩ := Option.map_eq_some_iff.1 (h.filePath?_of_opening? htree hopening)
    obtain ⟨length, hbody⟩ := Response.exists_body_of_filePath? hpath
    obtain rfl := Option.some.inj hcontent
    exact ⟨path, length, inode, hbody, hopen, htree ▸ hi⟩
  · simp at hcontent
  · obtain ⟨body, hfile, rfl⟩ := Option.map_eq_some_iff.1 hcontent
    obtain ⟨path, length, hbody, hopen⟩ := h.hasOpened body hfile
    exact ⟨path, length, body.inode, hbody, hopen, htree ▸ hi⟩

lemma isBeginning_of_written {wire : Wire} (h : Written (response.Shows tree) response wire) :
    wire.toList <+: response.sentFrom tree := by
  obtain ⟨front, hfits, hwire⟩ := h
  exact hwire.trans ((List.prefix_append_right_inj _).2 (Response.isBeginning_of_fits hfits))

/-- What is sent while the tree stays as it is: a beginning of the header block and the body, and
all of it when everybody is obliging and the connection has been closed. -/
theorem UnderwayFrom.sends (run : List (Moment H)) (h : UnderwayFrom tree response c)
    (hbacked : response.Backed tree) (htree : ∀ m ∈ run, m.around.tree = tree) :
    (c.after run).wire.toList <+: response.sentFrom tree ∧
      ((∀ m ∈ run, m.turn.IsObliging) → (∃ result ∈ c.results run, result.IsEnd) →
        (c.after run).wire.toList = response.sentFrom tree) := by
  -- along the run, until a step closes the connection
  induction run generalizing c with
  | nil => exact ⟨isBeginning_of_written h.underway.written, by simp [results, trace]⟩
  | cons m rest ih =>
    have hm := htree m (by simp)
    have hstep := h.underway.stepped m fun content => h.faithful hm
    have hsmooth := h.smooth hbacked hm
    have hopening : ∀ attempt, c.opening? m = some attempt →
        response.filePath?.map tree.open? = some attempt := fun _ => h.filePath?_of_opening? hm
    rw [results_cons, after]
    generalize c.stepAt m = next at hstep hsmooth ⊢
    cases hstep with
    | goesOn hattempt hnext =>
      obtain ⟨hbegins, hall⟩ := ih ⟨hnext, hsmooth.hasOpened⟩ fun m hm => htree m (by simp [hm])
      refine ⟨hbegins, fun hobliging hdone => hall (fun m hm => hobliging m (by simp [hm])) ?_⟩
      simpa [StepResult.IsEnd] using hdone
    | @sent c hattempt hwritten hsize =>
      have hbegins := isBeginning_of_written hwritten
      simp only [finish, after_close, wire_close]
      refine ⟨hbegins, fun _ _ => hbegins.eq_of_length_le ?_⟩
      have hle := response.length_bodyFrom_le tree
      rw [fullSize, ← Array.length_toList] at hsize
      rw [Response.sentFrom, List.length_append]
      omega
    | @broken c hattempt hwritten hsize =>
      simp only [finish, after_close, wire_close]
      refine ⟨isBeginning_of_written hwritten, fun hobliging => ?_⟩
      exact absurd rfl (hsmooth.ne_sendFailed (hobliging m (by simp)))
    | @unopened c fault hattempt hwire =>
      have hbody := Response.bodyFrom_of_error (hopening _ hattempt)
      simp only [finish, after_close, wire_close, Response.sentFrom, hbody, hwire,
        List.append_nil]
      exact ⟨List.prefix_refl _, fun _ _ => trivial⟩

end Connection

/-! ### The answer to a request -/

namespace Site

variable {H : Type} {site : Site H} {ask : H → Handler} {date requested path : Text} {tree : Tree}
  {params : List Param} {response : Response} {size : Nat}

/-- The date of an answer is all that depends on the date. -/
lemma answer_date (site : Site H) (ask : H → Handler) (date date' : Text) (tree : Tree)
    (requested : Text) (params : List Param) :
    site.answer ask date' tree requested params
      = (site.answer ask date tree requested params).map fun response =>
          { response with date := date' } := by
  unfold answer
  simp only
  split
  · split <;> rfl
  · unfold fileAnswer
    split
    · unfold errorPage
      split <;> rfl
    · split
      · rfl
      · rfl
      · unfold directoryAnswer
        simp only
        split
        · rfl
        · split <;> rfl

lemma size_of_stat {info : Info} {inode : Nat} (h : tree.stat path = .ok info)
    (hkind : info.kind = .file inode size) : (tree.content inode).size = size := by
  unfold Tree.stat at h
  split at h
  · simp at h
  · split at h
    · simp at h
    · simp only at h
      split at h
      · obtain rfl := Except.ok.inj h
        obtain ⟨rfl, rfl⟩ := Kind.file.inj hkind
        rfl
      · obtain rfl := Except.ok.inj h
        simp at hkind
      · obtain rfl := Except.ok.inj h
        simp at hkind
      · simp at h

lemma stat_of_directoryAnswer (h : site.directoryAnswer date tree path requested = .ok response)
    {file : Text} (hbody : response.body = .file file size) :
    ∃ info inode, tree.stat file = .ok info ∧ info.kind = .file inode size := by
  unfold directoryAnswer at h
  simp only at h
  split at h
  · next inode _ _ _ _ hstat =>
    obtain rfl := Except.ok.inj h
    obtain ⟨rfl, rfl⟩ := Body.file.inj hbody
    exact ⟨_, inode, hstat, rfl⟩
  · split at h
    · obtain rfl := Except.ok.inj h
      simp at hbody
    · obtain rfl := Except.ok.inj h
      simp [ErrorPage.forbidden] at hbody
    · simp at h

/-- A body lies in a file of the tree. -/
lemma stat_of_answer (h : site.answer ask date tree requested params = .ok response)
    (hbody : response.body = .file path size) :
    ∃ info inode, tree.stat path = .ok info ∧ info.kind = .file inode size := by
  unfold answer at h
  simp only at h
  split at h
  · split at h
    · obtain rfl := Except.ok.inj h
      simp [handled] at hbody
    · obtain rfl := Except.ok.inj h
      simp [ErrorPage.notFound] at hbody
    · simp at h
  · unfold fileAnswer at h
    split at h
    · obtain rfl := Except.ok.inj h
      unfold errorPage at hbody
      split at hbody <;> simp [ErrorPage.forbidden, ErrorPage.notFound] at hbody
    · next info hstat =>
      split at h
      · next inode size' hkind =>
        obtain rfl := Except.ok.inj h
        obtain ⟨rfl, rfl⟩ := Body.file.inj hbody
        exact ⟨info, inode, hstat, hkind⟩
      · obtain rfl := Except.ok.inj h
        simp [ErrorPage.forbidden] at hbody
      · exact stat_of_directoryAnswer h hbody

/-- The length of a body file is taken from the tree. -/
lemma backed_of_answer (h : site.answer ask date tree requested params = .ok response) :
    response.Backed tree := by
  intro path length inode hbody hopen
  obtain ⟨info, inode', hstat, hkind⟩ := stat_of_answer h hbody
  have hinode : inode' = inode := by
    simp only [Tree.open?, hstat, hkind] at hopen
    split at hopen
    · exact Except.ok.inj hopen
    · simp at hopen
  exact size_of_stat hstat (hinode ▸ hkind)

end Site

namespace Surroundings

variable {H : Type}

/-- The same site on another date. -/
def on (around : Surroundings H) (date : Text) : Surroundings H :=
  { around with date }

/-- The bytes that are sent when a read has given `read`. -/
def sends (around : Surroundings H) (read : Bytes) : Bytes :=
  match around.response? (read.take Connection.bufferSize) with
  | none => []
  | some response => response.sentFrom around.tree

lemma backed_of_response? {around : Surroundings H} {read : Bytes} {response : Response}
    (h : around.response? read = some response) : response.Backed around.tree := by
  unfold response? at h
  split at h
  · simp at h
  · split at h
    · simp at h
    · next request hparse =>
      cases hanswer : around.site.answer around.ask around.date around.tree request.path
          request.params with
      | error failure => simp [hanswer, Except.toOption] at h
      | ok found =>
        obtain rfl : found = response := by simpa [hanswer, Except.toOption] using h
        exact Site.backed_of_answer hanswer

end Surroundings

/-! ### A whole exchange -/

namespace Connection

variable {H : Type} {around : Surroundings H} {c : Connection} {m : Moment H} {read : Bytes}

/-- Nothing has been sent, and nothing will be: the connection is closed, or its handler breaks down
at every step. -/
inductive Silent (around : Surroundings H) (c : Connection) : Prop where
  | closed (wire : c.wire = #[]) (state : c.state = .terminated)
  | broken {request : Request} (wire : c.wire = #[]) (state : c.state = .requestReady)
    (request_eq : c.request = some request)
    (panic : around.site.answer around.ask around.date around.tree request.path request.params
      = .error .panic)

lemma Silent.wire (h : Silent around c) : c.wire = #[] := by
  cases h <;> assumption

lemma Silent.stepAt (h : Silent around c) {date : Text} (hm : m.around = around.on date) :
    Silent around (c.stepAt m).1 := by
  cases h with
  | closed wire state => simpa [Connection.stepAt, step, state] using Silent.closed wire state
  | @broken request wire state request_eq panic =>
    have hpanic : (around.on date).site.answer (around.on date).ask (around.on date).date
        (around.on date).tree request.path request.params = .error .panic := by
      rw [Surroundings.on, Site.answer_date, panic]
      rfl
    simpa only [Connection.stepAt, step, state, hm, respond, request_eq, hpanic] using
      Silent.broken wire state request_eq panic

/-- What the first read has given is not answered. -/
lemma silent_of_response?_eq_none (hstate : c.state = .new) (hsocket : c.hasSocket = true)
    (hwire : c.wire = #[]) (hreceipt : m.turn.receipt = .data read)
    (hresponse : m.around.response? (read.take bufferSize) = none) :
    Silent m.around (c.stepAt m).1 ∧ (c.stepAt m).2.IsEnd := by
  simp only [Connection.stepAt, step, hstate, receive, hsocket, hreceipt, if_true]
  unfold Surroundings.response? at hresponse
  split
  · exact ⟨.closed hwire rfl, trivial⟩
  · next hempty =>
    split
    · exact ⟨.closed hwire rfl, trivial⟩
    · next hfull =>
      simp only [hempty, hfull, or_self, if_false] at hresponse
      split
      · exact ⟨.closed hwire rfl, trivial⟩
      · next request hparse =>
        simp only [hparse] at hresponse
        simp only [respond]
        split
        · next hanswer => simp [hanswer, Except.toOption] at hresponse
        · exact ⟨.closed hwire rfl, trivial⟩
        · next hpanic => exact ⟨.broken hwire rfl rfl hpanic, trivial⟩

lemma Silent.after (h : Silent around c) (run : List (Moment H))
    (hrun : ∀ m ∈ run, ∃ date, m.around = around.on date) : (c.after run).wire = #[] := by
  induction run generalizing c with
  | nil => exact h.wire
  | cons m rest ih =>
    obtain ⟨date, hm⟩ := hrun m (by simp)
    exact ih (h.stepAt hm) fun m hmem => hrun m (by simp [hmem])

/-- What a new connection sends at a site that stays as it is, when its first read comes after any
number of steps in which nothing has arrived: a beginning of what is sent to the bytes it has read,
and all of it when everybody is obliging and the connection has been closed. -/
theorem wire_of_read (id : SlotId) (peer : Nat) (waits : List (Moment H)) (first : Moment H)
    (rest : List (Moment H))
    (hwaits : ∀ m ∈ waits, m.turn.receipt = .wouldBlock ∨ m.turn.receipt = .interrupted)
    (hfirst : first.turn.receipt = .data read)
    (hrest : ∀ m ∈ rest, ∃ date, m.around = first.around.on date) :
    let c : Connection := { id, peer }
    let run := waits ++ first :: rest
    (c.after run).wire.toList <+: first.around.sends read ∧
      ((∀ m ∈ rest, m.turn.IsObliging) → (∃ result ∈ c.results run, result.IsEnd) →
        (c.after run).wire.toList = first.around.sends read) := by
  intro c run
  obtain ⟨hafter, hresults, -, -⟩ := run_of_waits (c := c) rfl rfl rfl waits hwaits
  have hends (results : List StepResult) :
      (∃ result ∈ waits.map (fun _ => StepResult.wait .readable) ++ results, result.IsEnd) →
        ∃ result ∈ results, result.IsEnd := by
    rintro ⟨result, hmem, hend⟩
    rcases List.mem_append.1 hmem with hwait | hmem
    · obtain ⟨-, -, rfl⟩ := List.mem_map.1 hwait
      exact hend.elim
    · exact ⟨result, hmem, hend⟩
  rw [after_append, results_append, hafter, hresults, Connection.after, results_cons,
    Surroundings.sends]
  cases hresponse : first.around.response? (read.take bufferSize) with
  | none =>
    obtain ⟨hsilent, -⟩ := silent_of_response?_eq_none (c := c) rfl rfl rfl hfirst hresponse
    simp [hsilent.after rest hrest]
  | some response =>
    obtain ⟨request, hstep⟩ := stepAt_of_response?_eq_some (c := c) rfl rfl hfirst hresponse
    rw [hstep]
    have hunderway : UnderwayFrom first.around.tree response
        { c with request := some request, response := some response, state := .responseReady } :=
      ⟨⟨rfl, rfl, .header rfl (header_length_pos response) rfl rfl rfl⟩, by simp [HasOpened, c]⟩
    obtain ⟨hbegins, hall⟩ := hunderway.sends rest (Surroundings.backed_of_response? hresponse) (by
      intro m hm
      obtain ⟨date, hdate⟩ := hrest m hm
      rw [hdate, Surroundings.on])
    refine ⟨hbegins, fun hobliging hend => hall hobliging ?_⟩
    simpa [StepResult.IsEnd] using hends _ hend

/-! ### Alone -/

/-- A connection reads `read`, and is then moved on in the same surroundings all the time, with
everybody obliging, until it is closed: it sends `bytes`. -/
def SentAlone (around : Surroundings H) (read bytes : Bytes) : Prop :=
  ∃ (id : SlotId) (peer : Nat) (first : Turn) (rest : List Turn), first.receipt = .data read ∧
    (∀ turn ∈ rest, turn.IsObliging) ∧
    let c : Connection := { id, peer }
    let run := (first :: rest).map fun turn => (⟨around, turn⟩ : Moment H)
    (∃ result ∈ c.results run, result.IsEnd) ∧ bytes = (c.after run).wire.toList

/-- A client that takes whatever it is offered. -/
def generous (response : Response) : Turn where
  receipt := .wouldBlock
  writes := .replicate (response.contentLength + 2)
    (.accepted (response.header.length + response.contentLength + FileBody.chunkSize))
  reads := []

lemma isObliging_generous (response : Response) : (generous response).IsObliging := by
  refine ⟨fun write hwrite => ?_, by simp [generous]⟩
  obtain rfl := List.eq_of_mem_replicate hwrite
  trivial

lemma flow_deliver_of_accepted {size limit count : Nat} (h : size ≤ limit) :
    (deliver size (.replicate (count + 1) (.accepted limit))).flow = .complete := by
  cases size with
  | zero => simp [deliver]
  | succ size => rw [List.replicate_succ, deliver_of_le (Nat.zero_lt_succ size) h]

lemma isEnd_startBody {response : Response} (hbacked : response.Backed around.tree)
    (hsocket : c.hasSocket = true) (hresponse : c.response = some response) (limit : Nat)
    (hlength : response.contentLength ≤ limit) (hchunk : FileBody.chunkSize ≤ limit) :
    (startBody around [] (.replicate (response.contentLength + 1) (.accepted limit)) response
      c).2.IsEnd := by
  cases hbody : response.body with
  | data bytes =>
    have hle : (bytes.drop c.dataSent).length ≤ limit := by
      simp only [Response.contentLength, hbody, Body.length] at hlength
      rw [List.length_drop]
      omega
    simp only [startBody, Response.filePath?, hbody, sendBody, hsocket, hresponse,
      flow_deliver_of_accepted hle]
    trivial
  | file path length =>
    simp only [startBody, Response.filePath?, hbody]
    cases hopen : around.tree.open? path with
    | error fault => trivial
    | ok inode =>
      have hsize := hbacked path length inode hbody hopen
      simp only [sendBody, hsocket, hresponse, hbody, FileBody.send, FileBody.pending, deliver,
        List.drop_nil, List.length_nil]
      rw [FileBody.flow_pump_of_accepted (Nat.le_of_eq hsize.symm) hchunk]
      · trivial
      · simp [Response.contentLength, hbody, Body.length, FileBody.advance]

lemma isEnd_sendHeader {response : Response} (hsocket : c.hasSocket = true)
    (hresponse : c.response = some response) (hheader : c.headerSent = 0)
    {writes rest : List WriteOutcome}
    (hdeliver : deliver response.header.length writes = ⟨response.header.length, .complete, rest⟩)
    (hbody : ∀ d : Connection, d.hasSocket = true → d.response = some response →
      (startBody around [] rest response d).2.IsEnd) : (sendHeader around [] writes c).2.IsEnd := by
  simp only [sendHeader, hsocket, hresponse, hheader, List.drop_zero, hdeliver]
  exact hbody _ rfl rfl

/-- Such a client gets the whole response in one step. -/
lemma isEnd_generous {response : Response} (hbacked : response.Backed around.tree)
    (hstate : c.state = .responseReady) (hsocket : c.hasSocket = true)
    (hresponse : c.response = some response) (hheader : c.headerSent = 0) :
    (c.stepAt ⟨around, generous response⟩).2.IsEnd := by
  simp only [Connection.stepAt, step, hstate, generous]
  refine isEnd_sendHeader hsocket hresponse hheader
    (deliver_of_le (header_length_pos response) (by omega) _) fun d hsocket hresponse => ?_
  exact isEnd_startBody hbacked hsocket hresponse _ (by omega) (by omega)

/-- What is sent alone is settled by what has been read. -/
theorem sentAlone_iff (around : Surroundings H) (read bytes : Bytes) :
    SentAlone around read bytes ↔ bytes = around.sends read := by
  have hsends (id : SlotId) (peer : Nat) (first : Turn) (rest : List Turn)
      (hfirst : first.receipt = .data read) (hobliging : ∀ turn ∈ rest, turn.IsObliging) :=
    (wire_of_read id peer [] ⟨around, first⟩ (rest.map (⟨around, ·⟩)) (by simp) hfirst
      (by simpa using fun _ _ => ⟨around.date, rfl⟩)).2 (by simpa using hobliging)
  constructor
  · rintro ⟨id, peer, first, rest, hfirst, hobliging, hend, rfl⟩
    exact hsends id peer first rest hfirst hobliging hend
  · rintro rfl
    -- one step reads the request, and a generous client needs one more
    let fresh : Connection := { id := ⟨0, 0⟩, peer := 0 }
    let first : Turn := ⟨.data read, [], []⟩
    suffices h : ∃ rest : List Turn, (∀ turn ∈ rest, turn.IsObliging) ∧
        ∃ result ∈ fresh.results ((first :: rest).map fun turn => ⟨around, turn⟩),
          result.IsEnd by
      obtain ⟨rest, hobliging, hend⟩ := h
      exact ⟨⟨0, 0⟩, 0, first, rest, rfl, hobliging, hend,
        (hsends ⟨0, 0⟩ 0 first rest rfl hobliging hend).symm⟩
    cases hresponse : around.response? (read.take bufferSize) with
    | none =>
      have hend := (silent_of_response?_eq_none (c := fresh) (m := ⟨around, first⟩) rfl rfl rfl rfl
        hresponse).2
      exact ⟨[], by simp, _, by simp [results, trace], hend⟩
    | some response =>
      obtain ⟨request, hstep⟩ :=
        stepAt_of_response?_eq_some (c := fresh) (m := ⟨around, first⟩) rfl rfl rfl hresponse
      have hbacked := Surroundings.backed_of_response? hresponse
      have hend := isEnd_generous (c := (fresh.stepAt ⟨around, first⟩).1) hbacked
        (by rw [hstep]) (by rw [hstep]) (by rw [hstep]) (by rw [hstep])
      refine ⟨[generous response], by simpa using isObliging_generous response, _, ?_, hend⟩
      exact List.mem_cons_of_mem _ List.mem_cons_self

end Connection

end SiteServer
