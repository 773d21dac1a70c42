import SiteServer.Proofs.Connection.Run
import SiteServer.Proofs.Connection.Streaming

/-!
# The bytes on the wire

Whatever the socket takes and the file gives, the bytes that a connection has sent are the beginning
of the header block followed by the body, and the connection is done with `sent` exactly when
nothing is missing.  The invariant is `Underway`: it ties the counters of a connection that sends a
response to the bytes on its wire.  A step keeps it or closes the connection (`stepped`), and a
closed connection stays as it is.
-/

namespace SiteServer

/-- What may have been sent of a body, when its file keeps to `shown`. -/
def Body.Fits (shown : Nat → UInt8 → Prop) : Body → Bytes → Prop
  | .data bytes, front => front <+: bytes
  | .file _ length, front => front.length ≤ length ∧ Faithful shown front

namespace Connection

variable {H : Type} {shown : Nat → UInt8 → Prop} {response : Response} {c : Connection}
  {front : Bytes}

/-! ### The invariant -/

/-- The bytes `front` of the body have been taken, and the counters say so. -/
inductive InBody (shown : Nat → UInt8 → Prop) (response : Response) (c : Connection) : Bytes → Prop
  | data {bytes : Bytes} (hbody : response.body = .data bytes) (hle : c.dataSent ≤ bytes.length) :
    InBody shown response c (bytes.take c.dataSent)
  | file {path : Text} {length : Nat} {body : FileBody} {taken : Bytes}
    (hbody : response.body = .file path length) (hfile : c.file = some body)
    (htracks : body.Tracks shown length taken) : InBody shown response c taken

/-- How far a connection that sends a response has come.  It is never left with nothing to send. -/
inductive Phase (shown : Nat → UInt8 → Prop) (response : Response) (c : Connection) : Prop
  | header (hstate : c.state = .responseReady) (hleft : c.headerSent < response.header.length)
    (hdata : c.dataSent = 0) (hfile : c.file = none)
    (hwire : c.wire.toList = response.header.take c.headerSent)
  | body {front : Bytes} (hstate : c.state = .sending) (hbody : InBody shown response c front)
    (hleft : front.length < response.contentLength)
    (hwire : c.wire.toList = response.header ++ front)

/-- The connection is about to send `response`, or in the middle of it. -/
structure Underway (shown : Nat → UInt8 → Prop) (response : Response) (c : Connection) : Prop where
  hasSocket : c.hasSocket = true
  response_eq : c.response = some response
  phase : Phase shown response c

/-- The wire is the beginning of the header block followed by bytes of the body. -/
def Written (shown : Nat → UInt8 → Prop) (response : Response) (wire : Wire) : Prop :=
  ∃ front, response.body.Fits shown front ∧ wire.toList <+: response.header ++ front

/-- How many bytes are on the wire when the response has been sent. -/
def fullSize (response : Response) : Nat :=
  response.header.length + response.contentLength

lemma InBody.fits (h : InBody shown response c front) : response.body.Fits shown front := by
  cases h with
  | data hbody hle =>
    rw [hbody]
    exact List.take_prefix _ _
  | file hbody hfile htracks =>
    rw [hbody]
    exact ⟨htracks.length_taken_le, htracks.faithful_taken⟩

lemma InBody.length_le (h : InBody shown response c front) :
    front.length ≤ response.contentLength := by
  cases h with
  | data hbody hle =>
    rw [Response.contentLength, hbody, Body.length]
    exact List.length_take_le' _ _
  | file hbody hfile htracks =>
    simpa [Response.contentLength, Body.length, hbody] using htracks.length_taken_le

lemma header_length_pos (response : Response) : 0 < response.header.length := by
  have hend : (Utf8.encode Response.lineEnd).length = 2 := by decide
  rw [Response.header, Response.headerText, Utf8.encode_append, List.length_append, hend]
  omega

lemma InBody.written (h : InBody shown response c front)
    (hwire : c.wire.toList = response.header ++ front) : Written shown response c.wire :=
  ⟨front, h.fits, hwire ▸ List.prefix_refl _⟩

lemma written_of_header {wire : Wire} (hwire : wire.toList <+: response.header) :
    Written shown response wire := by
  refine ⟨[], ?_, by simpa using hwire⟩
  cases response.body with
  | data bytes => exact List.nil_prefix
  | file path length => exact ⟨Nat.zero_le _, .nil⟩

lemma Underway.written (h : Underway shown response c) : Written shown response c.wire := by
  cases h.phase with
  | header hstate hleft hdata hfile hwire =>
    exact written_of_header (hwire ▸ List.take_prefix _ _)
  | body hstate hbody hleft hwire => exact hbody.written hwire

/-- What a step of a connection that sends a response comes to, when `attempt` is its attempt to
open the body file. -/
inductive Stepped (shown : Nat → UInt8 → Prop) (response : Response)
    (attempt : Option (Except Fault Nat)) : Connection × StepResult → Prop
  | goesOn {c : Connection} (hattempt : ∀ fault, attempt ≠ some (.error fault))
    (h : Underway shown response c) : Stepped shown response attempt (c, .wait .writable)
  | sent {c : Connection} (hattempt : ∀ fault, attempt ≠ some (.error fault))
    (h : Written shown response c.wire) (hsize : c.wire.size = fullSize response) :
    Stepped shown response attempt (c.finish .sent)
  | broken {c : Connection} (hattempt : ∀ fault, attempt ≠ some (.error fault))
    (h : Written shown response c.wire) (hsize : c.wire.size < fullSize response) :
    Stepped shown response attempt (c.finish .sendFailed)
  | unopened {c : Connection} {fault : Fault} (hattempt : attempt = some (.error fault))
    (hwire : c.wire.toList = response.header) :
    Stepped shown response attempt (c.finish (.bodyNotOpened fault))

variable {attempt : Option (Except Fault Nat)}

/-- The end of a step that has sent from the body. -/
lemma stepped_afterBody {flow : Flow} (hattempt : ∀ fault, attempt ≠ some (.error fault))
    (hsocket : c.hasSocket = true) (hresponse : c.response = some response)
    (hstate : c.state = .sending) (hbody : InBody shown response c front)
    (hwire : c.wire.toList = response.header ++ front)
    (hflow : flow = .complete ↔ front.length = response.contentLength) :
    Stepped shown response attempt (afterBody flow c) := by
  have hle := hbody.length_le
  have hsize : c.wire.size = response.header.length + front.length := by
    rw [← Array.length_toList, hwire, List.length_append]
  cases flow with
  | complete => exact .sent hattempt (hbody.written hwire) (by rw [hsize, hflow.1 rfl, fullSize])
  | blocked =>
    have hne : front.length ≠ response.contentLength := fun heq => by simpa using hflow.2 heq
    exact .goesOn hattempt ⟨hsocket, hresponse, .body hstate hbody (by omega) hwire⟩
  | failed =>
    have hne : front.length ≠ response.contentLength := fun heq => by simpa using hflow.2 heq
    exact .broken hattempt (hbody.written hwire) (by rw [hsize, fullSize]; omega)

/-- Sending from the body. -/
lemma stepped_sendBody (around : Surroundings H) (reads : List ReadOutcome)
    (writes : List WriteOutcome) (hattempt : ∀ fault, attempt ≠ some (.error fault))
    (hsocket : c.hasSocket = true) (hresponse : c.response = some response)
    (hstate : c.state = .sending) (hbody : InBody shown response c front)
    (hwire : c.wire.toList = response.header ++ front)
    (hfile : ∀ body, c.file = some body → Faithful shown (around.tree.content body.inode).toList) :
    Stepped shown response attempt (sendBody around reads writes c) := by
  cases hbody with
  | @data bytes hdata hle =>
    have hcount := count_deliver_le (bytes.drop c.dataSent).length writes
    have hflow := flow_deliver_eq_complete_iff (bytes.drop c.dataSent).length writes
    rw [List.length_drop] at hcount hflow
    simp only [sendBody, hsocket, hresponse, hdata]
    -- `dataSent` counts on from where the last attempt has stopped
    refine stepped_afterBody hattempt rfl rfl hstate (.data hdata ?_) ?_ ?_
    · simp only [List.length_drop]
      omega
    · simp only [Array.toList_appendList, hwire, List.append_assoc, List.length_drop,
        List.take_add]
    · rw [List.length_drop, hflow, List.length_take]
      simp only [Response.contentLength, Body.length, hdata]
      omega
  | @file path length body taken hpath hopen htracks =>
    obtain ⟨more, hsent⟩ := FileBody.exists_sent htracks (hfile body hopen) c.wire reads writes
    simp only [sendBody, hsocket, hresponse, hpath, hopen]
    refine stepped_afterBody hattempt rfl rfl hstate (.file hpath rfl hsent.tracks) ?_ ?_
    · rw [hsent.wire_eq, hwire, List.append_assoc]
    · simpa [Response.contentLength, Body.length, hpath] using hsent.complete_iff

/-- Opening the body file, and sending from the body. -/
lemma stepped_startBody (around : Surroundings H) (reads : List ReadOutcome)
    (writes : List WriteOutcome) (hsocket : c.hasSocket = true)
    (hresponse : c.response = some response) (hdata : c.dataSent = 0)
    (hwire : c.wire.toList = response.header)
    (hopened : ∀ path inode, response.filePath? = some path → around.tree.open? path = .ok inode →
      Faithful shown (around.tree.content inode).toList) :
    Stepped shown response (response.filePath?.map around.tree.open?)
      (startBody around reads writes response c) := by
  cases hbody : response.body with
  | data bytes =>
    have hpath : response.filePath? = none := by simp [Response.filePath?, hbody]
    simp only [startBody, hpath]
    have hin : InBody shown response { c with file := none, state := .sending } [] := by
      have h : InBody shown response { c with file := none, state := .sending } _ :=
        .data hbody (by simp [hdata])
      simpa [hdata] using h
    exact stepped_sendBody around reads writes (by simp) hsocket hresponse rfl hin
      (by simpa using hwire) (by simp)
  | file path length =>
    have hpath : response.filePath? = some path := by simp [Response.filePath?, hbody]
    simp only [startBody, hpath, Option.map_some]
    cases hopen : around.tree.open? path with
    | error fault => exact .unopened rfl hwire
    | ok inode =>
      refine stepped_sendBody around reads writes (by simp) hsocket hresponse rfl
        (.file hbody rfl (.start length inode)) (by simpa using hwire) ?_
      rintro body ⟨⟩
      exact hopened path inode hpath hopen

/-- Sending from the header block. -/
lemma stepped_sendHeader (m : Moment H) (hsocket : c.hasSocket = true)
    (hresponse : c.response = some response) (hstate : c.state = .responseReady)
    (hleft : c.headerSent < response.header.length) (hdata : c.dataSent = 0) (hfile : c.file = none)
    (hwire : c.wire.toList = response.header.take c.headerSent)
    (hcontent : ∀ content, c.streamed? m = some content → Faithful shown content.toList) :
    Stepped shown response (c.opening? m) (sendHeader m.around m.turn.reads m.turn.writes c) := by
  set left := response.header.drop c.headerSent with hleft_eq
  have hlength : left.length = response.header.length - c.headerSent := by simp [hleft_eq]
  have hcount := count_deliver_le left.length m.turn.writes
  have hcomplete := flow_deliver_eq_complete_iff left.length m.turn.writes
  have hwire' : (c.wire ++ left.take (deliver left.length m.turn.writes).count).toList
      = response.header.take (c.headerSent + (deliver left.length m.turn.writes).count) := by
    rw [Array.toList_appendList, hwire, List.take_add]
  simp only [streamed?, opening?, hstate, hresponse, ← hleft_eq] at hcontent ⊢
  simp only [sendHeader, hsocket, hresponse, ← hleft_eq]
  cases hflow : (deliver left.length m.turn.writes).flow with
  | blocked =>
    have hlt := count_deliver_lt (by rw [hflow]; simp)
    refine .goesOn (by simp) ⟨rfl, rfl, .header hstate ?_ hdata hfile hwire'⟩
    simp only
    omega
  | failed =>
    have hlt := count_deliver_lt (by rw [hflow]; simp)
    refine .broken (by simp) (written_of_header (hwire' ▸ List.take_prefix _ _)) ?_
    rw [← Array.length_toList, hwire', List.length_take, fullSize]
    omega
  | complete =>
    -- only now the body file is opened
    simp only [hflow, if_true] at hcontent ⊢
    refine stepped_startBody m.around _ _ rfl rfl hdata ?_ ?_
    · rw [hwire', hcomplete.1 hflow, hlength, Nat.add_sub_cancel' (Nat.le_of_lt hleft),
        List.take_length]
    · intro path inode hpath hopen
      exact hcontent _ (by simp [hpath, hopen])

/-- A step keeps the invariant or closes the connection. -/
theorem Underway.stepped (h : Underway shown response c) (m : Moment H)
    (hcontent : ∀ content, c.streamed? m = some content → Faithful shown content.toList) :
    Stepped shown response (c.opening? m) (c.stepAt m) := by
  cases h.phase with
  | header hstate hleft hdata hfile hwire =>
    rw [stepAt, step, hstate]
    exact stepped_sendHeader m h.hasSocket h.response_eq hstate hleft hdata hfile hwire hcontent
  | body hstate hbody hleft hwire =>
    have hopening : c.opening? m = none := by simp [opening?, hstate]
    simp only [streamed?, hopening, Option.map_eq_some_iff] at hcontent
    rw [stepAt, step, hstate, hopening]
    refine stepped_sendBody m.around _ _ (by simp) h.hasSocket h.response_eq hstate hbody hwire ?_
    exact fun body hbody => hcontent _ ⟨body, hbody, rfl⟩

/-! ### Runs -/

/-- What a run that sends a response comes to. -/
structure Delivered (shown : Nat → UInt8 → Prop) (response : Response) (wire : Wire)
    (results : List StepResult) (openings : List (Except Fault Nat)) : Prop where
  written : Written shown response wire
  sent_iff : (∀ fault, .error fault ∉ openings) →
    (.done .sent ∈ results ↔ wire.size = fullSize response)
  of_error : ∀ fault, .error fault ∈ openings → wire.toList = response.header ∧
    .done (.bodyNotOpened fault) ∈ results ∧ .done .sent ∉ results

end Connection

end SiteServer
