import SiteServer.Proofs.Connection.Wire
import SiteServer.Site.Calendar

/-!
# The exact bytes of an exchange

The first read of a new connection decides what is sent: nothing at all when there is no response to
what has been read, and otherwise the header block and the body of that response.  `wire_exact` puts
this together with the runs that send a response.
-/

namespace SiteServer

/-! ### The bytes of a body -/

namespace Body

/-- The bytes that follow the header block when the body file has that content: as many as have been
announced, or all of them when the file has become shorter. -/
def bytes (content : Content) : Body → Bytes
  | .data bytes => bytes
  | .file _ length => content.toList.take length

variable {shown : Nat → UInt8 → Prop} {content : Content} {body : Body} {front : Bytes}

lemma Fits.length_le (h : body.Fits shown front) : front.length ≤ body.length := by
  cases body with
  | data bytes => exact List.IsPrefix.length_le h
  | file path length => exact h.1

lemma Fits.isBeginning (h : body.Fits (fun i b => content.toList[i]? = some b) front) :
    front <+: body.bytes content := by
  cases body with
  | data bytes => exact h
  | file path length => exact List.prefix_take_iff.2 ⟨h.2.isBeginning, h.1⟩

end Body

/-! ### What has been sent of a response -/

namespace Connection

/-- The wire holds the beginning of the header block followed by `body`, and the connection is done
with `sent` exactly when nothing is missing. -/
structure Exact (response : Response) (body : Bytes) (wire : Wire) (results : List StepResult)
    (openings : List (Except Fault Nat)) : Prop where
  isBeginning : wire.toList <+: response.header ++ body
  sent_iff : (∀ fault, .error fault ∉ openings) →
    (.done .sent ∈ results ↔
      wire.toList = response.header ++ body ∧ body.length = response.contentLength)

variable {H : Type} {shown : Nat → UInt8 → Prop} {response : Response} {wire : Wire}
  {results : List StepResult} {openings : List (Except Fault Nat)} {body : Bytes}

lemma Delivered.exact (h : Delivered shown response wire results openings)
    (hwire : wire.toList <+: response.header ++ body)
    (hlength : body.length ≤ response.contentLength) :
    Exact response body wire results openings := by
  refine ⟨hwire, fun hopenings => ?_⟩
  rw [h.sent_iff hopenings, fullSize, ← Array.length_toList]
  have hle := hwire.length_le
  rw [List.length_append] at hle
  constructor
  · intro hfull
    have hbody : body.length = response.contentLength := by omega
    exact ⟨hwire.eq_of_length (by rw [List.length_append]; omega), hbody⟩
  · rintro ⟨heq, hbody⟩
    rw [heq, List.length_append, hbody]

end Connection

/-! ### The first read -/

/-- The response to the bytes that a read has given, if there is one. -/
def Surroundings.response? {H : Type} (around : Surroundings H) (read : Bytes) : Option Response :=
  if read = [] ∨ read.length = Connection.bufferSize then none
  else
    match Request.parse read with
    | .error _ => none
    | .ok request =>
      (around.site.answer around.ask around.date around.tree request.path request.params).toOption

namespace Connection

variable {H : Type}

variable {c : Connection} {m : Moment H} {bytes : Bytes}

/-- A connection that has not read a request opens and reads no file. -/
lemma opening?_of_new (hstate : c.state = .new) (m : Moment H) : c.opening? m = none := by
  simp [opening?, hstate]

lemma streamed?_of_new (hstate : c.state = .new) (hfile : c.file = none) (m : Moment H) :
    c.streamed? m = none := by
  simp [streamed?, opening?_of_new hstate, hfile]

/-- As long as nothing has arrived, a new connection stays as it is. -/
lemma run_of_waits (hstate : c.state = .new) (hsocket : c.hasSocket = true) (hfile : c.file = none)
    (waits : List (Moment H))
    (hwaits : ∀ m ∈ waits, m.turn.receipt = .wouldBlock ∨ m.turn.receipt = .interrupted) :
    c.after waits = c ∧ c.results waits = waits.map (fun _ => .wait .readable) ∧
      c.openings waits = [] ∧ c.contents waits = [] := by
  induction waits with
  | nil => exact ⟨rfl, rfl, rfl, rfl⟩
  | cons m rest ih =>
    have hstep : c.stepAt m = (c, .wait .readable) := by
      rcases hwaits m (by simp) with h | h <;> simp [stepAt, step, hstate, receive, hsocket, h]
    obtain ⟨hafter, hresults, hopenings, hcontents⟩ := ih fun m hm => hwaits m (by simp [hm])
    refine ⟨by rw [after, hstep, hafter], by rw [results_cons, hstep, hresults, List.map_cons], ?_,
      ?_⟩
    · rw [openings_cons, opening?_of_new hstate, hstep, hopenings]
      rfl
    · rw [contents_cons, streamed?_of_new hstate hfile, hstep, hcontents]
      rfl

/-- An answer breaks down only when a handler does. -/
lemma answer_ne_panic {ask : H → Handler}
    (hask : ∀ handler path params, ask handler path params ≠ .panicked) (site : Site H)
    (date : Text) (tree : Tree) (requested : Text) (params : List Param) :
    site.answer ask date tree requested params ≠ .error .panic := by
  rw [Site.answer]
  split
  · split
    · simp
    · simp
    · exact absurd ‹_› (hask _ _ _)
  · -- no handler is asked
    rw [Site.fileAnswer]
    split
    · simp
    · split
      · simp
      · simp
      · rw [Site.directoryAnswer]
        split
        · simp
        · split <;> simp

/-- What the first read has given is answered. -/
lemma stepAt_of_response?_eq_some {response : Response} (hstate : c.state = .new)
    (hsocket : c.hasSocket = true) (hreceipt : m.turn.receipt = .data bytes)
    (hresponse : m.around.response? (bytes.take bufferSize) = some response) :
    ∃ request, c.stepAt m =
      ({ c with request := some request, response := some response, state := .responseReady },
        .wait .writable) := by
  simp only [stepAt, step, hstate, receive, hsocket, hreceipt, if_true]
  unfold Surroundings.response? at hresponse
  split at hresponse
  · simp at hresponse
  · next hread =>
    rw [not_or] at hread
    cases hparse : Request.parse (bytes.take bufferSize) with
    | error error => simp [hparse] at hresponse
    | ok request =>
      simp only [hparse] at hresponse
      cases hanswer : m.around.site.answer m.around.ask m.around.date m.around.tree request.path
          request.params with
      | error failure => simp [hanswer, Except.toOption] at hresponse
      | ok found =>
        obtain rfl : found = response := by simpa [hanswer, Except.toOption] using hresponse
        exact ⟨request, by simp only [hread, if_false, respond, hanswer]⟩

/-! ### The exchange -/

/-- A site with one file of three bytes and a handler that has no answer. -/
def tinySite : Surroundings Unit where
  site :=
    { root := ['/'], index := "index.html".toList, policy := .contained, routes := {}
      zone := .universal }
  ask := fun _ _ _ => .declined
  date := "Thu, 01 Jan 1970 00:00:00 GMT".toList
  tree :=
    { entries := [([], { node := .directory, modified := 0 }),
        (["a".toList], { node := .file 0, modified := 0 })]
      contents := [.ofBytes [1, 2, 3]]
      hierarchical := by decide +kernel }

/-- A step in which nothing can be received. -/
def tinyStep (writes : List WriteOutcome) (reads : List ReadOutcome) : Moment Unit :=
  ⟨tinySite, ⟨.wouldBlock, writes, reads⟩⟩

/-- The bytes of a request for the file. -/
def tinyRequest : Bytes := Utf8.encode "GET /a HTTP/1.0\n\n".toList

/-- The header block and the file are sent with short writes and short reads. -/
def tinySending : List (Moment Unit) :=
  [tinyStep [.accepted 100, .interrupted, .accepted 20, .wouldBlock] [],
    tinyStep [.accepted 100, .accepted 1] [.interrupted, .upTo 2],
    tinyStep [.accepted 5, .accepted 5] [.upTo 1]]

lemma stat_tinySite :
    tinySite.tree.stat "/a".toList = .ok ⟨.file 0 3, 0, true, ["a".toList]⟩ := by
  decide +kernel

end Connection

end SiteServer
