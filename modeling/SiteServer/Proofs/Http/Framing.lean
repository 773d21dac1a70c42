import SiteServer.Loopback.Client
import SiteServer.Proofs.Connection.Alone
import SiteServer.Proofs.Http.Lines
import SiteServer.Proofs.Site.RouteTables
import SiteServer.Proofs.Text.ReadBack
import SiteServer.Site.Calendar
import SiteServer.Storage.Edit

/-!
# Where a response ends

A client has only the header block to tell it how many bytes to read.  The lines of the block have
no line ends in them and none of them is empty, so the first empty line is the end of the block,
whatever the body has in it (`headerLength?_block`).  Of these lines one is a length, and its digits
stand for the length of the body (`lengths_header`).  `Framed` is what this comes to for a client,
and `responses_framed` says it of all responses, as long as the date is a line.
-/

namespace SiteServer

namespace Text

/-- The text can stand on one line. -/
def IsLine (text : Text) : Prop :=
  ∀ c ∈ text, c ≠ '\r' ∧ c ≠ '\n'

variable {text a b : Text}

instance (text : Text) : Decidable text.IsLine :=
  decidable_of_iff (text.all (fun c => decide (c ≠ '\r' ∧ c ≠ '\n')) = true)
    ⟨forall_of_all, fun h => List.all_eq_true.2 fun c hmem => decide_eq_true (h c hmem)⟩

lemma IsLine.append (ha : IsLine a) (hb : IsLine b) : IsLine (a ++ b) := by
  intro c hmem
  rcases List.mem_append.1 hmem with hmem | hmem
  · exact ha c hmem
  · exact hb c hmem

lemma isLine_of_isDigit (h : ∀ c ∈ text, c.isDigit = true) : IsLine text := by
  intro c hmem
  constructor <;>
  · rintro rfl
    simpa using h _ hmem

lemma IsLine.not_mem_encode (h : IsLine text) :
    13 ∉ Utf8.encode text ∧ 10 ∉ Utf8.encode text :=
  ⟨Utf8.not_mem_encode (fun hmem => (h _ hmem).1 rfl) (by decide),
    Utf8.not_mem_encode (fun hmem => (h _ hmem).2 rfl) (by decide)⟩

/-! ### White space at the ends -/

/-- White space in front is taken away. -/
lemma trim_cons_blank {c : Char} (h : isBlank c = true) (text : Text) :
    trim (c :: text) = trim text := by
  rw [trim, List.dropWhile_cons_of_pos h, trim]

/-- A text without white space at its ends stays. -/
lemma trim_of_ends (hfirst : ∀ c ∈ text.head?, isBlank c = false)
    (hlast : ∀ c ∈ text.getLast?, isBlank c = false) : trim text = text := by
  have hstays : ∀ list : Text, (∀ c ∈ list.head?, isBlank c = false) →
      list.dropWhile isBlank = list := by
    rintro (_ | ⟨c, rest⟩) hhead
    · rfl
    · simp [hhead c rfl]
  rw [trim, hstays text hfirst, dropEndWhile, hstays, List.reverse_reverse]
  rwa [List.head?_reverse]

lemma isBlank_of_isDigit {c : Char} (h : c.isDigit = true) : isBlank c = false := by
  have hall : ∀ c ∈ blanks, c.isDigit = false := forall_of_all (by decide)
  by_contra hc
  have hdigit := hall c (by simpa [isBlank] using hc)
  simp [h] at hdigit

lemma trim_of_isDigit (h : ∀ c ∈ text, c.isDigit = true) : trim text = text :=
  trim_of_ends (fun c hc => isBlank_of_isDigit (h c (List.mem_of_head? hc)))
    fun c hc => isBlank_of_isDigit (h c (List.mem_of_getLast? hc))

end Text

/-! ### The end of the block -/

namespace Loopback

variable {line rest : Bytes}

/-- A byte that does not begin an empty line. -/
lemma headerLength?_cons {b : UInt8} (h : ¬ [13, 10, 13, 10] <+: b :: rest) :
    headerLength? (b :: rest) = (headerLength? rest).map (· + 1) := by
  rw [headerLength?]
  rintro more rfl rfl
  exact h ⟨more, rfl⟩

/-- There is no empty line within a line. -/
lemma headerLength?_append (h : 13 ∉ line) (rest : Bytes) :
    headerLength? (line ++ rest) = (headerLength? rest).map (· + line.length) := by
  induction line with
  | nil => simp
  | cons b line ih =>
    have hb : ¬ [13, 10, 13, 10] <+: b :: (line ++ rest) := by
      rintro ⟨more, heq⟩
      obtain ⟨rfl, -⟩ := List.cons.inj heq
      exact h List.mem_cons_self
    rw [List.cons_append, headerLength?_cons hb, ih (List.not_mem_of_not_mem_cons h),
      Option.map_map]
    congr 1

/-- The end of a line that another line follows. -/
lemma headerLength?_lineEnd (h : rest.head? ≠ some 13) :
    headerLength? (13 :: 10 :: rest) = (headerLength? rest).map (· + 2) := by
  have hreturn : ¬ [13, 10, 13, 10] <+: 13 :: 10 :: rest := by
    rintro ⟨more, heq⟩
    simp only [List.cons_append, List.cons.injEq, true_and] at heq
    exact h (by rw [← heq]; rfl)
  have hfeed : ¬ [13, 10, 13, 10] <+: 10 :: rest := by
    rintro ⟨more, heq⟩
    simp at heq
  rw [headerLength?_cons hreturn, headerLength?_cons hfeed, Option.map_map]
  rfl

/-- The first empty line is the one after all lines. -/
theorem headerLength?_block {lines : List Bytes} (hne : lines ≠ [])
    (hlines : ∀ line ∈ lines, line ≠ [] ∧ 13 ∉ line) (body : Bytes) :
    headerLength? (lines.flatMap (· ++ Request.ending true) ++ Request.ending true ++ body)
      = some (lines.flatMap (· ++ Request.ending true) ++ Request.ending true).length := by
  induction lines with
  | nil => exact absurd rfl hne
  | cons line more ih =>
    obtain ⟨-, hreturn⟩ := hlines line List.mem_cons_self
    have hmore : ∀ line ∈ more, line ≠ [] ∧ 13 ∉ line :=
      fun line hmem => hlines line (List.mem_cons_of_mem _ hmem)
    rcases more with _ | ⟨next, more⟩
    · simp [Request.ending, headerLength?_append hreturn, headerLength?, Nat.add_comm]
    · -- the next line is not empty and does not begin with a carriage return
      obtain ⟨hnext, hnextReturn⟩ := hmore next List.mem_cons_self
      obtain ⟨b, next, rfl⟩ := List.exists_cons_of_ne_nil hnext
      have hb : b ≠ 13 := (List.ne_of_not_mem_cons hnextReturn).symm
      have hih := ih (by simp) hmore
      rw [List.flatMap_cons, List.append_assoc, List.append_assoc, List.append_assoc,
        headerLength?_append hreturn]
      rw [show Request.ending true = [13, 10] from rfl, List.cons_append, List.cons_append,
        List.nil_append, headerLength?_lineEnd (by simpa using hb)]
      rw [show Request.ending true = [13, 10] from rfl] at hih
      rw [← List.append_assoc, hih]
      simp only [Option.map_some, List.length_append, List.length_cons, List.length_nil,
        Option.some.injEq]
      omega

end Loopback

/-! ### The lines of the block -/

namespace Request

/-- Lines that are written one after the other are read one after the other. -/
lemma lines_flatMap {lines : List Bytes} (h : ∀ line ∈ lines, 10 ∉ line ∧ line.getLast? ≠ some 13)
    (rest : Bytes) :
    Request.lines (lines.flatMap (· ++ ending true) ++ rest) = lines ++ Request.lines rest := by
  induction lines with
  | nil => rfl
  | cons line more ih =>
    obtain ⟨hfeed, hreturn⟩ := h line List.mem_cons_self
    rw [List.flatMap_cons, List.append_assoc, lines_ending hfeed hreturn,
      ih fun line hmem => h line (List.mem_cons_of_mem _ hmem), List.cons_append]

end Request

namespace Headers

/-- A header line with a name and a value. -/
def fieldLine (name value : Text) : Text :=
  name ++ ':' :: ' ' :: value

/-- The values of the header lines with a name. -/
def named (name : Text) (lines : List Bytes) : List Text :=
  ((lines.filterMap field?).filter fun field => Text.sameName field.1 name).map Prod.snd

/-- A line is cut at its first colon. -/
lemma field?_fieldLine {name : Text} (h : ':' ∉ name) (value : Text) :
    field? (Utf8.encode (fieldLine name value)) = some (Text.trim name, Text.trim value) := by
  rw [field?, Utf8.decode_encode_text, fieldLine, Text.splitFirst?_append_sep h,
    ← Text.trim_cons_blank (show Text.isBlank ' ' = true by decide) value]
  rfl

lemma field?_encode_of_not_mem {line : Text} (h : ':' ∉ line) :
    field? (Utf8.encode line) = none := by
  rw [field?, Utf8.decode_encode_text, Text.splitFirst?_eq_none_iff.2 h]
  rfl

end Headers

namespace Status

/-- No reason phrase has a line end or a colon in it. -/
lemma ne_of_mem_reason {status : Status} {c : Char} (h : c ∈ status.reason) :
    c ≠ '\r' ∧ c ≠ '\n' ∧ c ≠ ':' := by
  have hall : ∀ phrase ∈ "Unknown" :: phrases.map Prod.snd,
      phrase.toList.all (fun c => decide (c ≠ '\r' ∧ c ≠ '\n' ∧ c ≠ ':')) = true := by
    decide +kernel
  unfold reason at h
  cases hlookup : phrases.lookup status.code with
  | none =>
    rw [hlookup] at h
    exact Text.forall_of_all (hall "Unknown" List.mem_cons_self) c h
  | some phrase =>
    obtain ⟨front, back, hphrases, -⟩ := List.lookup_eq_some_iff.1 hlookup
    have hmem : (status.code, phrase) ∈ phrases := by
      rw [hphrases]
      exact List.mem_append_right _ List.mem_cons_self
    rw [hlookup] at h
    have hphrase := hall phrase (List.mem_cons_of_mem _ (List.mem_map_of_mem hmem))
    exact Text.forall_of_all hphrase c h

lemma ne_of_mem_line {status : Status} {c : Char} (h : c ∈ status.line) :
    c ≠ '\r' ∧ c ≠ '\n' ∧ c ≠ ':' := by
  have hversion : ∀ c ∈ "HTTP/1.1 ".toList, c ≠ '\r' ∧ c ≠ '\n' ∧ c ≠ ':' :=
    Text.forall_of_all (by decide)
  rcases List.mem_append.1 h with h | h
  · rcases List.mem_append.1 h with h | h
    · exact hversion c h
    · have hdigit := Decimal.isDigit_of_mem_write h
      refine ⟨?_, ?_, ?_⟩ <;>
      · rintro rfl
        simp at hdigit
  · rcases List.mem_cons.1 h with rfl | h
    · decide
    · exact ne_of_mem_reason h

lemma isLine_line (status : Status) : status.line.IsLine :=
  fun _ hmem => ⟨(ne_of_mem_line hmem).1, (ne_of_mem_line hmem).2.1⟩

lemma colon_not_mem_line (status : Status) : ':' ∉ status.line :=
  fun hmem => (ne_of_mem_line hmem).2.2 rfl

end Status

namespace Response

variable {response : Response}

lemma header_eq (response : Response) :
    response.header = (response.headerLines.map Utf8.encode).flatMap (· ++ Request.ending true)
      ++ Request.ending true := by
  have hblock : ∀ lines : List Text, Utf8.encode (lines.flatMap (· ++ lineEnd))
      = (lines.map Utf8.encode).flatMap (· ++ Request.ending true) := by
    intro lines
    induction lines with
    | nil => rfl
    | cons line more ih =>
      rw [List.flatMap_cons, Utf8.encode_append, Utf8.encode_append, ih]
      rfl
  rw [header, headerText, Utf8.encode_append, hblock]
  rfl

/-- The names and the values of the header lines. -/
def fields (response : Response) : List (Text × Text) :=
  [("Connection".toList, "close".toList),
   ("Date".toList, response.date),
   ("Server".toList, serverToken),
   ("Content-Length".toList, Decimal.write response.contentLength),
   ("Content-Type".toList, response.mediaType.mime)]

/-- The header block has the status line and five lines with names. -/
lemma headerLines_eq (response : Response) :
    response.headerLines = response.status.line ::
      response.fields.map fun field => Headers.fieldLine field.1 field.2 := rfl

lemma name_of_mem_fields {field : Text × Text} (h : field ∈ response.fields) :
    field.1.IsLine ∧ ':' ∉ field.1 ∧ Text.trim field.1 = field.1 := by
  have hall : ∀ name ∈ ["Connection".toList, "Date".toList, "Server".toList,
      "Content-Length".toList, "Content-Type".toList],
      Text.IsLine name ∧ ':' ∉ name ∧ Text.trim name = name := by
    decide
  exact hall field.1 (List.mem_map_of_mem h)

lemma value_of_mem_fields (hdate : response.date.IsLine) {field : Text × Text}
    (h : field ∈ response.fields) : field.2.IsLine := by
  simp only [fields, List.mem_cons, List.not_mem_nil, or_false] at h
  rcases h with rfl | rfl | rfl | rfl | rfl
  · decide
  · exact hdate
  · decide
  · exact Text.isLine_of_isDigit fun c hmem => Decimal.isDigit_of_mem_write hmem
  · cases response.mediaType <;> decide

/-- No line of the header block breaks off. -/
lemma isLine_headerLines (hdate : response.date.IsLine) :
    ∀ line ∈ response.headerLines, line ≠ [] ∧ line.IsLine := by
  rw [headerLines_eq]
  intro line hmem
  rcases List.mem_cons.1 hmem with hstatus | hmem
  · rw [hstatus]
    exact ⟨List.append_ne_nil_of_right_ne_nil _ (List.cons_ne_nil _ _),
      response.status.isLine_line⟩
  · obtain ⟨field, hfield, rfl⟩ := List.mem_map.1 hmem
    refine ⟨by simp [Headers.fieldLine], (name_of_mem_fields hfield).1.append ?_⟩
    intro c hc
    rcases List.mem_cons.1 hc with rfl | hc
    · decide
    rcases List.mem_cons.1 hc with rfl | hc
    · decide
    · exact value_of_mem_fields hdate hfield c hc

/-- Among the lines of the header block there is one length. -/
lemma lengths_header (response : Response) :
    Headers.named "Content-Length".toList (response.headerLines.map Utf8.encode)
      = [Decimal.write response.contentLength] := by
  have hfields : (response.headerLines.map Utf8.encode).filterMap Headers.field?
      = response.fields.map fun field => (field.1, Text.trim field.2) := by
    rw [headerLines_eq, List.map_cons, List.filterMap_cons_none
      (Headers.field?_encode_of_not_mem response.status.colon_not_mem_line), List.map_map,
      List.filterMap_map, ← List.filterMap_eq_map]
    refine List.filterMap_congr fun field hmem => ?_
    obtain ⟨-, hcolon, hname⟩ := name_of_mem_fields hmem
    rw [Function.comp_apply, Function.comp_apply, Headers.field?_fieldLine hcolon, hname]
    rfl
  have hvalue : Text.trim (Decimal.write response.contentLength)
      = Decimal.write response.contentLength :=
    Text.trim_of_isDigit fun c hmem => Decimal.isDigit_of_mem_write hmem
  rw [Headers.named, hfields, ← hvalue]
  rfl

/-- What the header block tells a client, whatever bytes follow it. -/
structure Framed (response : Response) : Prop where
  /-- Before the first empty line stand the status line and five others. -/
  lines : ∀ body, Request.lines (response.header ++ body)
    = Utf8.encode response.status.line ::
        (response.fields.map fun field => Utf8.encode (Headers.fieldLine field.1 field.2))
      ++ [] :: Request.lines body
  unbroken : ∀ line ∈ response.headerLines, line.IsLine
  ends : ∀ body, Loopback.headerLength? (response.header ++ body) = some response.header.length
  /-- A client that cuts there has the block and the body as they have been sent. -/
  received : ∀ (wire : Wire) (body : Bytes), wire.toList = response.header ++ body →
    (Loopback.Received.ofWire wire).header = response.header ∧
    (Loopback.Received.ofWire wire).body.toList = body
  /-- There is one length, and it is that of the body. -/
  length : ∃ digits, Decimal.read? digits = some response.contentLength ∧ ∀ body,
    Headers.named "Content-Length".toList
      ((Request.lines (response.header ++ body)).takeWhile (· ≠ [])) = [digits]

/-- A response whose date is a line tells a client where it ends. -/
theorem framed (hdate : response.date.IsLine) : Framed response := by
  have hlines := isLine_headerLines hdate
  have hbytes : ∀ line ∈ response.headerLines.map Utf8.encode,
      line ≠ [] ∧ 13 ∉ line ∧ 10 ∉ line := by
    intro line hmem
    obtain ⟨text, htext, rfl⟩ := List.mem_map.1 hmem
    obtain ⟨hne, hline⟩ := hlines text htext
    refine ⟨fun hnil => hne ?_, hline.not_mem_encode⟩
    rw [← Utf8.decode_encode_text text, hnil, Utf8.decode_nil]
  have hread : ∀ body, Request.lines (response.header ++ body)
      = response.headerLines.map Utf8.encode ++ [] :: Request.lines body := by
    intro body
    rw [header_eq, List.append_assoc, Request.lines_flatMap]
    · have hempty : Request.lines ([] ++ Request.ending true ++ body) = [] :: Request.lines body :=
        Request.lines_ending (by simp) (by simp) true body
      exact congrArg _ hempty
    · intro line hmem
      obtain ⟨-, hreturn, hfeed⟩ := hbytes line hmem
      exact ⟨hfeed, fun hlast => hreturn (List.mem_of_getLast? hlast)⟩
  have hends : ∀ body, Loopback.headerLength? (response.header ++ body)
      = some response.header.length := by
    intro body
    rw [header_eq]
    exact Loopback.headerLength?_block (by simp [headerLines_eq])
      (fun line hmem => ⟨(hbytes line hmem).1, (hbytes line hmem).2.1⟩) body
  refine ⟨fun body => ?_, fun line hmem => (hlines line hmem).2, hends, fun wire body hwire => ?_,
    Decimal.write response.contentLength, Decimal.read?_write _, fun body => ?_⟩
  · rw [hread, headerLines_eq, List.map_cons, List.map_map]
    rfl
  · have hlength : (Loopback.headerLength? wire.toList).getD 0 = response.header.length := by
      rw [hwire, hends, Option.getD_some]
    simp only [Loopback.Received.ofWire, hlength]
    constructor
    · simp [hwire]
    · have hsize : wire.size = response.header.length + body.length := by
        rw [← Array.length_toList, hwire, List.length_append]
      simp [hwire, hsize]
  · have htake : ∀ lines rest : List Bytes, (∀ line ∈ lines, line ≠ []) →
        (lines ++ [] :: rest).takeWhile (· ≠ []) = lines := by
      intro lines rest hne
      rw [List.takeWhile_append_of_pos (by simpa using hne)]
      simp
    rw [hread, htake _ _ fun line hmem => (hbytes line hmem).1, lengths_header]

end Response

namespace Site

variable {H : Type} {site : Site H} {ask : H → Handler} {date requested : Text} {tree : Tree}
  {params : List Param} {response : Response}

/-- An answer has the date on which it is made. -/
lemma date_of_answer (h : site.answer ask date tree requested params = .ok response) :
    response.date = date := by
  have hsame := site.answer_date ask date date tree requested params
  rw [h] at hsame
  exact congrArg Response.date (Except.ok.inj hsame)

/-- What a handler has said is cut to the length that it has told. -/
lemma body_of_handled {mount : Mount H} {transaction : Transaction} {data : Bytes}
    (h : site.answer ask date tree requested params = .ok response)
    (hmount : site.mount? requested = some mount)
    (hask : ask mount.handler (Target.filePath site.policy site.root requested) params
      = .answered transaction data) :
    response.body = .data (data.take (transaction.length.getD data.length)) ∧
      response.contentLength = min (transaction.length.getD data.length) data.length := by
  simp only [answer, hmount, hask, Except.ok.injEq] at h
  subst h
  exact ⟨rfl, List.length_take⟩

end Site

/-- **Framing.**  A response whose date is a line tells a client where it ends: its header block is
the status line and five others, the first empty line ends it whatever the body has in it, and it
has one length, whose digits stand for the length of the body.  The answers of a site are such
responses when they are made on such a date; a body that a handler gives is cut to the length that
the handler has told, if there is so much of it. -/
theorem responses_framed :
    (∀ response : Response, response.date.IsLine →
      response.Framed ∧ ∀ bytes, response.body = .data bytes →
        response.contentLength = bytes.length) ∧
    ∀ (H : Type) (site : Site H) (ask : H → Handler) (date : Text) (tree : Tree) (requested : Text)
      (params : List Param) (response : Response), date.IsLine →
      site.answer ask date tree requested params = .ok response →
      response.Framed ∧
      ∀ (mount : Mount H) (transaction : Transaction) (data : Bytes),
        site.mount? requested = some mount →
        ask mount.handler (Target.filePath site.policy site.root requested) params
          = .answered transaction data →
        response.body = .data (data.take (transaction.length.getD data.length)) ∧
        response.contentLength = min (transaction.length.getD data.length) data.length := by
  refine ⟨fun response hdate => ⟨Response.framed hdate, ?_⟩,
    fun H site ask date tree requested params response hdate h => ⟨?_, ?_⟩⟩
  · intro bytes hbody
    rw [Response.contentLength, hbody, Body.length]
  · rw [← Site.date_of_answer h] at hdate
    exact Response.framed hdate
  · intro mount transaction data hmount hask
    exact Site.body_of_handled h hmount hask

/-- A response whose body looks like the end of a header block with another length. -/
def misleadingResponse : Response where
  status := .ok
  mediaType := .txt
  body := .data (Utf8.encode "Content-Length: 9\r\n\r\nabc".toList)
  date := "Thu, 01 Jan 1970 00:00:00 GMT".toList

/-- A site with a handler for one path. -/
def cuttingSite : Site Unit where
  root := ['/']
  index := "index.html".toList
  policy := .contained
  routes := .ofMounts [⟨"cut".toList, .path "/cut".toList, ()⟩]
  zone := .universal

/-- The handler has line ends to say and wants two of their bytes sent. -/
def cuttingHandler : Unit → Handler :=
  fun _ _ _ => .answered { length := some 2 } [13, 10, 13, 10]

theorem responses_framed_misleadingResponse :
    misleadingResponse.date.IsLine ∧ misleadingResponse.Framed ∧
      misleadingResponse.contentLength = 24 ∧
      ∃ response, cuttingSite.answer cuttingHandler misleadingResponse.date (.empty 0)
          "/cut".toList [] = .ok response ∧
        response.Framed ∧ response.body = .data [13, 10] ∧ response.contentLength = 2 := by
  have hdate : misleadingResponse.date.IsLine := by decide
  obtain ⟨hframed, hlength⟩ := responses_framed.1 misleadingResponse hdate
  have hmount : (cuttingSite.mount? "/cut".toList).isSome := by decide +kernel
  obtain ⟨mount, hmount⟩ := Option.isSome_iff_exists.1 hmount
  obtain ⟨response, hanswer⟩ : ∃ response, cuttingSite.answer cuttingHandler misleadingResponse.date
      (.empty 0) "/cut".toList [] = .ok response := by
    simp only [Site.answer, hmount, cuttingHandler]
    exact ⟨_, rfl⟩
  obtain ⟨hsent, hcut⟩ := responses_framed.2 Unit cuttingSite cuttingHandler _ _ _ _ response hdate
    hanswer
  exact ⟨hdate, hframed, hlength _ rfl, response, hanswer, hsent, hcut mount _ _ hmount rfl⟩

end SiteServer
