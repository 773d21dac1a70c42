import Mathlib.Data.List.Forall2
import Mathlib.Data.List.Nodup
import SiteServer.Proofs.Http.Framing
import SiteServer.Proofs.Http.Parameters
import SiteServer.Proofs.Http.RequestLine

/-!
# Requests that are written

A request that asks for a path with some parameters, and says some of what a header line can say, is
written with its header lines in any order.  Reading takes it apart again where it was put together:
at the line ends, at the two spaces of the request line, at the question mark, at the separators of
the query and at the first colon of each header line.  What stands between is in each case free of
the separator, and the caps and the white space that is taken away touch nothing in it.  So what is
read from a request is what has been written (`parse_write`).
-/

namespace SiteServer

open scoped List

/-! ### Names and texts -/

namespace Text

variable {a b name text : Text}

lemma sameName_congr (h : sameName a b = true) (c : Text) : sameName a c = sameName b c := by
  rw [sameName, eq_of_beq h, sameName]

/-- The text can be the value of a header line that keeps so many bytes. -/
structure IsValue (limit : Nat) (text : Text) : Prop where
  feed_not_mem : '\n' ∉ text
  first : ∀ c ∈ text.head?, isBlank c = false
  last : ∀ c ∈ text.getLast?, isBlank c = false
  size_le : Utf8.size text ≤ limit

instance (limit : Nat) (text : Text) : Decidable (text.IsValue limit) :=
  decidable_of_iff ('\n' ∉ text ∧ text.head?.all (fun c => ! isBlank c) = true ∧
      text.getLast?.all (fun c => ! isBlank c) = true ∧ Utf8.size text ≤ limit) <| by
    constructor
    · rintro ⟨hfeed, hfirst, hlast, hsize⟩
      exact ⟨hfeed, by simpa [Option.all_eq_true] using hfirst,
        by simpa [Option.all_eq_true] using hlast, hsize⟩
    · rintro ⟨hfeed, hfirst, hlast, hsize⟩
      exact ⟨hfeed, by simpa [Option.all_eq_true] using hfirst,
        by simpa [Option.all_eq_true] using hlast, hsize⟩

end Text

/-! ### Header lines -/

/-- The names of the header lines that are kept. -/
inductive HeaderName where
  | userAgent | referer | fromAddress | connection | host
  deriving DecidableEq

namespace HeaderName

def text : HeaderName → Text
  | .userAgent => "User-Agent".toList
  | .referer => "Referer".toList
  | .fromAddress => "From".toList
  | .connection => "Connection".toList
  | .host => "Host".toList

lemma sameName_text (name other : HeaderName) :
    Text.sameName name.text other.text = decide (name = other) := by
  cases name <;> cases other <;> decide

variable {name : HeaderName} {text : Text}

/-- A header name has no white space and no colon in it, whatever its case. -/
lemma ne_of_mem (hname : Text.sameName text name.text = true) {c : Char} (h : c ∈ text) :
    c ≠ ':' ∧ Text.isBlank c = false := by
  have hall : ∀ c ∈ Text.foldCase name.text, c ≠ ':' ∧ Text.isBlank c = false :=
    Text.forall_of_all (by cases name <;> decide)
  have hblanks : ∀ c ∈ Text.blanks, c.toLower = c := Text.forall_of_all (by decide)
  have hfold : c.toLower ∈ Text.foldCase name.text := by
    rw [← eq_of_beq hname]
    exact List.mem_map_of_mem h
  obtain ⟨hcolon, hblank⟩ := hall _ hfold
  constructor
  · rintro rfl
    exact hcolon rfl
  · by_contra hc
    have hmem : c ∈ Text.blanks := by simpa [Text.isBlank] using hc
    rw [hblanks c hmem] at hblank
    exact hc hblank

lemma trim_eq (hname : Text.sameName text name.text = true) : Text.trim text = text :=
  Text.trim_of_ends (fun _ hc => (ne_of_mem hname (List.mem_of_head? hc)).2)
    fun _ hc => (ne_of_mem hname (List.mem_of_getLast? hc)).2

/-- The headers with the value of a line that has the name. -/
def keep : HeaderName → Text → Headers → Headers
  | .userAgent, value, headers =>
    { headers with userAgent := some (Utf8.cut Headers.userAgentLimit value) }
  | .referer, value, headers =>
    { headers with referer := some (Utf8.cut Headers.refererLimit value) }
  | .fromAddress, value, headers =>
    { headers with fromAddress := some (Utf8.cut Headers.fromLimit value) }
  | .connection, value, headers => { headers with close := Headers.asksClose value }
  | .host, value, headers => { headers with authority := some (Authority.parse value) }

lemma sameName_eq (hname : Text.sameName text name.text = true) (other : HeaderName) :
    Text.sameName text other.text = decide (name = other) := by
  rw [Text.sameName_congr hname, sameName_text]

/-- Each name goes to its own place, whatever its case. -/
lemma capture_eq_keep (hname : Text.sameName text name.text = true) (value : Text)
    (headers : Headers) : headers.capture text value = name.keep value headers := by
  have hagent : Text.sameName text "User-Agent".toList = _ := sameName_eq hname .userAgent
  have hreferer : Text.sameName text "Referer".toList = _ := sameName_eq hname .referer
  have hfrom : Text.sameName text "From".toList = _ := sameName_eq hname .fromAddress
  have hconnection : Text.sameName text "Connection".toList = _ := sameName_eq hname .connection
  have hhost : Text.sameName text "Host".toList = _ := sameName_eq hname .host
  rw [Headers.capture, hagent, hreferer, hfrom, hconnection, hhost]
  cases name <;> rfl

end HeaderName

/-- What one header line says. -/
inductive HeaderField where
  | userAgent (text : Text)
  | referer (text : Text)
  | fromAddress (text : Text)
  /-- The connection is to be closed. -/
  | close
  | host (name : Text) (port : Option Nat)
  deriving DecidableEq

namespace HeaderField

def name : HeaderField → HeaderName
  | .userAgent _ => .userAgent
  | .referer _ => .referer
  | .fromAddress _ => .fromAddress
  | .close => .connection
  | .host _ _ => .host

def value : HeaderField → Text
  | .userAgent text | .referer text | .fromAddress text => text
  | .close => "close".toList
  | .host name none => name
  | .host name (some port) => name ++ ':' :: Decimal.write port

/-- The headers with what the line says. -/
def record : HeaderField → Headers → Headers
  | .userAgent text, headers => { headers with userAgent := some text }
  | .referer text, headers => { headers with referer := some text }
  | .fromAddress text, headers => { headers with fromAddress := some text }
  | .close, headers => { headers with close := true }
  | .host name port, headers =>
    { headers with authority := some ⟨name, port.getD Authority.defaultPort⟩ }

/-- What the line says is kept as a whole. -/
def Fits : HeaderField → Prop
  | .userAgent text => text.IsValue 128
  | .referer text => text.IsValue 128
  | .fromAddress text => text.IsValue 64
  | .close => True
  | .host name port => name.IsValue 64 ∧ ':' ∉ name ∧ ∀ number ∈ port, number ≤ 65535

/-- The line writes the field, with its name in any case. -/
def Writes (field : HeaderField) (line : Text) : Prop :=
  ∃ name, Text.sameName name field.name.text = true ∧ line = Headers.fieldLine name field.value

variable {field : HeaderField} {name : Text}

/-- A host that can be a value can be one with a port behind it. -/
lemma isValue_host {limit : Nat} {host : Text} (h : host.IsValue limit) (port : Option Nat) :
    ∃ limit, (HeaderField.host host port).value.IsValue limit := by
  cases port with
  | none => exact ⟨_, h⟩
  | some port =>
    have hne : ':' :: Decimal.write port ≠ [] := List.cons_ne_nil _ _
    refine ⟨_, ?_, ?_, ?_, Nat.le_refl _⟩
    · intro hmem
      rcases List.mem_append.1 hmem with hmem | hmem
      · exact h.feed_not_mem hmem
      · rcases List.mem_cons.1 hmem with heq | hmem
        · simp at heq
        · simpa using Decimal.isDigit_of_mem_write hmem
    · intro c hc
      rcases host with _ | ⟨first, host⟩
      · obtain rfl : ':' = c := Option.some.inj hc
        decide
      · exact h.first c hc
    · intro c hc
      rw [value, List.getLast?_append_of_ne_nil _ hne,
        List.getLast?_cons_of_ne_nil (Decimal.write_ne_nil port)] at hc
      exact Text.isBlank_of_isDigit (Decimal.isDigit_of_mem_write (List.mem_of_getLast? hc))

lemma Fits.isValue_value (h : field.Fits) : ∃ limit, field.value.IsValue limit := by
  cases field with
  | userAgent text => exact ⟨_, h⟩
  | referer text => exact ⟨_, h⟩
  | fromAddress text => exact ⟨_, h⟩
  | close => exact ⟨5, by decide⟩
  | host name port => exact isValue_host h.1 port

/-- A header line is a line. -/
lemma Writes.isLine {limit : Nat} {line : Text} (hline : field.Writes line)
    (hvalue : field.value.IsValue limit) :
    '\n' ∉ line ∧ line.getLast? ≠ some '\r' ∧ line ≠ [] := by
  obtain ⟨name, hname, rfl⟩ := hline
  refine ⟨fun hfeed => ?_, fun hlast => ?_, by simp [Headers.fieldLine]⟩
  · rcases List.mem_append.1 hfeed with hfeed | hfeed
    · exact absurd (HeaderName.ne_of_mem hname hfeed).2 (by decide)
    · rcases List.mem_cons.1 hfeed with heq | hfeed
      · simp at heq
      rcases List.mem_cons.1 hfeed with heq | hfeed
      · simp at heq
      · exact hvalue.feed_not_mem hfeed
  · rw [Headers.fieldLine, List.getLast?_append_of_ne_nil _ (List.cons_ne_nil _ _),
      List.getLast?_cons_cons] at hlast
    rcases hvalue' : field.value with _ | ⟨c, rest⟩
    · simp [hvalue'] at hlast
    · rw [hvalue', List.getLast?_cons_cons, ← hvalue'] at hlast
      exact absurd (hvalue.last _ hlast) (by decide)

/-! ### Reading a header line -/

lemma readPort?_write {port : Nat} (h : port ≤ 65535) :
    Authority.readPort? (Decimal.write port) = some port := by
  have hplus : ∀ digits : Text, Decimal.write port ≠ '+' :: digits := by
    intro digits heq
    have hdigit : ('+' : Char).isDigit = true :=
      Decimal.isDigit_of_mem_write (by rw [heq]; exact List.mem_cons_self)
    simp at hdigit
  unfold Authority.readPort?
  split
  · next heq => exact absurd heq (hplus _)
  · simp only [Decimal.read?_write, Option.filter_some, Nat.lt_succ_of_le h, decide_true, if_true]

lemma parse_authority {host : Text} {port : Option Nat} (h : (HeaderField.host host port).Fits) :
    Authority.parse (HeaderField.host host port).value
      = ⟨host, port.getD Authority.defaultPort⟩ := by
  obtain ⟨hvalue, hcolon, hport⟩ := h
  have hcut : Utf8.cut Authority.hostLimit host = host := Utf8.cut_of_size_le hvalue.size_le
  cases port with
  | none =>
    simp only [value, Authority.parse, Text.splitFirst?_eq_none_iff.2 hcolon, hcut,
      Option.getD_none]
  | some port =>
    have htrim : Text.trim (Decimal.write port) = Decimal.write port :=
      Text.trim_of_isDigit fun c hmem => Decimal.isDigit_of_mem_write hmem
    simp only [value, Authority.parse, Text.splitFirst?_append_sep hcolon, hcut, htrim,
      readPort?_write (hport port rfl), Option.getD_some]

/-- What fits is kept as it is. -/
lemma capture_eq (hname : Text.sameName name field.name.text = true) (h : field.Fits)
    (headers : Headers) : headers.capture name field.value = field.record headers := by
  rw [HeaderName.capture_eq_keep hname]
  cases field with
  | userAgent text =>
    have hcut : Utf8.cut Headers.userAgentLimit text = text := Utf8.cut_of_size_le h.size_le
    simp only [HeaderField.name, HeaderName.keep, value, record, hcut]
  | referer text =>
    have hcut : Utf8.cut Headers.refererLimit text = text := Utf8.cut_of_size_le h.size_le
    simp only [HeaderField.name, HeaderName.keep, value, record, hcut]
  | fromAddress text =>
    have hcut : Utf8.cut Headers.fromLimit text = text := Utf8.cut_of_size_le h.size_le
    simp only [HeaderField.name, HeaderName.keep, value, record, hcut]
  | close =>
    have hasks : Headers.asksClose HeaderField.close.value = true := by decide
    simp only [HeaderField.name, HeaderName.keep, record, hasks]
  | host host port => simp only [HeaderField.name, HeaderName.keep, record, parse_authority h]

lemma addLine_eq {line : Text} (hline : field.Writes line) (h : field.Fits) (headers : Headers) :
    headers.addLine (Utf8.encode line) = field.record headers := by
  obtain ⟨name, hname, rfl⟩ := hline
  obtain ⟨limit, hvalue⟩ := h.isValue_value
  have hcolon : ':' ∉ name := fun hmem => (HeaderName.ne_of_mem hname hmem).1 rfl
  rw [Headers.addLine, Headers.field?_fieldLine hcolon, HeaderName.trim_eq hname,
    Text.trim_of_ends hvalue.first hvalue.last]
  exact capture_eq hname h headers

lemma exists_writes {fields : List HeaderField} {lines : List Text}
    (h : List.Forall₂ Writes fields lines) {line : Text} (hmem : line ∈ lines) :
    ∃ field ∈ fields, field.Writes line := by
  induction h with
  | nil => simp at hmem
  | @cons field _ _ _ hline _ ih =>
    rcases List.mem_cons.1 hmem with rfl | hmem
    · exact ⟨field, List.mem_cons_self, hline⟩
    · obtain ⟨other, hother, hwrites⟩ := ih hmem
      exact ⟨other, List.mem_cons_of_mem _ hother, hwrites⟩

/-- Lines with different names may be read in either order. -/
lemma record_comm {a b : HeaderField} (h : a.name ≠ b.name) (headers : Headers) :
    b.record (a.record headers) = a.record (b.record headers) := by
  cases a <;> cases b <;> first | rfl | exact absurd rfl h

end HeaderField

/-! ### Whole requests -/

/-- What a request is to say. -/
structure RequestDraft where
  version : Version
  path : Text
  params : List Param
  userAgent : Option Text
  referer : Option Text
  fromAddress : Option Text
  /-- The host, and its port when it is to be named. -/
  host : Option (Text × Option Nat)
  close : Bool

namespace RequestDraft

/-- What the header lines are to say. -/
def fields (draft : RequestDraft) : List HeaderField :=
  draft.userAgent.toList.map .userAgent ++ draft.referer.toList.map .referer
    ++ draft.fromAddress.toList.map .fromAddress ++ (if draft.close then [.close] else [])
    ++ draft.host.toList.map fun (name, port) => .host name port

def target (draft : RequestDraft) : Text :=
  if draft.params = [] then draft.path else draft.path ++ '?' :: Query.write draft.params

def requestLine (draft : RequestDraft) : Text :=
  "GET".toList ++ ' ' :: (draft.target ++ ' ' :: draft.version.text)

/-- The request as it is sent with some header lines. -/
def write (draft : RequestDraft) (lines : List Text) : Bytes :=
  ((draft.requestLine :: lines).map Utf8.encode).flatMap (· ++ Request.ending true)
    ++ Request.ending true

/-- The lines say what the header lines are to say, in any order and with the names in any case. -/
def HasLines (draft : RequestDraft) (lines : List Text) : Prop :=
  ∃ order, order ~ draft.fields ∧ List.Forall₂ HeaderField.Writes order lines

/-- The request that the draft describes. -/
def request (draft : RequestDraft) : Request where
  version := draft.version
  path := draft.path
  params := draft.params
  headers :=
    { userAgent := draft.userAgent
      referer := draft.referer
      fromAddress := draft.fromAddress
      authority := draft.host.map fun (name, port) => ⟨name, port.getD Authority.defaultPort⟩
      close := draft.close }

/-- The text is ASCII and has none of some characters. -/
def Avoids (chars text : Text) : Prop :=
  ∀ c ∈ text, c.toNat < 128 ∧ c ∉ chars

instance (chars text : Text) : Decidable (Avoids chars text) :=
  decidable_of_iff (text.all (fun c => decide (c.toNat < 128 ∧ c ∉ chars)) = true)
    ⟨Text.forall_of_all, fun h => List.all_eq_true.2 fun c hmem => decide_eq_true (h c hmem)⟩

/-- The request can be written down. -/
structure WellFormed (draft : RequestDraft) : Prop where
  path_ne_nil : draft.path ≠ []
  path : Avoids [' ', '\n', '?', '%'] draft.path
  length_params_le : draft.params.length ≤ 64
  keys : ∀ param ∈ draft.params, param.key ≠ [] ∧ Avoids [' ', '\n', '%', '&', '='] param.key
  values : ∀ param ∈ draft.params, param.value ≠ [] ∧ Avoids [' ', '\n', '%', '&'] param.value
  fits : ∀ field ∈ draft.fields, field.Fits

section

variable {draft : RequestDraft} {lines : List Text}

/-! ### The target -/

lemma Avoids.not_mem {chars text : Text} {c : Char} (h : Avoids chars text) (hc : c ∈ chars) :
    c ∉ text :=
  fun hmem => (h c hmem).2 hc

lemma Avoids.mono {chars chars' text : Text} (h : Avoids chars text) (hsub : chars' ⊆ chars) :
    Avoids chars' text :=
  fun c hmem => ⟨(h c hmem).1, fun hc => (h c hmem).2 (hsub hc)⟩

lemma Avoids.append_cons {chars a b : Text} {c : Char} (ha : Avoids chars a) (hb : Avoids chars b)
    (hc : c.toNat < 128 ∧ c ∉ chars) : Avoids chars (a ++ c :: b) := by
  intro d hmem
  rcases List.mem_append.1 hmem with hmem | hmem
  · exact ha d hmem
  · rcases List.mem_cons.1 hmem with rfl | hmem
    · exact hc
    · exact hb d hmem

lemma avoids_segment (h : draft.WellFormed) {param : Param} (hmem : param ∈ draft.params) :
    Avoids [' ', '\n', '%', '&'] param.segment :=
  .append_cons ((h.keys param hmem).2.mono (by decide)) (h.values param hmem).2 (by decide)

lemma avoids_query (h : draft.WellFormed) :
    Avoids [' ', '\n', '%'] (Query.write draft.params) := by
  have hall : ∀ params : List Param, (∀ param ∈ params, param ∈ draft.params) →
      Avoids [' ', '\n', '%'] (Query.write params) := by
    intro params
    induction params with
    | nil => simp [Query.write, List.intercalate, Avoids]
    | cons param more ih =>
      intro hsub
      have hparam : Avoids [' ', '\n', '%'] param.segment :=
        (avoids_segment h (hsub param List.mem_cons_self)).mono (by decide)
      rcases more with _ | ⟨next, more⟩
      · simpa [Query.write, List.intercalate] using hparam
      · have hmore := ih fun param hmem => hsub param (List.mem_cons_of_mem _ hmem)
        rw [Query.write, List.map_cons, List.map_cons, List.intercalate_cons_cons,
          List.append_assoc, List.singleton_append]
        exact .append_cons hparam hmore (by decide)
  exact hall draft.params fun _ hmem => hmem

lemma avoids_target (h : draft.WellFormed) : Avoids [' ', '\n', '%'] draft.target := by
  have hpath : Avoids [' ', '\n', '%'] draft.path := h.path.mono (by decide)
  unfold target
  split
  · exact hpath
  · exact .append_cons hpath (avoids_query h) (by decide)

lemma WellFormed.isWritable_of_mem (h : draft.WellFormed) {param : Param}
    (hmem : param ∈ draft.params) : param.IsWritable := by
  obtain ⟨hkey, hkeyChars⟩ := h.keys param hmem
  obtain ⟨hvalue, hvalueChars⟩ := h.values param hmem
  exact ⟨hkey, hkeyChars.not_mem (by decide), hkeyChars.not_mem (by decide), hvalue,
    hvalueChars.not_mem (by decide)⟩

/-- Each segment writes its parameter, and there are not too many of them. -/
lemma parse_write_query (h : draft.WellFormed) :
    Query.parse (Query.write draft.params) = draft.params := by
  have hwrites := Query.writes_segments fun param hmem => h.isWritable_of_mem hmem
  exact hwrites.parse.trans (List.take_of_length_le h.length_params_le)

lemma splitTarget_target (h : draft.WellFormed) :
    Request.splitTarget draft.target = (draft.path, draft.params) := by
  have hdecode : Escape.decode draft.target = draft.target :=
    Escape.decode_of_not_mem ((avoids_target h).not_mem (by decide))
  have hquestion : '?' ∉ draft.path := h.path.not_mem (by decide)
  by_cases hparams : draft.params = []
  · have htarget : draft.target = draft.path := if_pos hparams
    rw [Request.splitTarget_of_not_mem (by rwa [hdecode, htarget]), hdecode, htarget, hparams]
  · have hcut : Escape.decode draft.target = draft.path ++ '?' :: Query.write draft.params :=
      hdecode.trans (if_neg hparams)
    rw [Request.splitTarget_of_cut hcut hquestion, parse_write_query h]

/-! ### The request line -/

lemma version_text (version : Version) :
    Avoids [' ', '\n'] version.text ∧ version.text ≠ [] ∧ version.text.getLast? ≠ some '\r' := by
  cases version <;> decide

lemma avoids_requestLine (h : draft.WellFormed) :
    (∀ c ∈ draft.requestLine, c.toNat < 128) ∧ '\n' ∉ draft.requestLine := by
  have hget : Avoids ['\n'] "GET".toList := by decide
  have hline : Avoids ['\n'] draft.requestLine :=
    .append_cons hget (.append_cons ((avoids_target h).mono (by decide))
      ((version_text draft.version).1.mono (by decide)) (by decide)) (by decide)
  exact ⟨fun c hmem => (hline c hmem).1, hline.not_mem (by decide)⟩

lemma target_ne_nil (h : draft.WellFormed) : draft.target ≠ [] := by
  unfold target
  split
  · exact h.path_ne_nil
  · exact List.append_ne_nil_of_left_ne_nil h.path_ne_nil _

lemma words_requestLine (h : draft.WellFormed) :
    Request.words draft.requestLine = ["GET".toList, draft.target, draft.version.text] := by
  obtain ⟨hversion, hne, -⟩ := version_text draft.version
  have hpieces : Text.pieces ' ' draft.requestLine
      = ["GET".toList, draft.target, draft.version.text] := by
    rw [requestLine, Text.pieces_append_sep, Text.pieces_of_not_mem (by decide),
      Text.pieces_append_sep, Text.pieces_of_not_mem ((avoids_target h).not_mem (by decide)),
      Text.pieces_of_not_mem (hversion.not_mem (by decide))]
    rfl
  have hwords : ∀ word ∈ ["GET".toList, draft.target, draft.version.text], decide (word ≠ []) := by
    intro word hmem
    rcases List.mem_cons.1 hmem with rfl | hmem
    · decide
    rcases List.mem_cons.1 hmem with rfl | hmem
    · exact decide_eq_true (target_ne_nil h)
    · obtain rfl := List.mem_singleton.1 hmem
      exact decide_eq_true hne
  rw [Request.words, hpieces, List.filter_eq_self.2 hwords]

lemma parseLine_requestLine (h : draft.WellFormed) :
    Request.parseLine (Utf8.encode draft.requestLine) = .ok (draft.version, draft.target) := by
  obtain ⟨hascii, -⟩ := avoids_requestLine h
  have hbytes : Request.IsAscii (Utf8.encode draft.requestLine) :=
    fun b hmem => Nat.le_of_lt_succ (Utf8.toNat_lt_of_mem_encode hascii hmem)
  have hread : Request.words (Text.ofBytes (Utf8.encode draft.requestLine))
      = ["GET".toList, draft.target, draft.version.text] := by
    rw [Utf8.ofBytes_encode hascii, words_requestLine h]
  rw [Request.parseLine_of_three hbytes hread, Version.parse_text]
  rfl

/-! ### The header lines -/

/-- Lines that write some fields record them one after the other. -/
lemma foldl_addLine {order : List HeaderField}
    (hlines : List.Forall₂ HeaderField.Writes order lines)
    (hfits : ∀ field ∈ order, field.Fits) (headers : Headers) :
    (lines.map Utf8.encode).foldl Headers.addLine headers
      = order.foldl (fun headers field => field.record headers) headers := by
  induction hlines generalizing headers with
  | nil => rfl
  | cons hline _ ih =>
    rw [List.map_cons, List.foldl_cons, List.foldl_cons,
      HeaderField.addLine_eq hline (hfits _ List.mem_cons_self),
      ih fun field hmem => hfits field (List.mem_cons_of_mem _ hmem)]

/-- No name comes twice. -/
lemma nodup_names (draft : RequestDraft) : (draft.fields.map HeaderField.name).Nodup := by
  obtain ⟨version, path, params, userAgent, referer, fromAddress, host, close⟩ := draft
  rcases userAgent with _ | userAgent <;> rcases referer with _ | referer <;>
    rcases fromAddress with _ | fromAddress <;> rcases host with _ | ⟨host, port⟩ <;>
    cases close <;> simp [fields, HeaderField.name]

lemma foldl_record_fields (draft : RequestDraft) :
    draft.fields.foldl (fun headers field => field.record headers) ({} : Headers)
      = draft.request.headers := by
  obtain ⟨version, path, params, userAgent, referer, fromAddress, host, close⟩ := draft
  rcases userAgent with _ | userAgent <;> rcases referer with _ | referer <;>
    rcases fromAddress with _ | fromAddress <;> rcases host with _ | ⟨host, port⟩ <;>
    cases close <;> rfl

/-- The order of the header lines means nothing. -/
lemma ofLines_lines (h : draft.WellFormed) (hlines : draft.HasLines lines) :
    Headers.ofLines (lines.map Utf8.encode) = draft.request.headers := by
  obtain ⟨order, hperm, hwrites⟩ := hlines
  have hcomm : ∀ a ∈ order, ∀ b ∈ order, ∀ headers : Headers,
      b.record (a.record headers) = a.record (b.record headers) := by
    intro a ha b hb headers
    by_cases hab : a = b
    · rw [hab]
    · have hinj := List.inj_on_of_nodup_map (nodup_names draft)
      exact HeaderField.record_comm
        (fun hname => hab (hinj (hperm.mem_iff.1 ha) (hperm.mem_iff.1 hb) hname)) headers
  calc Headers.ofLines (lines.map Utf8.encode)
      _ = order.foldl (fun headers field => field.record headers) ({} : Headers) :=
        foldl_addLine hwrites (fun field hmem => h.fits field (hperm.mem_iff.1 hmem)) _
      _ = draft.fields.foldl (fun headers field => field.record headers) ({} : Headers) :=
        hperm.foldl_eq' hcomm _
      _ = draft.request.headers := foldl_record_fields draft

lemma line_of_mem (h : draft.WellFormed) (hlines : draft.HasLines lines) {line : Text}
    (hmem : line ∈ lines) : '\n' ∉ line ∧ line.getLast? ≠ some '\r' ∧ line ≠ [] := by
  obtain ⟨order, hperm, hwrites⟩ := hlines
  obtain ⟨field, hfield, hline⟩ := HeaderField.exists_writes hwrites hmem
  obtain ⟨limit, hvalue⟩ := (h.fits field (hperm.mem_iff.1 hfield)).isValue_value
  exact hline.isLine hvalue

/-- **Round trip.**  A request that is written down, with its header lines in any order and their
names in any case, is what is read. -/
theorem parse_write (h : draft.WellFormed) (hlines : draft.HasLines lines) :
    Request.parse (draft.write lines) = .ok draft.request := by
  obtain ⟨hascii, hfeed⟩ := avoids_requestLine h
  have hlast : draft.requestLine.getLast? ≠ some '\r' := by
    obtain ⟨-, hne, hversion⟩ := version_text draft.version
    have hrest : draft.target ++ ' ' :: draft.version.text ≠ [] :=
      List.append_ne_nil_of_right_ne_nil _ (List.cons_ne_nil _ _)
    rwa [requestLine, List.getLast?_append_of_ne_nil _ (List.cons_ne_nil _ _),
      List.getLast?_cons_of_ne_nil hrest,
      List.getLast?_append_of_ne_nil _ (List.cons_ne_nil _ _), List.getLast?_cons_of_ne_nil hne]
  have hbytes : ∀ line ∈ (draft.requestLine :: lines).map Utf8.encode,
      10 ∉ line ∧ line.getLast? ≠ some 13 := by
    intro line hmem
    obtain ⟨text, htext, rfl⟩ := List.mem_map.1 hmem
    have hchars : '\n' ∉ text ∧ text.getLast? ≠ some '\r' := by
      rcases List.mem_cons.1 htext with rfl | htext
      · exact ⟨hfeed, hlast⟩
      · exact ⟨(line_of_mem h hlines htext).1, (line_of_mem h hlines htext).2.1⟩
    exact ⟨Utf8.not_mem_encode hchars.1 (by decide),
      mt (Utf8.getLast?_encode_iff (by decide)).1 hchars.2⟩
  have hread : Request.lines (draft.write lines)
      = Utf8.encode draft.requestLine :: (lines.map Utf8.encode ++ [[], []]) := by
    rw [write, Request.lines_flatMap hbytes]
    rfl
  have hkept : (lines.map Utf8.encode ++ [[], []]).filter (· ≠ []) = lines.map Utf8.encode := by
    rw [List.filter_append, List.filter_eq_self.2]
    · simp
    · intro line hmem
      obtain ⟨text, htext, rfl⟩ := List.mem_map.1 hmem
      refine decide_eq_true fun hnil => (line_of_mem h hlines htext).2.2 ?_
      rw [← Utf8.decode_encode_text text, hnil, Utf8.decode_nil]
  simp only [Request.parse, hread, parseLine_requestLine h, splitTarget_target h, hkept,
    ofLines_lines h hlines]
  rfl

end

/-- A draft with two parameters and some headers. -/
def sampleDraft : RequestDraft where
  version := .http10
  path := "/a\r#b".toList
  params := [⟨"k".toList, "v=w".toList⟩, ⟨"k?".toList, "2".toList⟩]
  userAgent := some "a: b \u00e4".toList
  referer := none
  fromAddress := some []
  host := some ("h".toList, some 8080)
  close := true

/-- The header lines of that draft in another order. -/
def sampleLines : List Text :=
  ["hOST: h:8080".toList, "connection: close".toList, "FROM: ".toList,
   "user-Agent: a: b \u00e4".toList]

theorem parse_write_sampleDraft :
    sampleDraft.WellFormed ∧ sampleDraft.HasLines sampleLines ∧
      Request.parse (sampleDraft.write sampleLines) = .ok sampleDraft.request := by
  have hwell : sampleDraft.WellFormed := by
    refine ⟨by decide, by decide, by decide, by decide, by decide, ?_⟩
    have hagent : Text.IsValue 128 "a: b \u00e4".toList := by decide
    have hempty : Text.IsValue 64 [] := by decide
    have hhost : Text.IsValue 64 "h".toList := by decide
    exact List.forall_mem_cons.2 ⟨hagent, List.forall_mem_cons.2 ⟨hempty, List.forall_mem_cons.2
      ⟨trivial, List.forall_mem_cons.2 ⟨⟨hhost, by decide, by decide⟩, nofun⟩⟩⟩⟩
  have hlines : sampleDraft.HasLines sampleLines :=
    ⟨sampleDraft.fields.reverse, List.reverse_perm _,
      .cons ⟨"hOST".toList, by decide, by decide⟩ (.cons ⟨"connection".toList, by decide, by decide⟩
        (.cons ⟨"FROM".toList, by decide, by decide⟩
          (.cons ⟨"user-Agent".toList, by decide, by decide⟩ .nil)))⟩
  exact ⟨hwell, hlines, parse_write hwell hlines⟩

end RequestDraft

end SiteServer
