import SiteServer.Proofs.Http.HeaderSection
import SiteServer.Proofs.Text.Capping

/-!
# What is kept of the header lines

Four kinds of header lines leave a text or an authority in the request.  Of the lines that have such
a name, in any case of its letters, the last one counts (`SaysLast`); other lines have no influence,
and it makes no difference how the lines of one name stand among those of the others.  Of a value
the longest beginning is kept that fits into the bytes for it, and of a host its port, when that is
a number a port can have (`Authority.ReadFrom`).  `values_captured` says this of all buffers with a
request line that is accepted.
-/

namespace SiteServer

namespace Headers

variable {name : HeaderName} {lines front back : List Bytes} {line : Bytes} {value : Text}

/-! ### Lines with a name -/

/-- The line has the name, in any case of its letters, and the value: they stand before and behind
its first colon, without the white space at their ends. -/
def Says (name : HeaderName) (line : Bytes) (value : Text) : Prop :=
  ∃ before after, Utf8.decode line = before ++ ':' :: after ∧ ':' ∉ before ∧
    Text.sameName (Text.trim before) name.text = true ∧ Text.trim after = value

/-- The last line that has the name has the value. -/
def SaysLast (name : HeaderName) (lines : List Bytes) (value : Text) : Prop :=
  ∃ before line after, lines = before ++ line :: after ∧ Says name line value ∧
    ∀ other ∈ after, ∀ value', ¬ Says name other value'

/-- Whether a line has the name. -/
def hasName (name : HeaderName) (line : Bytes) : Bool :=
  (field? line).any fun field => Text.sameName field.1 name.text

/-- Under a name is kept what its last line says, as `Reads` takes it, and nothing if no line has
the name. -/
structure Keeps {α : Type} (name : HeaderName) (Reads : Text → α → Prop) (lines : List Bytes)
    (kept : Option α) : Prop where
  some_iff : ∀ a, kept = some a ↔ ∃ value, SaysLast name lines value ∧ Reads value a
  none_iff : kept = none ↔ ∀ line ∈ lines, ∀ value, ¬ Says name line value

lemma says_iff : Says name line value ↔
    ∃ word, field? line = some (word, value) ∧ Text.sameName word name.text = true := by
  constructor
  · rintro ⟨before, after, hline, hcolon, hname, rfl⟩
    refine ⟨Text.trim before, ?_, hname⟩
    rw [field?, hline, Text.splitFirst?_append_sep hcolon]
    rfl
  · rintro ⟨word, hfield, hname⟩
    obtain ⟨⟨before, after⟩, hsplit, hpair⟩ := Option.map_eq_some_iff.1 hfield
    obtain ⟨rfl, rfl⟩ := Prod.mk.inj hpair
    obtain ⟨hline, hcolon⟩ := Text.splitFirst?_eq_some hsplit
    exact ⟨before, after, hline, hcolon, hname, rfl⟩

lemma hasName_iff : hasName name line = true ↔ ∃ value, Says name line value := by
  rw [hasName, Option.any_eq_true_iff_get]
  simp only [says_iff]
  constructor
  · rintro ⟨hsome, hname⟩
    exact ⟨_, _, (Option.some_get hsome).symm, hname⟩
  · rintro ⟨value, word, hfield, hname⟩
    simp [hfield, hname]

lemma said_append (name : HeaderName) (front back : List Bytes) :
    said name (front ++ back) = (said name back).or (said name front) := by
  simp only [said, named, List.filterMap_append, List.filter_append, List.map_append,
    List.getLast?_append]

lemma said_cons (name : HeaderName) (line : Bytes) (lines : List Bytes) :
    said name (line :: lines) = (said name lines).or (said name [line]) :=
  said_append name [line] lines

lemma said_singleton_eq_some_iff : said name [line] = some value ↔ Says name line value := by
  rw [says_iff]
  rcases hfield : field? line with _ | ⟨word, value'⟩
  · have hsaid : said name ([] ++ [line]) = none := said_concat_of_none hfield
    rw [List.nil_append] at hsaid
    simp [hsaid]
  · have hsaid : said name ([] ++ [line])
        = if Text.sameName word name.text then some value' else none := said_concat hfield
    rw [List.nil_append] at hsaid
    rw [hsaid]
    by_cases hname : Text.sameName word name.text = true
    · simp [hname]
    · simp [hname]

lemma said_singleton_eq_none_iff :
    said name [line] = none ↔ ∀ value, ¬ Says name line value := by
  simp only [Option.eq_none_iff_forall_ne_some, ne_eq, said_singleton_eq_some_iff]

lemma said_eq_none_iff :
    said name lines = none ↔ ∀ line ∈ lines, ∀ value, ¬ Says name line value := by
  induction lines with
  | nil => simp [said, named]
  | cons line lines ih =>
    rw [said_cons, Option.or_eq_none_iff, ih, said_singleton_eq_none_iff, List.forall_mem_cons,
      and_comm]

/-- What the lines say last is what the last line with the name says. -/
lemma saysLast_iff : SaysLast name lines value ↔ said name lines = some value := by
  constructor
  · rintro ⟨before, line, after, rfl, hline, hafter⟩
    rw [said_append, said_cons, said_eq_none_iff.2 hafter, said_singleton_eq_some_iff.2 hline]
    rfl
  · intro hsaid
    induction lines with
    | nil => simp [said, named] at hsaid
    | cons line lines ih =>
      rw [said_cons, Option.or_eq_some_iff] at hsaid
      rcases hsaid with hsaid | ⟨hnone, hline⟩
      · obtain ⟨before, last, after, rfl, hlast, hafter⟩ := ih hsaid
        exact ⟨line :: before, last, after, rfl, hlast, hafter⟩
      · exact ⟨[], line, lines, rfl, said_singleton_eq_some_iff.1 hline, said_eq_none_iff.1 hnone⟩

/-- Lines without the name say nothing under it. -/
lemma said_filter_hasName (name : HeaderName) (lines : List Bytes) :
    said name (lines.filter (hasName name)) = said name lines := by
  induction lines with
  | nil => rfl
  | cons line lines ih =>
    by_cases hline : hasName name line = true
    · rw [List.filter_cons_of_pos hline, said_cons, ih, ← said_cons]
    · have hnone : said name [line] = none := by
        rw [said_singleton_eq_none_iff]
        intro value hsays
        exact hline (hasName_iff.2 ⟨value, hsays⟩)
      rw [List.filter_cons_of_neg hline, said_cons, ih, hnone, Option.or_none]

/-- Headers that have nothing under a name keep what the lines say last under it. -/
lemma keeps_or_none {α : Type} {Reads : Text → α → Prop} {read : Text → α}
    (hreads : ∀ value a, Reads value a ↔ read value = a) (name : HeaderName)
    (lines : List Bytes) : Keeps name Reads lines (((said name lines).map read).or none) := by
  rw [Option.or_none]
  constructor
  · intro a
    simp only [Option.map_eq_some_iff, saysLast_iff, hreads]
  · rw [Option.map_eq_none_iff, said_eq_none_iff]

/-- Headers are revised in the same way by lines that agree under each name. -/
lemma revised_congr (headers : Headers) (h : ∀ name, front.filter (hasName name)
    = back.filter (hasName name)) : headers.revised front = headers.revised back := by
  have hsaid : ∀ name, said name front = said name back := by
    intro name
    rw [← said_filter_hasName, h name, said_filter_hasName]
  simp only [revised, hsaid]

end Headers

/-! ### Hosts and ports -/

namespace Authority

variable {text value : Text} {port : Nat} {authority : Authority}

/-- The text is a number that a port can have, perhaps with a plus sign before its digits. -/
def NamesPort (text : Text) (port : Nat) : Prop :=
  ∃ digits, (text = digits ∨ text = '+' :: digits) ∧ digits ≠ [] ∧
    (∀ c ∈ digits, c.isDigit = true) ∧ Decimal.value digits = port ∧ port ≤ 65535

/-- What a value says of the host and the port. -/
inductive ReadFrom (value : Text) : Authority → Prop where
  | alone {host : Text} (colon_not_mem : ':' ∉ value) (kept : Utf8.IsCap 64 value host) :
      ReadFrom value ⟨host, 80⟩
  | withPort {before after host : Text} {port : Nat} (split : value = before ++ ':' :: after)
      (first : ':' ∉ before) (kept : Utf8.IsCap 64 before host)
      (names : NamesPort (Text.trim after) port) : ReadFrom value ⟨host, port⟩
  /-- What stands behind the colon is no port. -/
  | withoutPort {before after host : Text} (split : value = before ++ ':' :: after)
      (first : ':' ∉ before) (kept : Utf8.IsCap 64 before host)
      (names : ∀ port, ¬ NamesPort (Text.trim after) port) : ReadFrom value ⟨host, 80⟩

lemma filter_read?_eq_some_iff {digits : Text} :
    (Decimal.read? digits).filter (· < 65536) = some port ↔
      digits ≠ [] ∧ (∀ c ∈ digits, c.isDigit = true) ∧ Decimal.value digits = port ∧
        port ≤ 65535 := by
  rw [Option.filter_eq_some_iff, Decimal.read?]
  by_cases hdigits : digits ≠ [] ∧ digits.all Char.isDigit = true
  · rw [if_pos hdigits, Option.some.injEq, decide_eq_true_eq]
    rw [List.all_eq_true] at hdigits
    constructor
    · rintro ⟨hvalue, hlt⟩
      exact ⟨hdigits.1, hdigits.2, hvalue, Nat.le_of_lt_succ hlt⟩
    · rintro ⟨-, -, hvalue, hle⟩
      exact ⟨hvalue, Nat.lt_succ_of_le hle⟩
  · rw [if_neg hdigits]
    rw [List.all_eq_true] at hdigits
    constructor
    · rintro ⟨hnone, -⟩
      exact absurd hnone (by simp)
    · rintro ⟨hne, hall, -⟩
      exact absurd ⟨hne, hall⟩ hdigits

lemma readPort?_eq_some_iff : readPort? text = some port ↔ NamesPort text port := by
  unfold readPort?
  split
  · next digits =>
    rw [filter_read?_eq_some_iff]
    constructor
    · intro hdigits
      exact ⟨digits, .inr rfl, hdigits⟩
    · rintro ⟨digits', rfl | heq, hdigits⟩
      · -- a plus sign is no digit
        have hplus := hdigits.2.1 '+' List.mem_cons_self
        simp at hplus
      · obtain rfl := (List.cons.inj heq).2
        exact hdigits
  · next hplus =>
    rw [filter_read?_eq_some_iff]
    constructor
    · intro hdigits
      exact ⟨text, .inl rfl, hdigits⟩
    · rintro ⟨digits, rfl | rfl, hdigits⟩
      · exact hdigits
      · exact (hplus digits rfl).elim

lemma readPort?_eq_none_iff : readPort? text = none ↔ ∀ port, ¬ NamesPort text port := by
  simp only [Option.eq_none_iff_forall_ne_some, ne_eq, readPort?_eq_some_iff]

/-- A value is read as one host with one port. -/
lemma readFrom_iff : ReadFrom value authority ↔ parse value = authority := by
  constructor
  · rintro (⟨hcolon, hkept⟩ | ⟨rfl, hfirst, hkept, hport⟩ | ⟨rfl, hfirst, hkept, hport⟩)
    · rw [parse, Text.splitFirst?_eq_none_iff.2 hcolon]
      simp only [hostLimit, Utf8.isCap_iff.1 hkept, defaultPort]
    · simp only [parse, Text.splitFirst?_append_sep hfirst, hostLimit, Utf8.isCap_iff.1 hkept,
        readPort?_eq_some_iff.2 hport, Option.getD_some]
    · simp only [parse, Text.splitFirst?_append_sep hfirst, hostLimit, Utf8.isCap_iff.1 hkept,
        readPort?_eq_none_iff.2 hport, Option.getD_none, defaultPort]
  · rintro rfl
    rcases hsplit : Text.splitFirst? ':' value with _ | ⟨before, after⟩
    · simp only [parse, hsplit]
      exact .alone (Text.splitFirst?_eq_none_iff.1 hsplit) (Utf8.isCap_cut _ _)
    · obtain ⟨rfl, hfirst⟩ := Text.splitFirst?_eq_some hsplit
      simp only [parse, hsplit]
      rcases hport : readPort? (Text.trim after) with _ | port
      · exact .withoutPort rfl hfirst (Utf8.isCap_cut _ _) (readPort?_eq_none_iff.1 hport)
      · exact .withPort rfl hfirst (Utf8.isCap_cut _ _) (readPort?_eq_some_iff.1 hport)

end Authority

/-! ### Requests -/

namespace Request

variable {raw : Bytes} {version : Version} {target : Text} {request : Request}

/-- A buffer with a request line that is accepted is a request with the headers of its lines. -/
lemma exists_parse (hline : parseLine (firstLine raw) = .ok (version, target)) :
    ∃ request, parse raw = .ok request ∧ request.version = version ∧
      splitTarget target = (request.path, request.params) ∧
      request.headers = ({} : Headers).revised (lines raw).tail := by
  obtain ⟨rest, hlines⟩ := exists_lines_eq_cons raw
  rcases htarget : splitTarget target with ⟨path, params⟩
  have hparse : parse raw
      = .ok ⟨version, path, params, Headers.ofLines (rest.filter (· ≠ []))⟩ := by
    simp only [parse, hlines, hline, htarget]
  refine ⟨_, hparse, rfl, rfl, ?_⟩
  rw [headers_of_parse hlines hparse, hlines, List.tail_cons]

/-- **Captured values.**  A buffer whose request line is accepted is a request, whatever its further
lines are.  Under each of the four names it keeps what the last line with the name says: the longest
beginning of the value that fits, or the host and the port; nothing when there is no such line.  The
cut in the bytes always finds this beginning.  Lines without these names may be added or left out,
and the lines of one name may be moved past those of another: only for each name the lines that have
it make a difference, and their order. -/
theorem values_captured (hline : parseLine (firstLine raw) = .ok (version, target)) :
    ∃ request, parse raw = .ok request ∧ request.version = version ∧
      splitTarget target = (request.path, request.params) ∧
      Headers.Keeps .userAgent (Utf8.IsCap 128) (lines raw).tail request.headers.userAgent ∧
      Headers.Keeps .referer (Utf8.IsCap 128) (lines raw).tail request.headers.referer ∧
      Headers.Keeps .fromAddress (Utf8.IsCap 64) (lines raw).tail request.headers.fromAddress ∧
      Headers.Keeps .host Authority.ReadFrom (lines raw).tail request.headers.authority ∧
      (∀ limit value, ∃ kept,
        Utf8.capped? limit (Utf8.encode value) = some (Utf8.encode kept) ∧
          Utf8.IsCap limit value kept) ∧
      ∀ other, firstLine other = firstLine raw →
        (∀ name, (lines other).tail.filter (Headers.hasName name)
          = (lines raw).tail.filter (Headers.hasName name)) →
        parse other = parse raw := by
  obtain ⟨request, hparse, hversion, htarget, hheaders⟩ := exists_parse hline
  have hread : ∀ value authority, Authority.ReadFrom value authority
      ↔ Authority.parse value = authority := fun _ _ => Authority.readFrom_iff
  have hcap : ∀ limit value kept, Utf8.IsCap limit value kept ↔ Utf8.cut limit value = kept :=
    fun _ _ _ => Utf8.isCap_iff
  refine ⟨request, hparse, hversion, htarget, ?_, ?_, ?_, ?_, ?_, ?_⟩
  · rw [hheaders]
    exact Headers.keeps_or_none (hcap 128) .userAgent _
  · rw [hheaders]
    exact Headers.keeps_or_none (hcap 128) .referer _
  · rw [hheaders]
    exact Headers.keeps_or_none (hcap 64) .fromAddress _
  · rw [hheaders]
    exact Headers.keeps_or_none hread .host _
  · intro limit value
    exact ⟨Utf8.cut limit value, Utf8.capped?_encode limit value, Utf8.isCap_cut limit value⟩
  · intro other hfirst hnames
    have hline' : parseLine (firstLine other) = .ok (version, target) := by rw [hfirst, hline]
    obtain ⟨request', hparse', hversion', htarget', hheaders'⟩ := exists_parse hline'
    rw [Headers.revised_congr _ hnames, ← hheaders] at hheaders'
    rw [htarget, Prod.mk.injEq] at htarget'
    rw [hparse, hparse', Except.ok.injEq]
    rcases request with ⟨_, _, _, _⟩
    rcases request' with ⟨_, _, _, _⟩
    simp only [mk.injEq]
    exact ⟨hversion'.trans hversion.symm, htarget'.1.symm, htarget'.2.symm, hheaders'⟩

/-- A request with two `Host` lines, whose `From` value has a byte that is no UTF-8 where the bytes
for it end. -/
def crowdedRequest : Bytes :=
  Utf8.encode "GET / HTTP/1.1\r\nHost: a\r\nX-Host: c\r\nFrom: ".toList ++
    List.replicate 62 120 ++ 255 :: Utf8.encode "\r\nhOST : b:+81\r\n\r\n".toList

/-- The same with the lines in another order, one of them left out, and no empty line at the end. -/
def rearrangedRequest : Bytes :=
  Utf8.encode "GET / HTTP/1.1\nFrom: ".toList ++
    List.replicate 62 120 ++ 255 :: Utf8.encode "\nHost: a\nhOST : b:+81".toList

theorem values_captured_crowdedRequest :
    parseLine (firstLine crowdedRequest) = .ok (.http11, "/".toList) ∧
      firstLine rearrangedRequest = firstLine crowdedRequest ∧
      (∀ name, (lines rearrangedRequest).tail.filter (Headers.hasName name)
        = (lines crowdedRequest).tail.filter (Headers.hasName name)) ∧
      parse rearrangedRequest = parse crowdedRequest ∧
      Headers.Keeps .referer (Utf8.IsCap 128) (lines crowdedRequest).tail none ∧
      Headers.Keeps .fromAddress (Utf8.IsCap 64) (lines crowdedRequest).tail
        (some (List.replicate 62 'x')) ∧
      Headers.Keeps .host Authority.ReadFrom (lines crowdedRequest).tail
        (some ⟨"b".toList, 81⟩) := by
  have hline : parseLine (firstLine crowdedRequest) = .ok (.http11, "/".toList) := by
    decide +kernel
  have hfirst : firstLine rearrangedRequest = firstLine crowdedRequest := by decide +kernel
  have hnames : ∀ name, (lines rearrangedRequest).tail.filter (Headers.hasName name)
      = (lines crowdedRequest).tail.filter (Headers.hasName name) := by
    intro name
    cases name <;> decide +kernel
  obtain ⟨request, hparse, -, -, -, hreferer, hfrom, hhost, -, hsame⟩ := values_captured hline
  have hread : (parse crowdedRequest).map Request.headers
      = .ok { fromAddress := some (List.replicate 62 'x'),
              authority := some ⟨"b".toList, 81⟩ } := by
    decide +kernel
  have hheaders : request.headers
      = { fromAddress := some (List.replicate 62 'x'), authority := some ⟨"b".toList, 81⟩ } := by
    rw [hparse] at hread
    exact Except.ok.inj hread
  rw [hheaders] at hreferer hfrom hhost
  exact ⟨hline, hfirst, hnames, hsame _ hfirst hnames, hreferer, hfrom, hhost⟩

end Request

end SiteServer
