import SiteServer.Proofs.Http.HeaderValues

/-!
# Where a host ends

A `Host` line names a host and perhaps, behind a colon, a port.  A registered name or an IPv4
address has no colon, but an IPv6 address in brackets has, and its own first colon is taken for the
one before the port.  So a host without a colon is read as it is, with its port, and of an address
in brackets the part before its first colon is left, with the port that stands for none
(`host_read`).
-/

namespace SiteServer

namespace Text

variable {text : Text} {c : Char}

/-- What is no white space is not trimmed away. -/
lemma mem_trim (hmem : c ∈ text) (hblank : isBlank c = false) : c ∈ trim text := by
  have hstays : ∀ list : Text, c ∈ list → c ∈ list.dropWhile isBlank := by
    intro list hlist
    rw [← List.takeWhile_append_dropWhile (p := isBlank) (l := list)] at hlist
    rcases List.mem_append.1 hlist with hfront | hback
    · have hall := List.all_eq_true.1 List.all_takeWhile c hfront
      rw [hblank] at hall
      exact absurd hall (by decide)
    · exact hback
  rw [trim, dropEndWhile, List.mem_reverse]
  exact hstays _ (List.mem_reverse.2 (hstays _ hmem))

end Text

/-- A line that writes a field says its value under its name. -/
lemma HeaderField.Writes.says {field : HeaderField} {line : Text} {limit : Nat}
    (hline : field.Writes line) (hvalue : field.value.IsValue limit) :
    Headers.Says field.name (Utf8.encode line) field.value := by
  obtain ⟨name, hname, rfl⟩ := hline
  have hcolon : ':' ∉ name := by
    intro hmem
    exact (HeaderName.ne_of_mem hname hmem).1 rfl
  have hfield := Headers.field?_fieldLine hcolon field.value
  rw [HeaderName.trim_eq hname, Text.trim_of_ends hvalue.first hvalue.last] at hfield
  exact Headers.says_iff.2 ⟨name, hfield, hname⟩

/-- The text can stand for a host: a name or an address without a colon, or an address in square
brackets. -/
inductive HostForm : Text → Prop where
  | plain {host : Text} (colon_not_mem : ':' ∉ host) : HostForm host
  | bracketed (address : Text) : HostForm ('[' :: (address ++ [']']))

/-- A host with a colon is an address in brackets, and its last bracket stands behind its first
colon. -/
lemma HostForm.exists_bracket {host : Text} (hform : HostForm host) (hcolon : ':' ∈ host) :
    ∃ after, host = host.takeWhile (· ≠ ':') ++ ':' :: after ∧ ']' ∈ after := by
  obtain ⟨before, after, rfl, hfirst⟩ := List.eq_append_cons_of_mem hcolon
  have hbefore := Text.takeWhile_ne_append_sep hfirst after
  refine ⟨after, by rw [hbefore], ?_⟩
  have hlast : (before ++ ':' :: after).getLast? = some ']' := by
    generalize before ++ ':' :: after = host at hform hcolon
    cases hform with
    | plain colon_not_mem => exact absurd hcolon colon_not_mem
    | bracketed address => rw [← List.cons_append, List.getLast?_concat]
  rw [List.getLast?_append_of_ne_nil _ (List.cons_ne_nil _ _)] at hlast
  rcases after with _ | ⟨c, after⟩
  · simp at hlast
  · rw [List.getLast?_cons_cons] at hlast
    exact List.mem_of_getLast? hlast

namespace Authority

variable {host text : Text} {port : Nat}

/-- A number has no bracket in it. -/
lemma not_namesPort (h : ']' ∈ text) (port : Nat) : ¬ NamesPort (Text.trim text) port := by
  rintro ⟨digits, htext, -, hdigits, -⟩
  have hmem : ']' ∈ Text.trim text := Text.mem_trim h (by decide)
  have hbracket : ']' ∈ digits := by
    rcases htext with heq | heq
    · rwa [heq] at hmem
    · rw [heq] at hmem
      simpa using hmem
  exact absurd (hdigits _ hbracket) (by decide)

/-- A host with a colon in it is read up to this colon, whatever port it has. -/
lemma parse_of_colon (hform : HostForm host) (hcolon : ':' ∈ host) (hsize : Utf8.size host ≤ 64)
    (port : Option Nat) :
    parse (HeaderField.host host port).value = ⟨host.takeWhile (· ≠ ':'), 80⟩ := by
  obtain ⟨after, hhost, hbracket⟩ := hform.exists_bracket hcolon
  generalize hbefore : host.takeWhile (· ≠ ':') = before at hhost ⊢
  have hfirst : ':' ∉ before := by
    rw [← hbefore]
    intro hmem
    exact absurd (List.all_eq_true.1 List.all_takeWhile _ hmem) (by decide)
  have hkept : Utf8.IsCap 64 before before := by
    rw [Utf8.isCap_iff, Utf8.cut_of_size_le]
    rw [hhost, ← Utf8.length_encode, Utf8.encode_append, List.length_append,
      Utf8.length_encode] at hsize
    omega
  -- behind the host's own colon there is its bracket, with the port or without it
  obtain ⟨more, hvalue⟩ : ∃ more, (HeaderField.host host port).value
      = before ++ ':' :: (after ++ more) := by
    cases port with
    | none => exact ⟨[], by rw [List.append_nil]; exact hhost⟩
    | some port =>
      refine ⟨':' :: Decimal.write port, ?_⟩
      rw [HeaderField.value, hhost, List.append_assoc, List.cons_append]
  refine readFrom_iff.1 (.withoutPort hvalue hfirst hkept ?_)
  exact not_namesPort (List.mem_append_left _ hbracket)

end Authority

namespace Request

variable {front rest : Bytes} {own : Request} {host line : Text} {port : Option Nat}

/-- **Hosts and ports.**  A `Host` line may be added to every request, and read is the host up to
its first colon.  A host without a colon is read as a whole, with its port and otherwise with port
80.  An address in brackets that has a colon is cut there, and its port is 80 whichever it names. -/
theorem host_read (hown : parse front = .ok own) (hform : HostForm host)
    (hvalue : host.IsValue 64) (hport : ∀ number ∈ port, number ≤ 65535)
    (hline : (HeaderField.host host port).Writes line)
    (hrest : ∀ other ∈ lines rest, ∀ value, ¬ Headers.Says .host other value)
    (withReturn : Bool) :
    ∃ request,
      parse (front ++ 10 :: (Utf8.encode line ++ ending withReturn ++ rest)) = .ok request ∧
        asked request = asked own ∧
        request.headers.authority
          = some ⟨host.takeWhile (· ≠ ':'), if ':' ∈ host then 80 else port.getD 80⟩ ∧
        (request.headers.authority = some ⟨host, port.getD 80⟩ ↔ ':' ∉ host) := by
  obtain ⟨limit, hwhole⟩ := HeaderField.isValue_host hvalue port
  obtain ⟨hfeed, hreturn, -⟩ := hline.isLine hwhole
  have hlines : lines (Utf8.encode line ++ ending withReturn ++ rest)
      = Utf8.encode line :: lines rest :=
    lines_ending (Utf8.not_mem_encode hfeed (by decide))
      (mt (Utf8.getLast?_encode_iff (by decide)).1 hreturn) withReturn rest
  have hsays : Headers.Says .host (Utf8.encode line) (HeaderField.host host port).value :=
    hline.says hwhole
  have hsaid : Headers.said .host (Utf8.encode line :: lines rest)
      = some (HeaderField.host host port).value := by
    rw [Headers.said_cons, Headers.said_eq_none_iff.2 hrest,
      Headers.said_singleton_eq_some_iff.2 hsays]
    rfl
  have hparse := parse_append front (Utf8.encode line ++ ending withReturn ++ rest)
  rw [hown, hlines] at hparse
  refine ⟨_, hparse, rfl, ?_⟩
  simp only [Headers.revised, hsaid, Option.map_some, Option.some_or, Option.some.injEq]
  by_cases hcolon : ':' ∈ host
  · rw [Authority.parse_of_colon hform hcolon hvalue.size_le, if_pos hcolon]
    refine ⟨rfl, ?_⟩
    constructor
    · intro heq
      exact Text.takeWhile_ne_eq_self_iff.1 (congrArg Authority.host heq)
    · intro hnot
      exact absurd hcolon hnot
  · have hread : Authority.parse (HeaderField.host host port).value = ⟨host, port.getD 80⟩ :=
      HeaderField.parse_authority ⟨hvalue, hcolon, hport⟩
    rw [hread, if_neg hcolon, Text.takeWhile_ne_eq_self_iff.2 hcolon]
    exact ⟨rfl, fun _ => hcolon, fun _ => rfl⟩

/-- A request to an address in brackets. -/
def bracketedRequest : Bytes :=
  Utf8.encode "GET / HTTP/1.1\r\nHost: [::1]:8080\r\n\r\n".toList

/-- An address in brackets is not read as it is written, and neither is its port. -/
theorem bracketed_cut :
    HostForm "[::1]".toList ∧
      (HeaderField.host "[::1]".toList (some 8080)).Writes "Host: [::1]:8080".toList ∧
      lines bracketedRequest = [Utf8.encode "GET / HTTP/1.1".toList,
        Utf8.encode "Host: [::1]:8080".toList, [], []] ∧
      (parse bracketedRequest).map (·.headers.authority) = .ok (some ⟨"[".toList, 80⟩) ∧
      (⟨"[".toList, 80⟩ : Authority) ≠ ⟨"[::1]".toList, 8080⟩ :=
  ⟨.bracketed "::1".toList, ⟨"Host".toList, by decide, by decide⟩, by decide +kernel,
    by decide +kernel, by decide⟩

/-- The beginning of a request, with a `Host` line already. -/
def namedFront : Bytes :=
  Utf8.encode "GET / HTTP/1.1\r\nHost: a:1\r".toList

def namedRequest : Request :=
  ⟨.http11, "/".toList, [], { authority := some ⟨"a".toList, 1⟩ }⟩

/-- The end of a request without one. -/
def unnamedRest : Bytes :=
  Utf8.encode "From: f\n\n".toList

theorem host_read_namedRequest :
    parse namedFront = .ok namedRequest ∧
      (∀ other ∈ lines unnamedRest, ∀ value, ¬ Headers.Says .host other value) ∧
      (HostForm "[::1]".toList ∧ Text.IsValue 64 "[::1]".toList ∧
        (HeaderField.host "[::1]".toList none).Writes "host: [::1]".toList ∧
        ∃ request, parse (namedFront ++ 10 :: (Utf8.encode "host: [::1]".toList ++ ending true ++
            unnamedRest)) = .ok request ∧
          request.headers.authority ≠ some ⟨"[::1]".toList, 80⟩) ∧
      HostForm "b.example".toList ∧ Text.IsValue 64 "b.example".toList ∧
      (HeaderField.host "b.example".toList (some 65535)).Writes "HOST: b.example:65535".toList ∧
      ∃ request, parse (namedFront ++ 10 :: (Utf8.encode "HOST: b.example:65535".toList ++
          ending false ++ unnamedRest)) = .ok request ∧
        request.headers.authority = some ⟨"b.example".toList, 65535⟩ := by
  have hown : parse namedFront = .ok namedRequest := by decide +kernel
  have hrest : ∀ other ∈ lines unnamedRest, ∀ value, ¬ Headers.Says .host other value := by
    have hnames : ∀ other ∈ lines unnamedRest, Headers.hasName .host other = false := by
      decide +kernel
    intro other hmem value hsays
    have hname := Headers.hasName_iff.2 ⟨value, hsays⟩
    rw [hnames other hmem] at hname
    exact absurd hname (by decide)
  refine ⟨hown, hrest, ?_, ?_⟩
  · have hform : HostForm "[::1]".toList := .bracketed "::1".toList
    have hvalue : Text.IsValue 64 "[::1]".toList := by decide
    have hline : (HeaderField.host "[::1]".toList none).Writes "host: [::1]".toList :=
      ⟨"host".toList, by decide, by decide⟩
    obtain ⟨request, hparse, -, -, hread⟩ :=
      host_read hown hform hvalue (by simp) hline hrest true
    exact ⟨hform, hvalue, hline, request, hparse, mt hread.1 (by decide)⟩
  · have hform : HostForm "b.example".toList := .plain (by decide)
    have hvalue : Text.IsValue 64 "b.example".toList := by decide
    have hline : (HeaderField.host "b.example".toList (some 65535)).Writes
        "HOST: b.example:65535".toList :=
      ⟨"HOST".toList, by decide, by decide⟩
    obtain ⟨request, hparse, -, -, hread⟩ :=
      host_read hown hform hvalue (by simp) hline hrest false
    exact ⟨hform, hvalue, hline, request, hparse, hread.2 (by decide)⟩

end Request

end SiteServer
