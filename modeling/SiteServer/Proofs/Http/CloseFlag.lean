import SiteServer.Proofs.Http.HeaderValues

/-!
# When the connection is to be closed

A `Connection` line has tokens between commas, and with `close` among them it asks for the
connection to be closed.  Each such line sets the flag anew, so the last one alone decides
(`close_iff_last`).  The flag is never set without a line that asks for it, and it is missing beside
such a line only when a `Connection` line without the token stands behind it.
-/

namespace SiteServer

namespace Headers

variable {value : Text}

/-- One of the tokens of a value is `close`, in any case of its letters. -/
def HasClose (value : Text) : Prop :=
  ∃ tokens : List Text, value = [','].intercalate tokens ∧ (∀ token ∈ tokens, ',' ∉ token) ∧
    ∃ token ∈ tokens, Text.sameName (Text.trim token) "close".toList = true

/-- The line is a `Connection` line with the token `close`. -/
def AsksClose (line : Bytes) : Prop :=
  ∃ value, Says .connection line value ∧ HasClose value

lemma asksClose_iff : asksClose value = true ↔ HasClose value := by
  rw [asksClose, List.any_eq_true]
  constructor
  · rintro ⟨token, hmem, hclose⟩
    refine ⟨Text.pieces ',' value, (Text.intercalate_pieces ',' value).symm, ?_, token, hmem,
      hclose⟩
    intro token hmem
    exact Text.not_mem_of_mem_pieces hmem
  · rintro ⟨tokens, rfl, hcommas, token, hmem, hclose⟩
    rw [Text.pieces_intercalate (List.ne_nil_of_mem hmem) hcommas]
    exact ⟨token, hmem, hclose⟩

end Headers

namespace Request

variable {raw : Bytes} {request : Request}

open Headers

/-- **The last `Connection` line decides.**  The connection is to be closed exactly when this line
has the token `close`.  So some line asks for it then; and where a line does and the flag is not
set, a `Connection` line behind it has no such token. -/
theorem close_iff_last (hparse : parse raw = .ok request) :
    (request.headers.close = true ↔
      ∃ value, SaysLast .connection (lines raw).tail value ∧ HasClose value) ∧
      (request.headers.close = true → ∃ line ∈ (lines raw).tail, AsksClose line) ∧
      ∀ before line after, (lines raw).tail = before ++ line :: after → AsksClose line →
        request.headers.close = false →
        ∃ other ∈ after, ∃ value, Says .connection other value ∧ ¬ HasClose value := by
  have hclose : request.headers.close
      = ((said .connection (lines raw).tail).map asksClose).getD false := by
    obtain ⟨rest, hlines⟩ := exists_lines_eq_cons raw
    rw [headers_of_parse hlines hparse, hlines]
    rfl
  have hlast : request.headers.close = true ↔
      ∃ value, SaysLast .connection (lines raw).tail value ∧ HasClose value := by
    simp only [hclose, saysLast_iff, ← asksClose_iff]
    rcases said .connection (lines raw).tail with _ | value <;> simp
  refine ⟨hlast, ?_, ?_⟩
  · intro hset
    obtain ⟨value, ⟨before, line, after, hlines, hsays, -⟩, hvalue⟩ := hlast.1 hset
    rw [hlines]
    exact ⟨line, by simp, value, hsays, hvalue⟩
  · rintro before line after hlines ⟨value, hsays, hvalue⟩ hunset
    rw [hlines, said_append, said_cons] at hclose
    rcases hafter : said .connection after with _ | value'
    · -- then this line would be the last one
      rw [hafter, said_singleton_eq_some_iff.2 hsays, hunset] at hclose
      exact absurd (asksClose_iff.2 hvalue) (by simpa using hclose.symm)
    · obtain ⟨front, other, back, rfl, hother, -⟩ := saysLast_iff.2 hafter
      refine ⟨other, by simp, value', hother, ?_⟩
      rw [hafter, hunset] at hclose
      rw [← asksClose_iff]
      simpa using hclose.symm

/-- A request with two `Connection` lines. -/
def connectionRequest (first second : Text) : Bytes :=
  Utf8.encode ("GET / HTTP/1.1\r\nConnection: ".toList ++ first ++ "\r\nConnection: ".toList ++
    second ++ "\r\n\r\n".toList)

/-- A line that asks for the connection to be closed is overridden by one behind it; in the other
order the flag is set. -/
theorem close_overridden :
    (∃ request, parse (connectionRequest "close".toList "keep-alive".toList) = .ok request ∧
      request.headers.close = false ∧
      ∃ line ∈ (lines (connectionRequest "close".toList "keep-alive".toList)).tail,
        AsksClose line) ∧
      ∃ request, parse (connectionRequest "keep-alive".toList "close".toList) = .ok request ∧
        request.headers.close = true := by
  have hasks : AsksClose (Utf8.encode "Connection: close".toList) :=
    ⟨"close".toList, says_iff.2 ⟨"Connection".toList, by decide +kernel, by decide +kernel⟩,
      asksClose_iff.1 (by decide +kernel)⟩
  refine ⟨⟨⟨.http11, "/".toList, [], {}⟩, by decide +kernel, rfl, _, ?_, hasks⟩,
    ⟨.http11, "/".toList, [], { close := true }⟩, by decide +kernel, rfl⟩
  decide +kernel

theorem close_iff_last_connectionRequest :
    parse (connectionRequest "a, CLOSE".toList "b,, close ".toList)
        = .ok ⟨.http11, "/".toList, [], { close := true }⟩ ∧
      ∃ value, SaysLast .connection
        (lines (connectionRequest "a, CLOSE".toList "b,, close ".toList)).tail value ∧
        HasClose value := by
  have hparse : parse (connectionRequest "a, CLOSE".toList "b,, close ".toList)
      = .ok ⟨.http11, "/".toList, [], { close := true }⟩ := by
    decide +kernel
  exact ⟨hparse, (close_iff_last hparse).1.1 rfl⟩

end Request

end SiteServer
