import Mathlib.Data.List.Infix
import Mathlib.Data.Nat.Find
import SiteServer.Proofs.Http.Revision

/-!
# Where the header section ends

The header section of a buffer ends with its first empty line.  Reading does not stop there: empty
lines are left out, and what stands behind them is read as further header lines.  So a request is
what its section says, revised by the lines behind it (`parse_eq_revised`), whether they belong to a
body or to another request.  They change nothing as long as they agree with the section, and the
version, the path and the parameters not at all.
-/

namespace SiteServer

namespace Text

variable {α : Type} [DecidableEq α]

/-- With a separator at its end a list is its pieces, each of them ended. -/
lemma flatMap_pieces (sep : α) (list : List α) :
    (pieces sep list).flatMap (· ++ [sep]) = list ++ [sep] := by
  induction list with
  | nil => rfl
  | cons c rest ih =>
    simp only [pieces]
    split
    · next hc => simp [ih, hc]
    · obtain ⟨piece, more, hpieces⟩ := List.exists_cons_of_ne_nil (pieces_ne_nil sep rest)
      rw [hpieces] at ih ⊢
      simpa using ih

lemma stripLast_eq_nil_iff {x : α} {list : List α} :
    stripLast x list = [] ↔ list = [] ∨ list = [x] := by
  unfold stripLast
  split
  · next hlast =>
    obtain ⟨front, rfl⟩ := List.getLast?_eq_some_iff.1 hlast
    simp
  · next hlast =>
    refine ⟨.inl, fun h => h.resolve_right ?_⟩
    rintro rfl
    exact hlast rfl

end Text

namespace Request

variable {raw head front tail : Bytes} {request : Request}

/-! ### Sections -/

/-- The bytes end in an empty line that another line stands before. -/
def EndsEmpty (bytes : Bytes) : Prop :=
  ∃ withReturn, 10 :: ending withReturn <:+ bytes

instance (bytes : Bytes) : Decidable (EndsEmpty bytes) :=
  inferInstanceAs (Decidable (∃ withReturn, 10 :: ending withReturn <:+ bytes))

/-- The bytes go up to the first empty line behind another line, and end with it. -/
structure IsSection (head : Bytes) : Prop where
  ends : EndsEmpty head
  first : ∀ front, front <+: head → EndsEmpty front → front = head

lemma EndsEmpty.exists_eq (h : EndsEmpty head) : ∃ front, head = front ++ [10] := by
  obtain ⟨withReturn, front, rfl⟩ := h
  cases withReturn
  · exact ⟨front ++ [10], by simp [ending]⟩
  · exact ⟨front ++ [10, 13], by simp [ending]⟩

instance (head : Bytes) : Decidable (IsSection head) :=
  decidable_of_iff (EndsEmpty head ∧ ∀ front ∈ head.inits, EndsEmpty front → front = head)
    ⟨fun ⟨ends, first⟩ => ⟨ends, fun front h => first front ((List.mem_inits _ _).2 h)⟩,
      fun ⟨ends, first⟩ => ⟨ends, fun front h => first front ((List.mem_inits _ _).1 h)⟩⟩

/-- Bytes with an empty line in them begin with a section. -/
lemma exists_section (h : ∃ withReturn, 10 :: ending withReturn <:+: raw) :
    ∃ head tail, raw = head ++ tail ∧ IsSection head := by
  have hends : ∃ n, ∃ front, front <+: raw ∧ EndsEmpty front ∧ front.length = n := by
    obtain ⟨withReturn, before, behind, rfl⟩ := h
    exact ⟨_, _, List.prefix_append _ _, ⟨withReturn, List.suffix_append _ _⟩, rfl⟩
  classical
  obtain ⟨head, ⟨tail, rfl⟩, hhead, hlength⟩ := Nat.find_spec hends
  refine ⟨head, tail, rfl, hhead, fun front hfront hempty => ?_⟩
  refine hfront.eq_of_length_le ?_
  rw [hlength]
  exact Nat.find_min' hends ⟨front, hfront.trans (List.prefix_append _ _), hempty, rfl⟩

/-- There is one section that some bytes begin with. -/
lemma IsSection.unique {head' tail' : Bytes} (h : IsSection head) (h' : IsSection head')
    (heq : head ++ tail = head' ++ tail') : head = head' := by
  rcases List.prefix_or_prefix_of_prefix (List.prefix_append head tail)
    (heq ▸ List.prefix_append head' tail') with hle | hle
  · exact h'.first head hle h.ends
  · exact (h.first head' hle h'.ends).symm

/-! ### The lines of a section -/

lemma lines_append (front tail : Bytes) :
    lines (front ++ 10 :: tail) = lines front ++ lines tail := by
  rw [lines, Text.pieces_append_sep, List.map_append, lines, lines]

lemma lines_ending_nil (withReturn : Bool) : lines (ending withReturn) = [[], []] := by
  cases withReturn <;> decide

/-- An empty line behind the first one is an end. -/
lemma exists_endsEmpty_of_mem (h : [] ∈ (lines raw).tail) :
    ∃ front, front <+: raw ++ [10] ∧ EndsEmpty front := by
  obtain ⟨more, hpieces⟩ := Text.exists_pieces_eq_cons 10 raw
  rw [lines, hpieces, List.map_cons, List.tail_cons] at h
  obtain ⟨piece, hmem, hpiece⟩ := List.mem_map.1 h
  obtain ⟨before, behind, rfl⟩ := List.append_of_mem hmem
  obtain ⟨withReturn, hending⟩ : ∃ withReturn, piece ++ [10] = ending withReturn := by
    rcases Text.stripLast_eq_nil_iff.1 hpiece with rfl | rfl
    · exact ⟨false, rfl⟩
    · exact ⟨true, rfl⟩
  -- the line before the empty one ends in a line feed, whichever line it is
  obtain ⟨start, hstart⟩ : ∃ start,
      (raw.takeWhile (· ≠ 10) :: before).flatMap (· ++ [10]) = start ++ [10] := by
    rcases List.eq_nil_or_concat before with rfl | ⟨others, last, rfl⟩
    · exact ⟨raw.takeWhile (· ≠ 10), by simp⟩
    · exact ⟨(raw.takeWhile (· ≠ 10) :: others).flatMap (· ++ [10]) ++ last, by simp⟩
  refine ⟨start ++ 10 :: ending withReturn, ?_, withReturn, List.suffix_append _ _⟩
  refine ⟨behind.flatMap (· ++ [10]), ?_⟩
  rw [← Text.flatMap_pieces, hpieces, ← List.cons_append, List.flatMap_append, hstart,
    List.flatMap_cons, hending]
  simp

/-- Behind its first line a section has header lines that are not empty, and the empty line. -/
lemma IsSection.exists_lines (h : IsSection head) :
    ∃ fields : List Bytes, lines head = firstLine head :: fields ++ [[], []] ∧
      ∀ line ∈ fields, line ≠ [] := by
  obtain ⟨withReturn, front, rfl⟩ := h.ends
  obtain ⟨fields, hfields⟩ := exists_lines_eq_cons front
  have hlines : lines (front ++ 10 :: ending withReturn)
      = firstLine front :: fields ++ [[], []] := by
    rw [lines_append, lines_ending_nil, hfields]
  have hfirst : firstLine (front ++ 10 :: ending withReturn) = firstLine front := by
    obtain ⟨rest, hrest⟩ := exists_lines_eq_cons (front ++ 10 :: ending withReturn)
    exact (List.cons.inj (hrest.symm.trans hlines)).1
  refine ⟨fields, hfirst ▸ hlines, ?_⟩
  rintro line hmem rfl
  have hmem : [] ∈ (lines front).tail := by rwa [hfields]
  obtain ⟨other, hother, hempty⟩ := exists_endsEmpty_of_mem hmem
  have hprefix : front ++ [10] <+: front ++ 10 :: ending withReturn :=
    ⟨ending withReturn, by simp⟩
  have heq := h.first other (hother.trans hprefix) hempty
  have hlength := hother.length_le
  have hpos : 0 < (ending withReturn).length := by cases withReturn <;> decide
  rw [heq, List.length_append, List.length_append, List.length_cons, List.length_singleton]
    at hlength
  omega

/-! ### What is read behind a section -/

lemma headers_of_parse {first : Bytes} {rest : List Bytes} (hlines : lines raw = first :: rest)
    (h : parse raw = .ok request) : request.headers = ({} : Headers).revised rest := by
  rw [← Headers.revised_filter, ← Headers.foldl_addLine_eq_revised]
  rw [parse, hlines] at h
  rcases hfirst : parseLine first with error | ⟨version, target⟩
  · simp [hfirst] at h
  · simp only [hfirst, Except.ok.injEq] at h
    rw [← h]
    rfl

/-- Lines behind a line feed revise what is read before it. -/
theorem parse_append (front tail : Bytes) :
    parse (front ++ 10 :: tail) = (parse front).map fun request =>
      { request with headers := request.headers.revised (lines tail) } := by
  obtain ⟨rest, hrest⟩ := exists_lines_eq_cons front
  have hlines : lines (front ++ 10 :: tail) = firstLine front :: (rest ++ lines tail) := by
    rw [lines_append, hrest, List.cons_append]
  have hheaders : Headers.ofLines ((rest ++ lines tail).filter (· ≠ []))
      = (Headers.ofLines (rest.filter (· ≠ []))).revised (lines tail) := by
    rw [List.filter_append, Headers.ofLines_append, Headers.foldl_addLine_eq_revised,
      Headers.revised_filter]
  simp only [parse, hlines, hrest, hheaders]
  rcases parseLine (firstLine front) with error | ⟨version, target⟩
  · rfl
  · simp only [Except.map]

/-- Lines behind an empty line revise what is read up to it. -/
theorem parse_eq_revised (h : EndsEmpty head) (tail : Bytes) :
    parse (head ++ tail) = (parse head).map fun request =>
      { request with headers := request.headers.revised (lines tail) } := by
  obtain ⟨front, rfl⟩ := h.exists_eq
  -- what is behind the last line feed is one more line, with nothing in it
  have hkept : (lines []).filter (· ≠ []) = [] := by decide
  have hempty : ∀ headers : Headers, headers.revised (lines []) = headers := by
    intro headers
    rw [← Headers.revised_filter, hkept, Headers.revised_nil]
  have hown : parse (front ++ [10]) = parse front := by
    rw [parse_append]
    simp only [hempty]
    rcases parse front with error | request <;> rfl
  rw [hown, List.append_assoc, List.singleton_append, parse_append]

/-- **What stands behind the header section.**  A buffer that is accepted and has an empty line in
it begins with one header section, which is accepted by itself and has the headers that its lines
give.  With anything behind the section the version, the path and the parameters stay, and each
header is what the last line with its name behind the section says, if there is one.  So the request
stays as it is exactly when these lines agree with the section. -/
theorem parse_behind_section (hempty : ∃ withReturn, 10 :: ending withReturn <:+: raw)
    (haccepted : parse raw = .ok request) :
    ∃ (head tail : Bytes) (own : Request) (fields : List Bytes),
      raw = head ++ tail ∧ IsSection head ∧
      lines head = firstLine head :: fields ++ [[], []] ∧ (∀ line ∈ fields, line ≠ []) ∧
      parse head = .ok own ∧ own.headers = ({} : Headers).revised fields ∧
      ∀ other : Bytes,
        parse (head ++ other)
          = .ok { own with headers := own.headers.revised (lines other) } ∧
        (parse (head ++ other) = parse head ↔ own.headers.Agrees (lines other)) := by
  obtain ⟨head, tail, rfl, hsection⟩ := exists_section hempty
  obtain ⟨fields, hlines, hfields⟩ := hsection.exists_lines
  have hread := parse_eq_revised hsection.ends
  rcases hown : parse head with error | own
  · rw [hread, hown] at haccepted
    exact nomatch haccepted
  refine ⟨head, tail, own, fields, rfl, hsection, hlines, hfields, hown, ?_, fun other => ?_⟩
  · have hkept : (fields ++ [[], []]).filter (· ≠ []) = fields := by
      rw [List.filter_append, List.filter_eq_self.2 (by simpa using hfields)]
      simp
    rw [headers_of_parse hlines hown, ← Headers.revised_filter]
    exact congrArg _ hkept
  · have hother : parse (head ++ other)
        = .ok { own with headers := own.headers.revised (lines other) } := by
      rw [hread, hown]
      rfl
    refine ⟨hother, ?_⟩
    rw [hother, hown, ← Headers.revised_eq_iff, Except.ok.injEq]
    obtain ⟨version, path, params, headers⟩ := own
    simp only [mk.injEq, true_and]

/-- A section that names no host. -/
def bareSection : Bytes :=
  Utf8.encode "GET /a HTTP/1.1\r\n\r\n".toList

def bareRequest : Request where
  version := .http11
  path := "/a".toList
  params := []
  headers := {}

/-- A request that is sent behind it. -/
def nextRequest : Bytes :=
  Utf8.encode "GET /b HTTP/1.1\r\nHost: b:81\r\nConnection: close\r\n\r\n".toList

/-- What is read when that request is sent behind the section. -/
def mixedRequest : Request :=
  { bareRequest with headers := { authority := some ⟨"b".toList, 81⟩, close := true } }

/-- What is sent behind a section sets the host, the port and the close flag. -/
theorem section_overridden :
    IsSection bareSection ∧ parse bareSection = .ok bareRequest ∧
      parse (bareSection ++ nextRequest) = .ok mixedRequest := by
  refine ⟨?_, ?_, ?_⟩ <;> decide +kernel

theorem parse_behind_section_bareSection :
    (∃ withReturn, 10 :: ending withReturn <:+: bareSection ++ nextRequest) ∧
      parse (bareSection ++ nextRequest) = .ok mixedRequest ∧ IsSection bareSection ∧
      mixedRequest.headers = bareRequest.headers.revised (lines nextRequest) ∧
      ¬ bareRequest.headers.Agrees (lines nextRequest) ∧
      parse (bareSection ++ bareSection) = .ok bareRequest := by
  have hempty : ∃ withReturn, 10 :: ending withReturn <:+: bareSection ++ nextRequest := by
    decide +kernel
  have hmixed : parse (bareSection ++ nextRequest) = .ok mixedRequest := by decide +kernel
  have hsection : IsSection bareSection := by decide +kernel
  have hown : parse bareSection = .ok bareRequest := by decide +kernel
  obtain ⟨head, tail, own, fields, heq, hhead, -, -, hread, -, hother⟩ :=
    parse_behind_section hempty hmixed
  obtain rfl := hsection.unique hhead heq
  obtain rfl := Except.ok.inj (hown.symm.trans hread)
  obtain ⟨hnext, hchanges⟩ := hother nextRequest
  refine ⟨hempty, hmixed, hsection, ?_, ?_, ?_⟩
  · exact congrArg Request.headers (Except.ok.inj (hmixed.symm.trans hnext))
  · refine mt hchanges.2 ?_
    rw [hmixed, hown]
    decide
  · rw [← hown]
    exact (hother bareSection).2.2 (Headers.revised_eq_iff.1 (by decide +kernel))

end Request

end SiteServer
