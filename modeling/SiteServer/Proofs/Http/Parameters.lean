import SiteServer.Proofs.Http.Lines

/-!
# Parameters between void segments

A query is written as segments with `&` between them: some write a parameter, and any others may
stand around these, as long as they are void.  `Writes` puts such a list of segments together, and
reading takes out again what has been put in, up to the limit (`parse_writes`).  Every text is a
query of this form, so what is read from it can be written and is read again.
-/

namespace SiteServer

namespace Param

variable {param : Param} {segment : Text}

/-- What a segment can say: a key and a value that are not empty and hold no separator; in the value
an `=` is none. -/
structure IsWritable (param : Param) : Prop where
  key_ne_nil : param.key ≠ []
  key_ampersand : '&' ∉ param.key
  key_equals : '=' ∉ param.key
  value_ne_nil : param.value ≠ []
  value_ampersand : '&' ∉ param.value

/-- A segment that writes no parameter. -/
inductive IsVoid : Text → Prop where
  | unsigned {segment : Text} (equals_not_mem : '=' ∉ segment) : IsVoid segment
  | keyless (value : Text) : IsVoid ('=' :: value)
  | valueless {key : Text} (equals_not_mem : '=' ∉ key) : IsVoid (key ++ ['='])

lemma ofSegment?_segment (h : param.IsWritable) : ofSegment? param.segment = some param := by
  rw [ofSegment?, segment, Text.splitFirst?_append_sep h.key_equals]
  simp only [h.key_ne_nil, h.value_ne_nil, or_self, if_false]

lemma IsVoid.ofSegment?_eq_none (h : IsVoid segment) : ofSegment? segment = none := by
  cases h with
  | unsigned hequals => rw [ofSegment?, Text.splitFirst?_eq_none_iff.2 hequals]
  | keyless value =>
    have hsplit : Text.splitFirst? '=' ('=' :: value) = some ([], value) := if_pos rfl
    rw [ofSegment?, hsplit]
    simp
  | valueless hequals =>
    rw [ofSegment?, Text.splitFirst?_append_sep hequals]
    simp

/-- A segment writes one parameter, or it is void. -/
lemma writable_or_void (hampersand : '&' ∉ segment) :
    (∃ param : Param, param.IsWritable ∧ segment = param.segment) ∨ IsVoid segment := by
  cases hsplit : Text.splitFirst? '=' segment with
  | none => exact .inr (.unsigned (Text.splitFirst?_eq_none_iff.1 hsplit))
  | some parts =>
    obtain ⟨key, value⟩ := parts
    obtain ⟨rfl, hequals⟩ := Text.splitFirst?_eq_some hsplit
    simp only [List.mem_append, List.mem_cons, not_or] at hampersand
    by_cases hkey : key = []
    · subst hkey
      exact .inr (.keyless value)
    by_cases hvalue : value = []
    · subst hvalue
      exact .inr (.valueless hequals)
    · exact .inl ⟨⟨key, value⟩, ⟨hkey, hampersand.1, hequals, hvalue, hampersand.2.2⟩, rfl⟩

lemma IsWritable.ampersand_not_mem (h : param.IsWritable) : '&' ∉ param.segment := by
  intro hmem
  rcases List.mem_append.1 hmem with hmem | hmem
  · exact h.key_ampersand hmem
  rcases List.mem_cons.1 hmem with heq | hmem
  · simp at heq
  · exact h.value_ampersand hmem

end Param

namespace Query

open Param (IsVoid)

/-- The segments write the parameters in their order, with void segments anywhere between them. -/
inductive Writes : List Param → List Text → Prop where
  | nil : Writes [] []
  | param {param : Param} {params : List Param} {segments : List Text}
      (writable : param.IsWritable) :
      Writes params segments → Writes (param :: params) (param.segment :: segments)
  | void {segment : Text} {params : List Param} {segments : List Text}
      (ampersand_not_mem : '&' ∉ segment) (void : IsVoid segment) :
      Writes params segments → Writes params (segment :: segments)

variable {params : List Param} {segments : List Text} {query : Text}

lemma Writes.filterMap_ofSegment? (h : Writes params segments) :
    segments.filterMap Param.ofSegment? = params := by
  induction h with
  | nil => rfl
  | param writable _ ih =>
    rw [List.filterMap_cons_some (Param.ofSegment?_segment writable), ih]
  | void _ void _ ih => rw [List.filterMap_cons_none void.ofSegment?_eq_none, ih]

lemma Writes.ampersand_not_mem (h : Writes params segments) :
    ∀ segment ∈ segments, '&' ∉ segment := by
  induction h with
  | nil => simp
  | param writable _ ih => exact List.forall_mem_cons.2 ⟨writable.ampersand_not_mem, ih⟩
  | void ampersand_not_mem _ _ ih => exact List.forall_mem_cons.2 ⟨ampersand_not_mem, ih⟩

lemma Writes.isWritable (h : Writes params segments) : ∀ param ∈ params, param.IsWritable := by
  induction h with
  | nil => simp
  | param writable _ ih => exact List.forall_mem_cons.2 ⟨writable, ih⟩
  | void _ _ _ ih => exact ih

/-- What has been put together is cut apart again and read segment by segment. -/
lemma Writes.parse (h : Writes params segments) :
    Query.parse (['&'].intercalate segments) = params.take limit := by
  by_cases hnil : segments = []
  · subst hnil
    cases h
    rfl
  · rw [Query.parse, Text.pieces_intercalate hnil h.ampersand_not_mem, h.filterMap_ofSegment?]

/-- Parameters can be written without any void segment. -/
lemma writes_segments (h : ∀ param ∈ params, param.IsWritable) :
    Writes params (params.map Param.segment) := by
  induction params with
  | nil => exact .nil
  | cons param params ih =>
    obtain ⟨hparam, hparams⟩ := List.forall_mem_cons.1 h
    exact .param hparam (ih hparams)

/-- Segments without an `&` always write something. -/
lemma exists_writes (h : ∀ segment ∈ segments, '&' ∉ segment) :
    ∃ params, Writes params segments := by
  induction segments with
  | nil => exact ⟨[], .nil⟩
  | cons segment segments ih =>
    obtain ⟨hsegment, hsegments⟩ := List.forall_mem_cons.1 h
    obtain ⟨params, hparams⟩ := ih hsegments
    rcases Param.writable_or_void hsegment with ⟨param, hparam, rfl⟩ | hvoid
    · exact ⟨param :: params, .param hparam hparams⟩
    · exact ⟨params, .void hsegment hvoid hparams⟩

/-- **Reading undoes writing.**  Of a query that writes parameters, with void segments anywhere
between them, the first 64 parameters are read.  Every text is such a query, so what is read from it
is at most 64 parameters that can be written, and from the query that writes them they are read
again. -/
theorem parse_writes :
    (∀ params segments, Writes params segments →
      Query.parse (['&'].intercalate segments) = params.take 64) ∧
    ∀ query, (∃ params, Writes params (Text.pieces '&' query) ∧
        Query.parse query = params.take 64) ∧
      (Query.parse query).length ≤ 64 ∧ (∀ param ∈ Query.parse query, param.IsWritable) ∧
      Query.parse (write (Query.parse query)) = Query.parse query := by
  refine ⟨fun params segments h => h.parse, fun query => ?_⟩
  obtain ⟨params, hwrites⟩ :=
    exists_writes fun segment (hmem : segment ∈ Text.pieces '&' query) =>
      Text.not_mem_of_mem_pieces hmem
  have hparse : Query.parse query = params.take limit := by
    rw [← hwrites.parse, Text.intercalate_pieces]
  have hwritable : ∀ param ∈ Query.parse query, param.IsWritable := fun param hmem =>
    hwrites.isWritable param (List.mem_of_mem_take (hparse ▸ hmem))
  refine ⟨⟨params, hwrites, hparse⟩, length_parse_le query, hwritable, ?_⟩
  calc Query.parse (write (Query.parse query))
      _ = (Query.parse query).take limit := (writes_segments hwritable).parse
      _ = Query.parse query := List.take_of_length_le (length_parse_le query)

/-- A parameter whose value holds both what separates keys from values and what looks like another
parameter. -/
def product : Param := ⟨"k".toList, "=v=w".toList⟩

/-- Void segments before, between and behind more parameters than are kept. -/
theorem parse_writes_product :
    Writes (product :: List.replicate 65 product)
        ([] :: "novalue".toList :: product.segment :: "=x".toList :: "key=".toList
          :: (List.replicate 65 product).map Param.segment) ∧
      Query.parse (['&'].intercalate
        ([] :: "novalue".toList :: product.segment :: "=x".toList :: "key=".toList
          :: (List.replicate 65 product).map Param.segment)) = List.replicate 64 product := by
  have hproduct : product.IsWritable :=
    ⟨by decide, by decide, by decide, by decide, by decide⟩
  have hmany : ∀ param ∈ List.replicate 65 product, param.IsWritable := fun param hmem =>
    List.eq_of_mem_replicate hmem ▸ hproduct
  have hwrites : Writes (product :: List.replicate 65 product)
      ([] :: "novalue".toList :: product.segment :: "=x".toList :: "key=".toList
        :: (List.replicate 65 product).map Param.segment) :=
    .void (by decide) (.unsigned (by decide)) <|
    .void (by decide) (.unsigned (by decide)) <| .param hproduct <|
    .void (by decide) (.keyless "x".toList) <|
    .void (by decide) (.valueless (show '=' ∉ "key".toList by decide)) (writes_segments hmany)
  exact ⟨hwrites, parse_writes.1 _ _ hwrites⟩

end Query

end SiteServer
