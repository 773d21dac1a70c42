import Mathlib.Data.List.Induction
import SiteServer.Proofs.Http.Writing

/-!
# What header lines come to

Header lines are read one after the other, and each one takes the place of what the headers have
under its name.  So of the lines with a name only the last one counts, and a name that no line has
stays as it was: the headers after some lines are the headers before them, `revised` by what the
lines say last under each of the five names (`foldl_addLine_eq_revised`).
-/

namespace SiteServer.Headers

variable {name : HeaderName} {headers : Headers} {lines : List Bytes} {line : Bytes}

/-- What the last of the header lines with a name says. -/
def said (name : HeaderName) (lines : List Bytes) : Option Text :=
  (named name.text lines).getLast?

/-- A line without a name says nothing. -/
lemma said_concat_of_none (h : field? line = none) :
    said name (lines ++ [line]) = said name lines := by
  simp only [said, named, List.filterMap_append, List.filterMap_cons_none h, List.filterMap_nil,
    List.append_nil]

/-- A line with a name replaces what has been said under it, and no other. -/
lemma said_concat {word value : Text} (h : field? line = some (word, value)) :
    said name (lines ++ [line])
      = if Text.sameName word name.text then some value else said name lines := by
  simp only [said, named, List.filterMap_append, List.filterMap_cons_some h, List.filterMap_nil,
    List.filter_append, List.map_append]
  split
  · next hname => simp [hname]
  · next hname => simp [hname]

/-- Lines without anything in them say nothing. -/
lemma said_filter (name : HeaderName) (lines : List Bytes) :
    said name (lines.filter (· ≠ [])) = said name lines := by
  have hfield : (lines.filter (· ≠ [])).filterMap field? = lines.filterMap field? := by
    rw [List.filterMap_filter]
    refine List.filterMap_congr fun line _ => ?_
    by_cases hnil : line = []
    · subst hnil
      rfl
    · simp [hnil]
  rw [said, named, hfield, said, named]

/-- The headers with what the lines say in place of what they had. -/
def revised (headers : Headers) (lines : List Bytes) : Headers where
  userAgent := ((said .userAgent lines).map (Utf8.cut userAgentLimit)).or headers.userAgent
  referer := ((said .referer lines).map (Utf8.cut refererLimit)).or headers.referer
  fromAddress := ((said .fromAddress lines).map (Utf8.cut fromLimit)).or headers.fromAddress
  authority := ((said .host lines).map Authority.parse).or headers.authority
  close := ((said .connection lines).map asksClose).getD headers.close

@[simp] lemma revised_nil (headers : Headers) : headers.revised [] = headers := rfl

lemma revised_filter (headers : Headers) (lines : List Bytes) :
    headers.revised (lines.filter (· ≠ [])) = headers.revised lines := by
  simp only [revised, said_filter]

/-- One more line revises the headers further. -/
lemma addLine_revised (headers : Headers) (lines : List Bytes) (line : Bytes) :
    (headers.revised lines).addLine line = headers.revised (lines ++ [line]) := by
  rw [addLine]
  rcases hfield : field? line with _ | ⟨word, value⟩
  · simp only [revised, said_concat_of_none hfield]
  · by_cases hname : ∃ name : HeaderName, Text.sameName word name.text = true
    · obtain ⟨name, hname⟩ := hname
      simp only [HeaderName.capture_eq_keep hname, revised, said_concat hfield,
        HeaderName.sameName_eq hname]
      cases name <;> rfl
    · have hother : ∀ name : HeaderName, Text.sameName word name.text = false :=
        fun name => Bool.eq_false_iff.2 fun h => hname ⟨name, h⟩
      have hcapture : (headers.revised lines).capture word value = headers.revised lines := by
        have hagent : Text.sameName word "User-Agent".toList = false := hother .userAgent
        have hreferer : Text.sameName word "Referer".toList = false := hother .referer
        have hfrom : Text.sameName word "From".toList = false := hother .fromAddress
        have hconnection : Text.sameName word "Connection".toList = false := hother .connection
        have hhost : Text.sameName word "Host".toList = false := hother .host
        rw [capture, hagent, hreferer, hfrom, hconnection, hhost]
        rfl
      simp only [hcapture]
      simp only [revised, said_concat hfield, hother, Bool.false_eq_true, if_false]

/-- **The last line with a name counts.** -/
theorem foldl_addLine_eq_revised (headers : Headers) (lines : List Bytes) :
    lines.foldl addLine headers = headers.revised lines := by
  induction lines using List.reverseRecOn with
  | nil => rfl
  | append_singleton front line ih =>
    rw [List.foldl_append, ih, List.foldl_cons, List.foldl_nil, addLine_revised]

/-- What the lines say last under each name is what the headers have. -/
structure Agrees (headers : Headers) (lines : List Bytes) : Prop where
  userAgent : ∀ value ∈ said .userAgent lines,
    headers.userAgent = some (Utf8.cut userAgentLimit value)
  referer : ∀ value ∈ said .referer lines, headers.referer = some (Utf8.cut refererLimit value)
  fromAddress : ∀ value ∈ said .fromAddress lines,
    headers.fromAddress = some (Utf8.cut fromLimit value)
  authority : ∀ value ∈ said .host lines, headers.authority = some (Authority.parse value)
  close : ∀ value ∈ said .connection lines, headers.close = asksClose value

/-- Lines leave the headers as they are when they agree with them. -/
lemma revised_eq_iff : headers.revised lines = headers ↔ headers.Agrees lines := by
  have hor : ∀ {α : Type} (said : Option Text) (read : Text → α) (kept : Option α),
      (said.map read).or kept = kept ↔ ∀ value ∈ said, kept = some (read value) := by
    rintro α (_ | value) read kept
    · simp
    · simp [eq_comm]
  have hgetD : ∀ (said : Option Text) (read : Text → Bool) (kept : Bool),
      (said.map read).getD kept = kept ↔ ∀ value ∈ said, kept = read value := by
    rintro (_ | value) read kept
    · simp
    · simp [eq_comm]
  rcases headers with ⟨userAgent, referer, fromAddress, authority, close⟩
  simp only [revised, mk.injEq, hor, hgetD]
  constructor
  · rintro ⟨huserAgent, hreferer, hfrom, hauthority, hclose⟩
    exact ⟨huserAgent, hreferer, hfrom, hauthority, hclose⟩
  · rintro ⟨huserAgent, hreferer, hfrom, hauthority, hclose⟩
    exact ⟨huserAgent, hreferer, hfrom, hauthority, hclose⟩

end SiteServer.Headers
