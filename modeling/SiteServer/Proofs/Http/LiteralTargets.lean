import Mathlib.Data.List.Infix
import SiteServer.Proofs.Http.OnePass
import SiteServer.Proofs.Http.RequestLine

/-!
# Targets that say what they hold

A text is literal when decoding finds nothing in it and no question mark ends the path in it.  No
code reaches over a slash, so a target is decoded before a slash and behind it alone, as long as one
of the two parts has no code (`decode_slash_append`, `decode_append_slash`).  Decoding and cutting
only shorten a target, so one that is no longer than its path is literal
(`isLiteral_of_length_le`).
-/

namespace SiteServer

namespace Escape

variable {code : Escape} {codes : List Escape} {front back plain : Text}

/-- A text that is a path as it stands in a target. -/
structure IsLiteral (plain : Text) : Prop where
  codes : ∀ code ∈ table, ¬ code.text <:+: plain
  question : '?' ∉ plain

instance (plain : Text) : Decidable (IsLiteral plain) :=
  decidable_of_iff ((∀ code ∈ table, ¬ code.text <:+: plain) ∧ '?' ∉ plain)
    ⟨fun ⟨hcodes, hquestion⟩ => ⟨hcodes, hquestion⟩,
      fun ⟨hcodes, hquestion⟩ => ⟨hcodes, hquestion⟩⟩

lemma IsLiteral.within (h : IsLiteral plain) (hwithin : front <:+: plain) : IsLiteral front where
  codes code hcode hbegins := h.codes code hcode (hbegins.trans hwithin)
  question hmem := h.question (hwithin.subset hmem)

/-- A slash is no digit of a code. -/
lemma substitute_slash (hcode : code ∈ table) (budget : Nat) (front back : Text) :
    code.substitute budget (front ++ '/' :: back) = code.substitute budget front
      ++ '/' :: code.substitute (budget - code.occurrences front) back := by
  have hdigits : ∀ code ∈ table, '/' ≠ code.high ∧ '/' ≠ code.low := by decide
  have hback : ∀ d ∈ ('/' :: back).head?, d ≠ code.high ∧ d ≠ code.low := by
    rintro d ⟨⟩
    exact hdigits code hcode
  rw [substitute_append hcode hback, substitute_cons_of_ne (by decide)]

/-- A part without codes is left as it is, and what follows it is decoded alone. -/
lemma decode_append_slash (hfront : ∀ code ∈ table, ¬ code.text <:+: front) (back : Text) :
    decode (front ++ '/' :: back) = front ++ '/' :: decode back := by
  suffices hfold : ∀ codes ⊆ table,
      codes.foldl (fun text code => code.substitute limit text) (front ++ '/' :: back)
        = front ++ '/' :: codes.foldl (fun text code => code.substitute limit text) back from
    hfold table (List.Subset.refl _)
  intro codes hsub
  induction codes generalizing back with
  | nil => rfl
  | cons code codes ih =>
    obtain ⟨hcode, hcodes⟩ := List.cons_subset.1 hsub
    have hnot := hfront code hcode
    rw [List.foldl_cons, List.foldl_cons, substitute_slash hcode, substitute_eq_self hnot,
      occurrences_eq_zero hnot, Nat.sub_zero, ih _ hcodes]

/-- What stands before a part without codes is decoded alone. -/
lemma decode_slash_append (hback : ∀ code ∈ table, ¬ code.text <:+: back) (front : Text) :
    decode (front ++ '/' :: back) = decode front ++ '/' :: back := by
  suffices hfold : ∀ codes ⊆ table,
      codes.foldl (fun text code => code.substitute limit text) (front ++ '/' :: back)
        = codes.foldl (fun text code => code.substitute limit text) front ++ '/' :: back from
    hfold table (List.Subset.refl _)
  intro codes hsub
  induction codes generalizing front with
  | nil => rfl
  | cons code codes ih =>
    obtain ⟨hcode, hcodes⟩ := List.cons_subset.1 hsub
    rw [List.foldl_cons, List.foldl_cons, substitute_slash hcode,
      substitute_eq_self (hback code hcode), ih _ hcodes]

lemma decode_eq_self (h : ∀ code ∈ table, ¬ code.text <:+: plain) : decode plain = plain :=
  foldl_substitute_eq_self h

lemma length_decode_le (target : Text) : (decode target).length ≤ target.length :=
  length_foldl_substitute_le table target

end Escape

namespace Request

open SiteServer.Escape (IsLiteral decode)

variable {target : Text}

/-- The path of a target is what its decoded text holds before the first question mark. -/
lemma splitTarget_fst (target : Text) :
    (splitTarget target).1 = (decode target).takeWhile (· ≠ '?') := by
  unfold splitTarget
  dsimp only
  split
  · next path query hsplit =>
    obtain ⟨hcut, hfirst⟩ := Text.splitFirst?_eq_some hsplit
    rw [hcut, Text.takeWhile_ne_append_sep hfirst]
  · next hnone => rw [Text.takeWhile_ne_eq_self_iff.2 (Text.splitFirst?_eq_none_iff.1 hnone)]

/-- A literal target is its own path. -/
lemma splitTarget_of_isLiteral (h : IsLiteral target) : (splitTarget target).1 = target := by
  have hdecode := Escape.decode_eq_self h.codes
  rw [splitTarget_of_not_mem (hdecode.symm ▸ h.question), hdecode]

/-- A target that is no longer than its path is literal. -/
lemma isLiteral_of_length_le
    (h : target.length ≤ ((decode target).takeWhile (· ≠ '?')).length) : IsLiteral target := by
  have hcut := List.takeWhile_prefix (· ≠ '?') (l := decode target)
  have hle := Escape.length_decode_le target
  have hcodes := Escape.not_infix_of_length_foldl
    (Nat.le_antisymm hle (Nat.le_trans h hcut.length_le))
  rw [Escape.decode_eq_self hcodes] at h hcut
  exact ⟨hcodes, Text.takeWhile_ne_eq_self_iff.1 (hcut.eq_of_length_le h)⟩

end Request

end SiteServer
