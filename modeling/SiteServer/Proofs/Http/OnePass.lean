import Mathlib.Algebra.GroupWithZero.Nat
import Mathlib.Data.List.Perm.Basic
import SiteServer.Proofs.Http.Escaping

/-!
# Decoding in one pass

Decoding goes over a target once for every code of the table.  No two codes overlap, and of the
characters that codes stand for only the percent sign stands in a code itself.  So a substitution
leaves the places of all other codes alone (`substitute_eq_append_iff`), unless it is that of `%25`,
and one pass that replaces several codes, each as often as it may be, does what their substitutions
do one after the other (`scan_substitute`), in whichever order they are made.  For the whole table
two passes are needed (`decode_eq_passes`): one for the codes up to `%25`, which uncovers percent
signs, and one for the codes behind it.
-/

namespace SiteServer.Escape

open scoped List

variable {code other : Escape} {codes others : List Escape} {budgets : Escape → Nat}
  {budget : Nat} {c : Char} {plain rest : Text}

/-- One pass from left to right with a budget for each code.  A code that has some of its budget
left is replaced by its character, and the pass goes on behind it; every other character is passed
over.  What has been put out is not looked at again. -/
def scan (budgets : Escape → Nat) : Text → Text
  | c :: high :: low :: rest =>
    match table.find? fun code => 0 < budgets code ∧ code.text = [c, high, low] with
    | some code => code.char :: scan (Function.update budgets code (budgets code - 1)) rest
    | none => c :: scan budgets (high :: low :: rest)
  | plain => plain

/-- The budgets under which each of some codes may be replaced `limit` times, and no other one. -/
def allowance (codes : List Escape) (code : Escape) : Nat :=
  if code ∈ codes then limit else 0

/-- The codes up to that of the percent sign. -/
def early : List Escape :=
  table.takeWhile (· ≠ percent) ++ [percent]

/-- How many codes are replaced in a text, each at most `limit` times. -/
def replacements (codes : List Escape) (plain : Text) : Nat :=
  (codes.map fun code => min limit (code.occurrences plain)).sum

/-! ### One step of a pass -/

lemma mem_table_percent : percent ∈ table := by decide

lemma eq_of_text_eq (hcode : code ∈ table) (hother : other ∈ table)
    (h : code.text = other.text) : code = other := by
  simp only [text, List.cons.injEq, true_and, and_true] at h
  exact (apart hcode hother).eq_of_text h.1 h.2

/-- A code that may be replaced is replaced. -/
lemma scan_text (hcode : code ∈ table) (hbudget : 0 < budgets code) :
    scan budgets (code.text ++ rest)
      = code.char :: scan (Function.update budgets code (budgets code - 1)) rest := by
  have hfind : table.find? (fun other => 0 < budgets other ∧ other.text = code.text)
      = some code := by
    cases hfound : table.find? (fun other => 0 < budgets other ∧ other.text = code.text) with
    | none => exact absurd (List.find?_eq_none.1 hfound code hcode) (by simp [hbudget])
    | some other =>
      have hother : 0 < budgets other ∧ other.text = code.text := by
        simpa using List.find?_some hfound
      rw [eq_of_text_eq (List.mem_of_find?_eq_some hfound) hcode hother.2]
  have hscan : code.text ++ rest = '%' :: code.high :: code.low :: rest := rfl
  rw [hscan, scan]
  rw [text] at hfind
  simp only [hfind]

/-- A character at which no code begins that may be replaced is passed over. -/
lemma scan_cons (h : ∀ code ∈ table, 0 < budgets code → ¬ code.text <+: c :: rest) :
    scan budgets (c :: rest) = c :: scan budgets rest := by
  rcases rest with _ | ⟨high, _ | ⟨low, rest⟩⟩
  · rfl
  · rfl
  · have hfind : table.find? (fun code => 0 < budgets code ∧ code.text = [c, high, low])
        = none := by
      rw [List.find?_eq_none]
      intro code hcode hbegins
      obtain ⟨hbudget, htext⟩ := of_decide_eq_true hbegins
      exact h code hcode hbudget ⟨rest, by rw [htext]; rfl⟩
    rw [scan]
    simp only [hfind]

lemma scan_cons_of_ne (h : c ≠ '%') : scan budgets (c :: rest) = c :: scan budgets rest := by
  refine scan_cons ?_
  intro code _ _ hbegins
  exact h (text_prefix_iff.1 hbegins).1

/-- Induction along a pass: at the beginning of what is left stands a code that may be replaced, or
a character that is passed over. -/
@[elab_as_elim]
theorem pass_induction {motive : (Escape → Nat) → Text → Prop}
    (nil : ∀ budgets, motive budgets [])
    (replaced : ∀ budgets code rest, code ∈ table → 0 < budgets code →
      motive (Function.update budgets code (budgets code - 1)) rest →
      motive budgets (code.text ++ rest))
    (passed : ∀ budgets c rest,
      (∀ code ∈ table, 0 < budgets code → ¬ code.text <+: c :: rest) →
      motive budgets rest → motive budgets (c :: rest))
    (budgets : Escape → Nat) (plain : Text) : motive budgets plain := by
  generalize hlength : plain.length = n
  induction n using Nat.strongRecOn generalizing budgets plain with
  | ind n ih =>
    subst hlength
    rcases plain with _ | ⟨c, rest⟩
    · exact nil budgets
    · by_cases hbegun : ∃ code ∈ table, 0 < budgets code ∧ code.text <+: c :: rest
      · obtain ⟨code, hcode, hbudget, after, hafter⟩ := hbegun
        have hlt : after.length < (c :: rest).length := by
          rw [← hafter, text, List.length_append, List.length_cons]
          omega
        rw [← hafter]
        exact replaced budgets code after hcode hbudget (ih _ hlt _ after rfl)
      · refine passed budgets c rest ?_ (ih _ (Nat.lt_succ_self _) budgets rest rfl)
        intro code hcode hbudget hbegins
        exact hbegun ⟨code, hcode, hbudget, hbegins⟩

@[simp] lemma substitute_nil : code.substitute budget [] = [] := by
  simp [substitute]

@[simp] lemma substitute_zero : code.substitute 0 plain = plain := by
  simp [substitute]

/-- Where a code does not begin, or may not be replaced, its substitution goes on. -/
lemma substitute_cons_of_imp (h : 0 < budget → ¬ code.text <+: c :: rest) :
    code.substitute budget (c :: rest) = c :: code.substitute budget rest := by
  rcases Nat.eq_zero_or_pos budget with rfl | hpos
  · rw [substitute_zero, substitute_zero]
  · exact substitute_cons (h hpos)

/-! ### A code leaves the others alone -/

/-- A code begins a text after a character has been passed over in a substitution exactly when it
began the text before. -/
lemma text_prefix_substitute_iff (hcode : code ∈ table) (hother : other ∈ table) :
    other.text <+: c :: code.substitute budget rest ↔ other.text <+: c :: rest := by
  rw [text_prefix_iff, text_prefix_iff]
  refine and_congr_right fun _ => ?_
  constructor
  · intro hopens
    have hdigits := apart hother hcode
    obtain ⟨_, tail, rfl, hlow⟩ := cons_prefix_substitute hdigits.high_ne.2 hopens
    obtain ⟨_, after, rfl, -⟩ := cons_prefix_substitute hdigits.low_ne.2 hlow
    exact ⟨after, rfl⟩
  · rintro ⟨after, rfl⟩
    refine ⟨code.substitute budget after, ?_⟩
    simp only [List.cons_append, List.nil_append, substitute_digits hother]

lemma occurrences_cons_of_ne (h : c ≠ '%') :
    code.occurrences (c :: rest) = code.occurrences rest := by
  have hbegins : ¬ code.text <+: c :: rest := fun hbegins => h (text_prefix_iff.1 hbegins).1
  rw [occurrences, if_neg hbegins, Nat.zero_add]

/-- Only one code stands at the beginning of a text. -/
lemma not_prefix_text_append (hcode : code ∈ table) (hother : other ∈ table) (hne : code ≠ other)
    (rest : Text) : ¬ other.text <+: code.text ++ rest := by
  intro hbegins
  have hlength : other.text.length = code.text.length := rfl
  have hwithin : other.text <+: code.text :=
    List.prefix_of_prefix_length_le hbegins (List.prefix_append _ _) (Nat.le_of_eq hlength)
  exact hne (eq_of_text_eq hother hcode (hwithin.eq_of_length hlength)).symm

/-- A code does not reach over into what begins with none of its digits. -/
lemma text_prefix_append_iff {front back : Text}
    (hback : ∀ d ∈ back.head?, d ≠ code.high ∧ d ≠ code.low) :
    code.text <+: c :: (front ++ back) ↔ code.text <+: c :: front := by
  rcases front with _ | ⟨high, _ | ⟨low, front⟩⟩
  · rcases back with _ | ⟨d, back⟩
    · rw [List.append_nil]
    · have hd := (hback d rfl).1
      simp [text, hd.symm]
  · rcases back with _ | ⟨d, back⟩
    · rw [List.append_nil]
    · have hd := (hback d rfl).2
      simp [text, hd.symm]
  · simp [text]

/-- The digits of a code are no place where a code begins. -/
lemma occurrences_text (hcode : code ∈ table) (other : Escape) (rest : Text) :
    other.occurrences (code.text ++ rest)
      = (if other.text <+: code.text ++ rest then 1 else 0) + other.occurrences rest := by
  have hdigits := apart hcode hcode
  have htext : code.text ++ rest = '%' :: code.high :: code.low :: rest := rfl
  rw [htext, occurrences, occurrences_cons_of_ne hdigits.high_ne.1,
    occurrences_cons_of_ne hdigits.low_ne.1]

lemma occurrences_text_self (hcode : code ∈ table) (rest : Text) :
    code.occurrences (code.text ++ rest) = 1 + code.occurrences rest := by
  rw [occurrences_text hcode, if_pos (List.prefix_append _ _)]

lemma occurrences_text_of_ne (hcode : code ∈ table) (hother : other ∈ table) (hne : code ≠ other)
    (rest : Text) : other.occurrences (code.text ++ rest) = other.occurrences rest := by
  rw [occurrences_text hcode, if_neg (not_prefix_text_append hcode hother hne rest), Nat.zero_add]

/-- **Codes do not touch.**  Substituting a code makes and takes away no place of another one,
unless it puts percent signs out. -/
lemma occurrences_substitute (hcode : code ∈ table) (hother : other ∈ table) (hne : code ≠ other)
    (hchar : code.char ≠ '%') (budget : Nat) (plain : Text) :
    other.occurrences (code.substitute budget plain) = other.occurrences plain := by
  fun_induction substitute code budget plain with
  | case1 budget c high low rest hbegins ih =>
    obtain ⟨rfl, rfl, rfl⟩ := hbegins
    rw [occurrences_cons_of_ne hchar, ih]
    exact (occurrences_text_of_ne hcode hother hne rest).symm
  | case2 budget c high low rest hbegins ih =>
    rw [occurrences, occurrences, ih]
    simp only [text_prefix_substitute_iff hcode hother]
  | case3 => rfl

/-- A substitution goes on behind a text with what is left of its budget, unless the code reaches
over. -/
lemma substitute_append (hcode : code ∈ table) {back : Text}
    (hback : ∀ d ∈ back.head?, d ≠ code.high ∧ d ≠ code.low) (budget : Nat) (front : Text) :
    code.substitute budget (front ++ back)
      = code.substitute budget front
        ++ code.substitute (budget - code.occurrences front) back := by
  -- the induction goes along a pass with this budget for each code
  suffices hpass : ∀ budgets : Escape → Nat,
      code.substitute (budgets code) (front ++ back)
        = code.substitute (budgets code) front
          ++ code.substitute (budgets code - code.occurrences front) back from
    hpass fun _ => budget
  intro budgets
  induction budgets, front using pass_induction with
  | nil budgets => rw [List.nil_append, substitute_nil, occurrences, Nat.sub_zero, List.nil_append]
  | replaced budgets found rest hfound hbudget ih =>
    rw [List.append_assoc]
    by_cases heq : code = found
    · subst heq
      obtain ⟨budget, hsucc⟩ := Nat.exists_eq_succ_of_ne_zero (Nat.ne_of_gt hbudget)
      rw [Function.update_self, hsucc, Nat.succ_sub_one] at ih
      rw [hsucc, substitute_text, substitute_text, ih, occurrences_text_self hcode, Nat.add_comm 1,
        Nat.succ_sub_succ, List.cons_append]
    · rw [Function.update_of_ne heq] at ih
      rw [substitute_text_append hcode hfound heq, substitute_text_append hcode hfound heq, ih,
        occurrences_text_of_ne hfound hcode (Ne.symm heq), List.append_assoc]
  | passed budgets c rest hnone ih =>
    rcases Nat.eq_zero_or_pos (budgets code) with hzero | hpos
    · simp only [hzero, Nat.zero_sub, substitute_zero]
    · have hnot : ¬ code.text <+: c :: rest := hnone code hcode hpos
      rw [List.cons_append, substitute_cons (mt (text_prefix_append_iff hback).1 hnot),
        substitute_cons hnot, ih, occurrences, if_neg hnot, Nat.zero_add, List.cons_append]

/-- A substitution leaves another code alone. -/
lemma substitute_append_text (hcode : code ∈ table) (hother : other ∈ table) (hne : code ≠ other)
    (budget : Nat) (front back : Text) :
    code.substitute budget (front ++ (other.text ++ back))
      = code.substitute budget front
        ++ (other.text ++ code.substitute (budget - code.occurrences front) back) := by
  have hback : ∀ d ∈ (other.text ++ back).head?, d ≠ code.high ∧ d ≠ code.low := by
    rintro d ⟨⟩
    have hdigits := apart hcode hcode
    exact ⟨hdigits.high_ne.1.symm, hdigits.low_ne.1.symm⟩
  rw [substitute_append hcode hback, substitute_text_append hcode hother hne]

/-- Wherever another code stands after a substitution it stood before. -/
lemma exists_of_substitute_eq (hcode : code ∈ table) (hother : other ∈ table)
    (hchar : code.char ≠ '%') {budget : Nat} {plain front back : Text}
    (h : code.substitute budget plain = front ++ (other.text ++ back)) :
    ∃ before behind, plain = before ++ (other.text ++ behind) ∧
      code.substitute budget before = front := by
  fun_induction substitute code budget plain generalizing front with
  | case1 budget c high low rest hbegins ih =>
    obtain ⟨rfl, rfl, rfl⟩ := hbegins
    rcases front with _ | ⟨d, front⟩
    · exact absurd (List.cons.inj h).1 hchar
    · obtain ⟨rfl, hrest⟩ := List.cons.inj h
      obtain ⟨before, behind, rfl, rfl⟩ := ih hrest
      exact ⟨code.text ++ before, behind, rfl, substitute_text⟩
  | case2 budget c high low rest hbegins ih =>
    rcases front with _ | ⟨d, front⟩
    · have hopens : other.text <+: c :: high :: low :: rest :=
        (text_prefix_substitute_iff hcode hother).1 ⟨back, h.symm⟩
      obtain ⟨behind, hplain⟩ := hopens
      exact ⟨[], behind, hplain.symm, substitute_nil⟩
    · obtain ⟨rfl, hrest⟩ := List.cons.inj h
      obtain ⟨before, behind, hplain, rfl⟩ := ih hrest
      refine ⟨c :: before, behind, by rw [hplain, List.cons_append], ?_⟩
      rw [substitute_cons]
      intro htext
      have hwhole : code.text <+: c :: high :: low :: rest := by
        rw [hplain]
        exact htext.trans (List.prefix_append (c :: before) _)
      simp only [text, List.cons_prefix_cons, List.nil_prefix, and_true] at hwhole
      exact hbegins ⟨hwhole.1.symm, hwhole.2.1.symm, hwhole.2.2.symm⟩
  | case3 budget plain hshort =>
    refine ⟨front, back, h, ?_⟩
    rcases budget with _ | budget
    · exact substitute_zero
    · -- no code has room in so short a text
      exfalso
      subst h
      rcases front with _ | ⟨c, _ | ⟨high, _ | ⟨low, front⟩⟩⟩
      · exact hshort budget '%' other.high other.low back rfl rfl
      · exact hshort budget c '%' other.high (other.low :: back) rfl rfl
      · exact hshort budget c high '%' (other.high :: other.low :: back) rfl rfl
      · exact hshort budget c high low (front ++ (other.text ++ back)) rfl rfl

/-- The places where another code stands after a substitution are those where it stood before. -/
lemma substitute_eq_append_iff (hcode : code ∈ table) (hother : other ∈ table) (hne : code ≠ other)
    (hchar : code.char ≠ '%') (budget : Nat) (plain front back : Text) :
    code.substitute budget plain = front ++ (other.text ++ back) ↔
      ∃ before behind, plain = before ++ (other.text ++ behind) ∧
        code.substitute budget before = front ∧
        code.substitute (budget - code.occurrences before) behind = back := by
  constructor
  · intro h
    obtain ⟨before, behind, rfl, rfl⟩ := exists_of_substitute_eq hcode hother hchar h
    rw [substitute_append_text hcode hother hne] at h
    have hback := List.append_cancel_left (List.append_cancel_left h)
    exact ⟨before, behind, rfl, rfl, hback⟩
  · rintro ⟨before, behind, rfl, rfl, rfl⟩
    exact substitute_append_text hcode hother hne budget before behind

/-- A substitution takes two characters for each place of the code, as long as its budget lasts. -/
lemma length_substitute (hcode : code ∈ table) (budget : Nat) (plain : Text) :
    (code.substitute budget plain).length + 2 * min budget (code.occurrences plain)
      = plain.length := by
  fun_induction substitute code budget plain with
  | case1 budget c high low rest hbegins ih =>
    obtain ⟨rfl, rfl, rfl⟩ := hbegins
    have hplain : code.occurrences ('%' :: code.high :: code.low :: rest)
        = 1 + code.occurrences rest := occurrences_text_self hcode rest
    rw [hplain]
    simp only [List.length_cons]
    omega
  | case2 budget c high low rest hbegins ih =>
    have hnot : ¬ code.text <+: c :: high :: low :: rest := by
      intro htext
      simp only [text, List.cons_prefix_cons, List.nil_prefix, and_true] at htext
      exact hbegins ⟨htext.1.symm, htext.2.1.symm, htext.2.2.symm⟩
    rw [occurrences, if_neg hnot, Nat.zero_add]
    simp only [List.length_cons] at ih ⊢
    omega
  | case3 budget plain hshort =>
    have hnone : budget = 0 ∨ code.occurrences plain = 0 := by
      rcases budget with _ | budget
      · exact .inl rfl
      · rcases plain with _ | ⟨c, _ | ⟨high, _ | ⟨low, rest⟩⟩⟩
        · simp [occurrences]
        · simp [occurrences, text]
        · simp [occurrences, text]
        · exact (hshort budget c high low rest rfl rfl).elim
    omega

/-! ### One pass for several substitutions -/

/-- A substitution before a pass comes to a budget for its code in the pass. -/
lemma scan_substitute (hcode : code ∈ table) (hchar : code.char ≠ '%') (budgets : Escape → Nat)
    (plain : Text) :
    scan (Function.update budgets code 0) (code.substitute (budgets code) plain)
      = scan budgets plain := by
  induction budgets, plain using pass_induction with
  | nil => simp [scan]
  | replaced budgets found rest hfound hbudget ih =>
    rw [scan_text hfound hbudget]
    by_cases heq : code = found
    · subst heq
      obtain ⟨budget, hsucc⟩ := Nat.exists_eq_succ_of_ne_zero (Nat.ne_of_gt hbudget)
      rw [Function.update_idem, Function.update_self] at ih
      rw [hsucc, Nat.succ_sub_one] at ih ⊢
      rw [substitute_text, scan_cons_of_ne hchar, ih]
    · -- the substitution goes past the other code, and the pass replaces it as before
      have hleft : 0 < Function.update budgets code 0 found := by
        rwa [Function.update_of_ne (Ne.symm heq)]
      rw [Function.update_of_ne heq, Function.update_comm (Ne.symm heq)] at ih
      rw [substitute_text_append hcode hfound heq, scan_text hfound hleft,
        Function.update_of_ne (Ne.symm heq), ih]
  | passed budgets c rest hnone ih =>
    -- no other code comes to stand here by the substitution behind
    rw [substitute_cons_of_imp (hnone code hcode), scan_cons hnone, scan_cons, ih]
    intro other hother hbudget hprefix
    have hne : other ≠ code := by
      rintro rfl
      simp at hbudget
    rw [Function.update_of_ne hne] at hbudget
    exact hnone other hother hbudget ((text_prefix_substitute_iff hcode hother).1 hprefix)

/-- A pass for one code is its substitution. -/
lemma scan_of_forall_ne (hcode : code ∈ table) (budgets : Escape → Nat) (plain : Text)
    (h : ∀ other, other ≠ code → budgets other = 0) :
    scan budgets plain = code.substitute (budgets code) plain := by
  induction budgets, plain using pass_induction with
  | nil => simp [scan]
  | replaced budgets found rest hfound hbudget ih =>
    obtain rfl : found = code := by
      by_contra hne
      rw [h found hne] at hbudget
      exact Nat.lt_irrefl 0 hbudget
    obtain ⟨budget, hsucc⟩ := Nat.exists_eq_succ_of_ne_zero (Nat.ne_of_gt hbudget)
    rw [scan_text hfound hbudget, ih, Function.update_self, hsucc, substitute_text,
      Nat.succ_sub_one]
    intro other hne
    rw [Function.update_of_ne hne, h other hne]
  | passed budgets c rest hnone ih =>
    rw [scan_cons hnone, substitute_cons_of_imp (hnone code hcode), ih h]

lemma allowance_of_mem (h : code ∈ codes) : allowance codes code = limit := if_pos h

lemma allowance_of_not_mem (h : code ∉ codes) : allowance codes code = 0 := if_neg h

lemma allowance_congr (h : codes ~ others) : allowance codes = allowance others := by
  ext code
  simp only [allowance, h.mem_iff]

lemma update_allowance_cons (h : code ∉ codes) :
    Function.update (allowance (code :: codes)) code 0 = allowance codes := by
  ext other
  by_cases heq : other = code
  · subst heq
    rw [Function.update_self, allowance_of_not_mem h]
  · rw [Function.update_of_ne heq]
    simp only [allowance, List.mem_cons, heq, false_or]

/-- Substitutions before a pass come to budgets for their codes in the pass. -/
lemma scan_foldl_substitute (hsub : codes ⊆ table) (hnodup : (codes ++ others).Nodup)
    (hchar : ∀ code ∈ codes, code.char ≠ '%') (plain : Text) :
    scan (allowance others) (codes.foldl (fun text code => code.substitute limit text) plain)
      = scan (allowance (codes ++ others)) plain := by
  induction codes generalizing plain with
  | nil => rfl
  | cons code codes ih =>
    rw [List.cons_append] at hnodup ⊢
    obtain ⟨hcode, hcodes⟩ := List.cons_subset.1 hsub
    obtain ⟨hnot, hrest⟩ := List.nodup_cons.1 hnodup
    have hstep := scan_substitute hcode (hchar code List.mem_cons_self)
      (allowance (code :: (codes ++ others))) plain
    rw [update_allowance_cons hnot, allowance_of_mem List.mem_cons_self] at hstep
    rw [List.foldl_cons, ih hcodes hrest, hstep]
    intro other hother
    exact hchar other (List.mem_cons_of_mem _ hother)

/-- A pass without a budget changes nothing. -/
lemma scan_allowance_nil (plain : Text) : scan (allowance []) plain = plain := by
  have hnone : ∀ code : Escape, allowance [] code = 0 := fun _ => allowance_of_not_mem (by simp)
  rw [scan_of_forall_ne mem_table_percent _ _ fun other _ => hnone other, hnone, substitute_zero]

lemma scan_allowance_percent (plain : Text) :
    scan (allowance [percent]) plain = percent.substitute limit plain := by
  rw [scan_of_forall_ne mem_table_percent, allowance_of_mem (by simp)]
  intro other hne
  exact allowance_of_not_mem (by simpa using hne)

/-! ### The two passes -/

lemma ne_percent_of_ne (hcode : code ∈ table) (hne : code ≠ percent) : code.char ≠ '%' := by
  intro hchar
  exact hne ((apart hcode mem_table_percent).eq_of_char hchar)

/-- In whichever order the codes before that of the percent sign are substituted, with it they come
to the first pass. -/
lemma scan_early {front : List Escape} (hfront : front ++ [percent] ~ early) (plain : Text) :
    percent.substitute limit (front.foldl (fun text code => code.substitute limit text) plain)
      = scan (allowance early) plain := by
  have hearly : early.Nodup ∧ early ⊆ table := by decide
  have hnodup : (front ++ [percent]).Nodup := hfront.nodup_iff.2 hearly.1
  have hsub : front ++ [percent] ⊆ table := List.Subset.trans hfront.subset hearly.2
  rw [← scan_allowance_percent, scan_foldl_substitute _ hnodup, allowance_congr hfront]
  · intro code hcode
    refine ne_percent_of_ne (hsub (List.mem_append_left _ hcode)) ?_
    rintro rfl
    exact (List.nodup_append.1 hnodup).2.2 _ hcode _ (List.mem_singleton_self _) rfl
  · exact List.Subset.trans (List.subset_append_left _ _) hsub

/-- In whichever order the codes behind it are substituted, they come to the second pass. -/
lemma scan_later {back : List Escape} (hback : back ~ later) (plain : Text) :
    back.foldl (fun text code => code.substitute limit text) plain
      = scan (allowance later) plain := by
  have hlater : later.Nodup := by decide
  have hnodup : (back ++ []).Nodup := by
    rw [List.append_nil]
    exact hback.nodup_iff.2 hlater
  have hpass := scan_foldl_substitute (List.Subset.trans hback.subset later_sublist.subset) hnodup
    (fun code hcode => ne_percent_of_mem_later (hback.subset hcode)) plain
  rwa [scan_allowance_nil, List.append_nil, allowance_congr hback] at hpass

lemma early_eq : early = early.dropLast ++ [percent] := by decide

lemma table_eq : table = early ++ later := by decide

lemma foldl_table_eq_scan {front back : List Escape} (hfront : front ++ [percent] ~ early)
    (hback : back ~ later) (target : Text) :
    (front ++ percent :: back).foldl (fun text code => code.substitute limit text) target
      = scan (allowance later) (scan (allowance early) target) := by
  rw [List.foldl_append, List.foldl_cons, scan_early hfront, scan_later hback]

/-! ### How many codes are replaced -/

lemma replacements_cons : replacements (code :: codes) plain
    = min limit (code.occurrences plain) + replacements codes plain := by
  simp [replacements]

lemma replacements_le (codes : List Escape) (plain : Text) :
    replacements codes plain ≤ codes.length * limit := by
  induction codes with
  | nil => exact Nat.le_refl _
  | cons code codes ih =>
    rw [replacements_cons, List.length_cons, Nat.succ_mul]
    omega

/-- After a substitution as many of the other codes are replaced as before it. -/
lemma replacements_substitute (hcode : code ∈ table) (hsub : codes ⊆ table) (hnot : code ∉ codes)
    (hchar : code.char ≠ '%') (plain : Text) :
    replacements codes (code.substitute limit plain) = replacements codes plain := by
  have hcounts : ∀ other ∈ codes, min limit (other.occurrences (code.substitute limit plain))
      = min limit (other.occurrences plain) := by
    intro other hother
    have hne : code ≠ other := by
      rintro rfl
      exact hnot hother
    rw [occurrences_substitute hcode (hsub hother) hne hchar]
  rw [replacements, replacements, List.map_congr_left hcounts]

/-- Substitutions replace each code where it stands in the text as it was before any of them. -/
lemma length_foldl_substitute (hsub : codes ⊆ table) (hnodup : codes.Nodup)
    (hchar : ∀ code ∈ codes.dropLast, code.char ≠ '%') (plain : Text) :
    (codes.foldl (fun text code => code.substitute limit text) plain).length
      + 2 * replacements codes plain = plain.length := by
  induction codes generalizing plain with
  | nil => simp [replacements]
  | cons code codes ih =>
    obtain ⟨hcode, hcodes⟩ := List.cons_subset.1 hsub
    obtain ⟨hnot, hrest⟩ := List.nodup_cons.1 hnodup
    -- the last code alone may put percent signs out, and no code comes behind it
    have hkept : replacements codes (code.substitute limit plain) = replacements codes plain := by
      rcases codes with _ | ⟨next, codes⟩
      · rfl
      · exact replacements_substitute hcode hcodes hnot (hchar code List.mem_cons_self) plain
    have hlength := length_substitute hcode limit plain
    have hmore := ih hcodes hrest ?_ (code.substitute limit plain)
    · rw [List.foldl_cons, replacements_cons]
      rw [hkept] at hmore
      omega
    · intro other hother
      have hne : codes ≠ [] := List.ne_nil_of_mem (List.dropLast_subset codes hother)
      refine hchar other ?_
      rw [List.dropLast_cons_of_ne_nil hne]
      exact List.mem_cons_of_mem _ hother

lemma length_scan_early (plain : Text) :
    (scan (allowance early) plain).length + 2 * replacements early plain = plain.length := by
  have hearly : early ⊆ table ∧ early.Nodup ∧ ∀ code ∈ early.dropLast, code.char ≠ '%' := by decide
  have hlength := length_foldl_substitute hearly.1 hearly.2.1 hearly.2.2 plain
  rw [early_eq, List.foldl_append, List.foldl_cons, List.foldl_nil, ← early_eq,
    scan_early (by rw [← early_eq])] at hlength
  exact hlength

lemma length_scan_later (plain : Text) :
    (scan (allowance later) plain).length + 2 * replacements later plain = plain.length := by
  have hlater : later.Nodup ∧ ∀ code ∈ later.dropLast, code.char ≠ '%' := by decide
  rw [← scan_later (List.Perm.refl _)]
  exact length_foldl_substitute later_sublist.subset hlater.1 hlater.2 plain

/-- **Two passes.**  Decoding is one pass with the codes up to `%25`, which are five, and a second
one with those behind it.  So the order of the substitutions means nothing on either side of `%25`.
Across `%25` it does, for each of the other codes, though none of them makes or takes away a place
of a different one: where this stands after the substitution, it stood before.  Each replacement
takes two characters, so there are as many as the passes count, and never more than 22 times 128. -/
theorem decode_eq_passes (target : Text) :
    decode target = scan (allowance later) (scan (allowance early) target) ∧
      (table = early ++ later ∧ early.map text
        = ["%20".toList, "%3C".toList, "%3E".toList, "%23".toList, "%25".toList]) ∧
      (∀ front back : List Escape, front ++ [percent] ~ early → back ~ later →
        (front ++ percent :: back).foldl (fun text code => code.substitute limit text) target
          = decode target) ∧
      (∀ code ∈ table, code ≠ percent →
        (∃ plain, percent.substitute limit (code.substitute limit plain)
          ≠ code.substitute limit (percent.substitute limit plain)) ∧
        ∀ other ∈ table, code ≠ other → ∀ budget plain,
          other.occurrences (code.substitute budget plain) = other.occurrences plain ∧
          ∀ front back, code.substitute budget plain = front ++ (other.text ++ back) ↔
            ∃ before behind, plain = before ++ (other.text ++ behind) ∧
              code.substitute budget before = front ∧
              code.substitute (budget - code.occurrences before) behind = back) ∧
      (scan (allowance early) target).length + 2 * replacements early target = target.length ∧
      (decode target).length + 2 * replacements later (scan (allowance early) target)
        = (scan (allowance early) target).length ∧
      replacements early target + replacements later (scan (allowance early) target)
        ≤ 22 * 128 := by
  have hdecode : decode target = scan (allowance later) (scan (allowance early) target) := by
    have hearly : early.dropLast ++ [percent] ~ early := by rw [← early_eq]
    rw [decode, table_eq, early_eq, List.append_assoc, List.singleton_append,
      foldl_table_eq_scan hearly (List.Perm.refl _)]
    rw [← early_eq]
  -- a code that is written with its percent sign as a code tells the two orders apart
  have hacross : ∀ code ∈ table, code ≠ percent →
      percent.substitute limit (code.substitute limit (percent.text ++ [code.high, code.low]))
        ≠ code.substitute limit (percent.substitute limit (percent.text ++ [code.high, code.low]))
      := by
    decide +kernel
  refine ⟨hdecode, ⟨table_eq, by decide⟩, ?_, ?_, length_scan_early target, ?_, ?_⟩
  · intro front back hfront hback
    rw [foldl_table_eq_scan hfront hback, hdecode]
  · intro code hcode hne
    refine ⟨⟨_, hacross code hcode hne⟩, ?_⟩
    intro other hother hother_ne budget plain
    have hchar : code.char ≠ '%' := ne_percent_of_ne hcode hne
    exact ⟨occurrences_substitute hcode hother hother_ne hchar budget plain,
      substitute_eq_append_iff hcode hother hother_ne hchar budget plain⟩
  · rw [hdecode]
    exact length_scan_later _
  · have hearly := replacements_le early target
    have hlater := replacements_le later (scan (allowance early) target)
    have hlengths : early.length = 5 ∧ later.length = 17 ∧ limit = 128 := by decide
    rw [hlengths.1, hlengths.2.2] at hearly
    rw [hlengths.2.1, hlengths.2.2] at hlater
    omega

/-- A text with codes that are written twice. -/
def doubled : Text := "%253C%257B%3C".toList

theorem decode_eq_passes_doubled :
    early.dropLast.reverse ++ [percent] ~ early ∧ later.reverse ~ later ∧
      (early.dropLast.reverse ++ percent :: later.reverse).foldl
        (fun text code => code.substitute limit text) doubled = decode doubled ∧
      ⟨'3', 'C', '<'⟩ ∈ table ∧ ⟨'3', 'C', '<'⟩ ≠ percent ∧ percent ∈ table ∧
      percent.occurrences (substitute ⟨'3', 'C', '<'⟩ 128 doubled) = percent.occurrences doubled ∧
      decode doubled = "%3C\x7b<".toList := by
  obtain ⟨-, -, horder, hcodes, -⟩ := decode_eq_passes doubled
  have hfront : early.dropLast.reverse ++ [percent] ~ early := by decide
  have hback : later.reverse ~ later := List.reverse_perm _
  have hcode : (⟨'3', 'C', '<'⟩ : Escape) ∈ table := by decide
  have hne : (⟨'3', 'C', '<'⟩ : Escape) ≠ percent := by decide
  exact ⟨hfront, hback, horder _ _ hfront hback, hcode, hne, mem_table_percent,
    ((hcodes _ hcode hne).2 percent mem_table_percent hne 128 doubled).1, by decide +kernel⟩

end SiteServer.Escape
