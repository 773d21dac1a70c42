import Mathlib.Data.List.Basic
import SiteServer.Http.Escape

/-!
# Escaping and decoding

Escaping a text writes every reserved character as its code.  Decoding substitutes the codes one
after the other, so it takes the escapes back one character at a time: after a code has been
substituted, the text is still escaped for the codes that come later in the table
(`substitute_encode`).  From `%25` on the text has percent signs of its own, and a code that such a
sign begins is substituted like an escape.  Decoding therefore undoes escaping on the texts in which
none of the codes after `%25` stands, and on other texts it decodes these codes once more.
-/

namespace SiteServer.Escape

variable {code other : Escape} {codes : List Escape} {budget : Nat} {c : Char} {plain rest : Text}

/-- A character as it is escaped for some codes. -/
def writeChar (codes : List Escape) (c : Char) : Text :=
  match codes.find? (·.char = c) with
  | some code => code.text
  | none => [c]

/-- The text with the characters of some codes written as these codes. -/
def encode (codes : List Escape) (plain : Text) : Text :=
  plain.flatMap (writeChar codes)

/-- The code of the percent sign. -/
def percent : Escape :=
  ⟨'2', '5', '%'⟩

/-- The codes that are substituted after that of the percent sign. -/
def later : List Escape :=
  (table.dropWhile (· ≠ percent)).tail

/-- At how many places of a text a code stands. -/
def occurrences (code : Escape) : Text → Nat
  | [] => 0
  | c :: rest => (if code.text <+: c :: rest then 1 else 0) + code.occurrences rest

/-! ### The codes of the table -/

/-- What keeps two codes apart: no character of a code's text but the percent sign is reserved, and
different codes have different texts and characters. -/
structure Apart (code other : Escape) : Prop where
  high_ne : code.high ≠ '%' ∧ code.high ≠ other.char
  low_ne : code.low ≠ '%' ∧ code.low ≠ other.char
  eq_of_text : code.high = other.high → code.low = other.low → code = other
  eq_of_char : code.char = other.char → code = other

lemma apart (hcode : code ∈ table) (hother : other ∈ table) : Apart code other := by
  have h : ∀ code ∈ table, ∀ other ∈ table,
      (code.high ≠ '%' ∧ code.high ≠ other.char) ∧ (code.low ≠ '%' ∧ code.low ≠ other.char) ∧
        (code.high = other.high → code.low = other.low → code = other) ∧
        (code.char = other.char → code = other) := by
    decide
  obtain ⟨hhigh, hlow, htext, hchar⟩ := h code hcode other hother
  exact ⟨hhigh, hlow, htext, hchar⟩

lemma later_sublist : later.Sublist table :=
  (List.tail_sublist _).trans (List.dropWhile_sublist _)

lemma ne_percent_of_mem_later (h : code ∈ later) : code.char ≠ '%' := by
  have hall : ∀ code ∈ later, code.char ≠ '%' := by decide
  exact hall code h

/-! ### Substituting -/

lemma text_prefix_iff : code.text <+: c :: rest ↔ c = '%' ∧ [code.high, code.low] <+: rest := by
  rw [text, List.cons_prefix_cons]
  exact and_congr_left fun _ => eq_comm

lemma substitute_text :
    code.substitute (budget + 1) (code.text ++ rest)
      = code.char :: code.substitute budget rest := by
  simp [text, substitute]

/-- A character that does not begin the code stays. -/
lemma substitute_cons (h : ¬ code.text <+: c :: rest) :
    code.substitute budget (c :: rest) = c :: code.substitute budget rest := by
  rcases budget with _ | budget
  · simp [substitute]
  · rcases rest with _ | ⟨high, _ | ⟨low, rest⟩⟩
    · simp [substitute]
    · simp [substitute]
    · have hne : ¬ (c = '%' ∧ high = code.high ∧ low = code.low) := by
        rintro ⟨rfl, rfl, rfl⟩
        exact h ⟨rest, rfl⟩
      rw [substitute, if_neg hne]

lemma substitute_cons_of_ne (h : c ≠ '%') :
    code.substitute budget (c :: rest) = c :: code.substitute budget rest :=
  substitute_cons fun hbegins => h (text_prefix_iff.1 hbegins).1

/-- A percent sign that does not begin the code stays. -/
lemma substitute_percent (h : ¬ [code.high, code.low] <+: rest) :
    code.substitute budget ('%' :: rest) = '%' :: code.substitute budget rest :=
  substitute_cons fun hbegins => h (text_prefix_iff.1 hbegins).2

/-- Where a code does not stand, there is nothing to substitute. -/
lemma substitute_eq_self (h : ¬ code.text <:+: plain) :
    code.substitute budget plain = plain := by
  induction plain with
  | nil => simp [substitute]
  | cons c rest ih =>
    rw [List.infix_cons_iff, not_or] at h
    rw [substitute_cons h.1, ih h.2]

lemma length_substitute_le : (code.substitute budget plain).length ≤ plain.length := by
  fun_induction substitute code budget plain with
  | case1 budget c high low rest hbegins ih =>
    simp only [List.length_cons]
    omega
  | case2 budget c high low rest hbegins ih => exact Nat.succ_le_succ ih
  | case3 => exact Nat.le_refl _

/-- A substitution that leaves the length of a text finds no code there. -/
lemma not_infix_of_length_eq (h : (code.substitute (budget + 1) plain).length = plain.length) :
    ¬ code.text <:+: plain := by
  induction plain with
  | nil => simp [text]
  | cons c rest ih =>
    rw [List.infix_cons_iff, not_or]
    by_cases hhead : code.text <+: c :: rest
    · -- the code is substituted, and two characters are gone
      exfalso
      obtain ⟨after, hafter⟩ := hhead
      have hle : (code.substitute budget after).length ≤ after.length := length_substitute_le
      rw [← hafter, substitute_text, text] at h
      simp only [List.cons_append, List.length_cons, List.length_append, List.length_nil] at h
      omega
    · rw [substitute_cons hhead, List.length_cons, List.length_cons, Nat.add_right_cancel_iff] at h
      exact ⟨hhead, ih h⟩

/-! ### One code after the other -/

lemma writeChar_of_mem (hmem : code ∈ codes) (hcodes : codes ⊆ table) :
    writeChar codes code.char = code.text := by
  cases hfind : codes.find? (·.char = code.char) with
  | none => simpa using List.find?_eq_none.1 hfind code hmem
  | some found =>
    have hchar : found.char = code.char := by simpa using List.find?_some hfind
    have hfound := hcodes (List.mem_of_find?_eq_some hfind)
    rw [writeChar, hfind, (apart hfound (hcodes hmem)).eq_of_char hchar]

lemma writeChar_of_forall_ne (h : ∀ code ∈ codes, code.char ≠ c) : writeChar codes c = [c] := by
  have hfind : codes.find? (·.char = c) = none :=
    List.find?_eq_none.2 fun code hmem => by simpa using h code hmem
  rw [writeChar, hfind]

lemma encode_cons : encode codes (c :: rest) = writeChar codes c ++ encode codes rest := by
  simp [encode]

/-- A character that is not escaped stands at the beginning of an escaped text only if it stands
there in the text itself. -/
lemma cons_prefix_encode {tail : Text} (hpercent : c ≠ '%') (hne : ∀ code ∈ codes, code.char ≠ c) :
    c :: tail <+: encode codes plain ↔ ∃ rest, plain = c :: rest ∧ tail <+: encode codes rest := by
  cases plain with
  | nil => simp [encode]
  | cons d rest =>
    cases hfind : codes.find? (·.char = d) with
    | none =>
      rw [encode_cons, writeChar, hfind, List.singleton_append, List.cons_prefix_cons]
      constructor
      · rintro ⟨rfl, htail⟩
        exact ⟨rest, rfl, htail⟩
      · rintro ⟨_, ⟨⟩, htail⟩
        exact ⟨rfl, htail⟩
    | some found =>
      -- the escape begins with a percent sign, and `d` is reserved
      have hchar : found.char = d := by simpa using List.find?_some hfind
      have hd : d ≠ c := hchar ▸ hne found (List.mem_of_find?_eq_some hfind)
      simp only [encode_cons, writeChar, hfind, Escape.text, List.cons_append,
        List.cons_prefix_cons]
      constructor
      · rintro ⟨rfl, -⟩
        exact absurd rfl hpercent
      · rintro ⟨_, ⟨⟩, -⟩
        exact absurd rfl hd

/-- The digits of a code follow in an escaped text only if they follow in the text itself. -/
lemma digits_prefix_encode (hcode : code ∈ table) (hcodes : codes ⊆ table) :
    [code.high, code.low] <+: encode codes plain ↔
      ∃ rest, plain = code.high :: code.low :: rest := by
  have hhigh : ∀ other ∈ codes, other.char ≠ code.high := fun other hother =>
    ((apart hcode (hcodes hother)).high_ne.2).symm
  have hlow : ∀ other ∈ codes, other.char ≠ code.low := fun other hother =>
    ((apart hcode (hcodes hother)).low_ne.2).symm
  rw [cons_prefix_encode (apart hcode hcode).high_ne.1 hhigh]
  constructor
  · rintro ⟨middle, rfl, htail⟩
    obtain ⟨rest, rfl, -⟩ := (cons_prefix_encode (apart hcode hcode).low_ne.1 hlow).1 htail
    exact ⟨rest, rfl⟩
  · rintro ⟨rest, rfl⟩
    exact ⟨_, rfl, (cons_prefix_encode (apart hcode hcode).low_ne.1 hlow).2
      ⟨rest, rfl, List.nil_prefix⟩⟩

lemma encode_digits (hcode : code ∈ table) (hcodes : codes ⊆ table) :
    encode codes (code.high :: code.low :: rest) = code.high :: code.low :: encode codes rest := by
  have hhigh : ∀ other ∈ codes, other.char ≠ code.high := fun other hother =>
    ((apart hcode (hcodes hother)).high_ne.2).symm
  have hlow : ∀ other ∈ codes, other.char ≠ code.low := fun other hother =>
    ((apart hcode (hcodes hother)).low_ne.2).symm
  rw [encode_cons, encode_cons, writeChar_of_forall_ne hhigh, writeChar_of_forall_ne hlow]
  rfl

lemma substitute_digits (hother : other ∈ table) :
    code.substitute budget (other.high :: other.low :: rest)
      = other.high :: other.low :: code.substitute budget rest := by
  have hdigits := apart hother hother
  rw [substitute_cons_of_ne hdigits.high_ne.1, substitute_cons_of_ne hdigits.low_ne.1]

/-- The escape of another code is passed over. -/
lemma substitute_text_append (hcode : code ∈ table) (hother : other ∈ table) (hne : code ≠ other) :
    code.substitute budget (other.text ++ rest) = other.text ++ code.substitute budget rest := by
  have hopens : ¬ [code.high, code.low] <+: other.high :: other.low :: rest := by
    intro h
    simp only [List.cons_prefix_cons, List.nil_prefix, and_true] at h
    exact hne ((apart hcode hother).eq_of_text h.1 h.2)
  simp only [text, List.cons_append, List.nil_append]
  rw [substitute_percent hopens, substitute_digits hother]

section Step

variable (hcodes : code :: codes ⊆ table) (hnot : code ∉ codes)
include hcodes hnot

lemma writeChar_char : writeChar codes code.char = [code.char] :=
  writeChar_of_forall_ne fun _ hother heq =>
    have hcode : code ∈ table := hcodes List.mem_cons_self
    hnot ((apart (hcodes (List.mem_cons_of_mem _ hother)) hcode).eq_of_char heq ▸ hother)

/-- The escape of the code's own character is substituted. -/
lemma substitute_writeChar_char :
    code.substitute (budget + 1) (writeChar (code :: codes) code.char ++ rest)
      = writeChar codes code.char ++ code.substitute budget rest := by
  rw [writeChar_of_mem List.mem_cons_self hcodes, substitute_text, writeChar_char hcodes hnot]
  rfl

/-- Another character is passed over, escaped or not, unless it is a percent sign that may begin the
code. -/
lemma substitute_writeChar_of_ne (hne : code.char ≠ c)
    (hc : c ≠ '%' ∨ ∃ other ∈ codes, other.char = c) :
    code.substitute budget (writeChar (code :: codes) c ++ rest)
      = writeChar codes c ++ code.substitute budget rest := by
  have hsame : writeChar (code :: codes) c = writeChar codes c := by simp [writeChar, hne]
  rw [hsame]
  by_cases hmem : ∃ other ∈ codes, other.char = c
  · obtain ⟨other, hother, rfl⟩ := hmem
    have hothers : codes ⊆ table := fun other hother => hcodes (List.mem_cons_of_mem _ hother)
    rw [writeChar_of_mem hother hothers]
    exact substitute_text_append (hcodes List.mem_cons_self) (hothers hother)
      fun heq => hnot (heq ▸ hother)
  · have hpercent : c ≠ '%' := hc.resolve_right hmem
    have hraw : writeChar codes c = [c] :=
      writeChar_of_forall_ne fun other hother heq => hmem ⟨other, hother, heq⟩
    rw [hraw, List.singleton_append, substitute_cons_of_ne hpercent, List.singleton_append]

/-- As long as the percent sign is escaped, every code in an escaped text is an escape. -/
lemma substitute_encode_of_percent (hpercent : ∃ other ∈ code :: codes, other.char = '%')
    (hbudget : plain.count code.char ≤ budget) :
    code.substitute budget (encode (code :: codes) plain) = encode codes plain := by
  induction plain generalizing budget with
  | nil => simp [encode, substitute]
  | cons c rest ih =>
    rw [encode_cons, encode_cons]
    by_cases hc : code.char = c
    · subst hc
      rw [List.count_cons_self] at hbudget
      obtain ⟨budget, rfl⟩ := Nat.exists_eq_add_of_le' (Nat.le_of_add_left_le hbudget)
      rw [substitute_writeChar_char hcodes hnot, ih (by omega)]
    · rw [List.count_cons_of_ne (Ne.symm hc)] at hbudget
      rw [substitute_writeChar_of_ne hcodes hnot hc, ih hbudget]
      by_cases heq : c = '%'
      · obtain ⟨other, hother, hchar⟩ := hpercent
        subst heq
        refine .inr ⟨other, (List.mem_cons.1 hother).resolve_left ?_, hchar⟩
        rintro rfl
        exact hc hchar
      · exact .inl heq

/-- Later, a code in an escaped text is an escape or one that stands in the text itself; both are
substituted. -/
lemma substitute_encode (hpercent : ∀ other ∈ code :: codes, other.char ≠ '%') {budget' : Nat}
    (hbudget : plain.count code.char + code.occurrences plain ≤ budget)
    (hbudget' : code.occurrences plain ≤ budget') :
    code.substitute budget (encode (code :: codes) plain)
      = encode codes (code.substitute budget' plain) := by
  have hcode : code ∈ table := hcodes List.mem_cons_self
  have hothers : codes ⊆ table := fun other hother => hcodes (List.mem_cons_of_mem _ hother)
  have hpercent' : ∀ other ∈ codes, other.char ≠ '%' := fun other hother =>
    hpercent other (List.mem_cons_of_mem _ hother)
  induction plain generalizing budget budget' with
  | nil => simp [encode, substitute]
  | cons c rest ih =>
    rw [encode_cons]
    by_cases hpc : c = '%'
    · subst hpc
      rw [writeChar_of_forall_ne hpercent, List.singleton_append]
      rw [List.count_cons_of_ne (hpercent code List.mem_cons_self).symm] at hbudget
      by_cases hopens : [code.high, code.low] <+: rest
      · -- the percent sign begins the code; its digits are not escaped
        rw [occurrences, if_pos (text_prefix_iff.2 ⟨rfl, hopens⟩)] at hbudget hbudget'
        obtain ⟨after, rfl⟩ := hopens
        obtain ⟨budget, rfl⟩ := Nat.exists_eq_add_of_le' (show 1 ≤ budget by omega)
        obtain ⟨budget', rfl⟩ := Nat.exists_eq_add_of_le' (show 1 ≤ budget' by omega)
        have hafter : code.substitute budget (encode (code :: codes) _)
            = encode codes (code.substitute budget' _) := ih (by omega) (by omega)
        simp only [List.cons_append, List.nil_append, encode_digits hcode hcodes,
          encode_digits hcode hothers, substitute_digits hcode, List.cons.injEq, true_and]
          at hafter ⊢
        calc code.substitute (budget + 1) (code.text ++ encode (code :: codes) after)
            _ = code.char :: encode codes (code.substitute budget' after) := by
              rw [substitute_text, hafter]
            _ = encode codes (code.substitute (budget' + 1) (code.text ++ after)) := by
              rw [substitute_text, encode_cons, writeChar_char hcodes hnot]
              rfl
      · have hopens' : ¬ [code.high, code.low] <+: encode (code :: codes) rest := by
          rw [digits_prefix_encode hcode hcodes]
          rintro ⟨after, rfl⟩
          exact hopens ⟨after, rfl⟩
        rw [occurrences, if_neg fun h => hopens (text_prefix_iff.1 h).2, Nat.zero_add]
          at hbudget hbudget'
        rw [substitute_percent hopens, substitute_percent hopens', ih hbudget hbudget', encode_cons,
          writeChar_of_forall_ne hpercent']
        rfl
    · have hhead : ¬ code.text <+: c :: rest := fun h => hpc (text_prefix_iff.1 h).1
      rw [occurrences, if_neg hhead, Nat.zero_add] at hbudget hbudget'
      rw [substitute_cons_of_ne hpc, encode_cons]
      by_cases hc : code.char = c
      · subst hc
        rw [List.count_cons_self] at hbudget
        obtain ⟨budget, rfl⟩ := Nat.exists_eq_add_of_le' (show 1 ≤ budget by omega)
        rw [substitute_writeChar_char hcodes hnot, ih (by omega) hbudget']
      · rw [List.count_cons_of_ne (Ne.symm hc)] at hbudget
        rw [substitute_writeChar_of_ne hcodes hnot hc (.inl hpc), ih hbudget hbudget']

end Step

/-! ### The whole table -/

/-- A character that a substitution does not make stands there before. -/
lemma cons_prefix_substitute {tail : Text} (hne : c ≠ code.char)
    (h : c :: tail <+: code.substitute budget plain) :
    ∃ budget' rest, plain = c :: rest ∧ tail <+: code.substitute budget' rest := by
  unfold substitute at h
  split at h
  · split at h
    · exact absurd (List.cons_prefix_cons.1 h).1 hne
    · obtain ⟨rfl, htail⟩ := List.cons_prefix_cons.1 h
      exact ⟨_, _, rfl, htail⟩
  · obtain ⟨rest, rfl⟩ := h
    exact ⟨0, _, rfl, by simp [substitute]⟩

/-- How often a character and its code stand in a text. -/
def load (code : Escape) (plain : Text) : Nat :=
  plain.count code.char + code.occurrences plain

lemma load_cons : code.load (c :: rest)
    = (if c = code.char then 1 else 0) + (if code.text <+: c :: rest then 1 else 0)
      + code.load rest := by
  rw [load, load, List.count_cons, occurrences]
  split <;> split <;> simp_all <;> omega

/-- Substituting one code brings in no other one. -/
lemma load_substitute_le (hcode : code ∈ table) (hother : other ∈ table) (hne : code ≠ other)
    (hpercent : code.char ≠ '%') :
    other.load (code.substitute budget plain) ≤ other.load plain := by
  have hchar : code.char ≠ other.char := fun heq => hne ((apart hcode hother).eq_of_char heq)
  have hdigits := apart hother hcode
  fun_induction substitute code budget plain with
  | case1 budget c high low rest hbegins ih =>
    have hhead : ¬ other.text <+: code.char :: code.substitute budget rest :=
      fun h => hpercent (text_prefix_iff.1 h).1
    rw [load_cons, if_neg hchar, if_neg hhead, load_cons, load_cons, load_cons]
    omega
  | case2 budget c high low rest hbegins ih =>
    have hhead : other.text <+: c :: code.substitute (budget + 1) (high :: low :: rest) →
        other.text <+: c :: high :: low :: rest := by
      rw [text_prefix_iff, text_prefix_iff]
      rintro ⟨hc, hopens⟩
      obtain ⟨_, tail, htail, hlow⟩ := cons_prefix_substitute hdigits.high_ne.2 hopens
      obtain ⟨_, after, rfl, -⟩ := cons_prefix_substitute hdigits.low_ne.2 hlow
      exact ⟨hc, after, htail.symm⟩
    rw [load_cons, load_cons]
    by_cases hold : other.text <+: c :: high :: low :: rest
    · have hle : (if other.text <+: c :: code.substitute (budget + 1) (high :: low :: rest)
          then 1 else 0) ≤ 1 := by split <;> omega
      rw [if_pos hold]
      omega
    · rw [if_neg hold, if_neg (mt hhead hold)]
      omega
  | case3 => exact Nat.le_refl _

/-- The codes up to that of the percent sign take their escapes back. -/
lemma foldl_substitute_of_percent {front back : List Escape}
    (hsub : front ++ percent :: back ⊆ table) (hnodup : (front ++ percent :: back).Nodup)
    (hcount : ∀ code ∈ front ++ [percent], plain.count code.char ≤ limit) :
    (front ++ [percent]).foldl (fun text code => code.substitute limit text)
      (encode (front ++ percent :: back) plain) = encode back plain := by
  induction front with
  | nil =>
    exact substitute_encode_of_percent hsub (List.nodup_cons.1 hnodup).1
      ⟨percent, List.mem_cons_self, rfl⟩ (hcount percent (by simp))
  | cons code front ih =>
    rw [List.cons_append] at hsub hnodup hcount ⊢
    obtain ⟨hnot, hrest⟩ := List.nodup_cons.1 hnodup
    rw [List.cons_append, List.foldl_cons,
      substitute_encode_of_percent hsub hnot ⟨percent, by simp, rfl⟩ (hcount code (by simp))]
    exact ih (fun other hother => hsub (List.mem_cons_of_mem _ hother)) hrest
      fun other hother => hcount other (List.mem_cons_of_mem _ hother)

/-- The codes after that take their escapes back, and are substituted in the text itself. -/
lemma foldl_substitute_encode (hsub : codes ⊆ later) (hnodup : codes.Nodup)
    (hload : ∀ code ∈ codes, code.load plain ≤ limit) :
    codes.foldl (fun text code => code.substitute limit text) (encode codes plain)
      = codes.foldl (fun text code => code.substitute limit text) plain := by
  induction codes generalizing plain with
  | nil => exact List.flatMap_singleton' plain
  | cons code codes ih =>
    obtain ⟨hnot, hrest⟩ := List.nodup_cons.1 hnodup
    obtain ⟨hcode, hcodes⟩ := List.cons_subset.1 hsub
    have htable : code :: codes ⊆ table := List.Subset.trans hsub later_sublist.subset
    have hmine : code.load plain ≤ limit := hload code List.mem_cons_self
    rw [List.foldl_cons, List.foldl_cons, substitute_encode htable hnot
      (fun other hother => ne_percent_of_mem_later (hsub hother)) hmine
      (Nat.le_trans (Nat.le_add_left _ _) hmine)]
    refine ih hcodes hrest fun other hother => ?_
    have hle : other.load (code.substitute limit plain) ≤ other.load plain :=
      load_substitute_le (later_sublist.subset hcode) (htable (List.mem_cons_of_mem _ hother))
        (fun heq => hnot (heq ▸ hother)) (ne_percent_of_mem_later hcode)
    exact Nat.le_trans hle (hload other (List.mem_cons_of_mem _ hother))

/-- The text with the codes after `%25` substituted. -/
def decodeLater (plain : Text) : Text :=
  later.foldl (fun text code => code.substitute limit text) plain

lemma length_foldl_substitute_le (codes : List Escape) (plain : Text) :
    (codes.foldl (fun text code => code.substitute limit text) plain).length ≤ plain.length := by
  induction codes generalizing plain with
  | nil => exact Nat.le_refl _
  | cons code codes ih => exact Nat.le_trans (ih _) length_substitute_le

/-- A text without the codes stays as it is. -/
lemma foldl_substitute_eq_self (h : ∀ code ∈ codes, ¬ code.text <:+: plain) :
    codes.foldl (fun text code => code.substitute limit text) plain = plain := by
  induction codes with
  | nil => rfl
  | cons code codes ih =>
    obtain ⟨hnot, hrest⟩ := List.forall_mem_cons.1 h
    rw [List.foldl_cons, substitute_eq_self hnot, ih hrest]

/-- Only a text without the codes keeps its length. -/
lemma not_infix_of_length_foldl
    (h : (codes.foldl (fun text code => code.substitute limit text) plain).length = plain.length) :
    ∀ code ∈ codes, ¬ code.text <:+: plain := by
  induction codes with
  | nil => simp
  | cons code codes ih =>
    rw [List.foldl_cons] at h
    have hle := length_foldl_substitute_le codes (code.substitute limit plain)
    have hle' : (code.substitute limit plain).length ≤ plain.length := length_substitute_le
    have hnot : ¬ code.text <:+: plain :=
      not_infix_of_length_eq (Nat.le_antisymm hle' (h ▸ hle))
    rw [substitute_eq_self hnot] at h
    exact List.forall_mem_cons.2 ⟨hnot, ih h⟩

lemma decodeLater_eq_self_iff :
    decodeLater plain = plain ↔ ∀ code ∈ later, ¬ code.text <:+: plain :=
  ⟨fun h => not_infix_of_length_foldl (congrArg List.length h), foldl_substitute_eq_self⟩

lemma occurrences_eq_zero (h : ¬ code.text <:+: plain) : code.occurrences plain = 0 := by
  induction plain with
  | nil => rfl
  | cons c rest ih =>
    rw [List.infix_cons_iff, not_or] at h
    rw [occurrences, if_neg h.1, ih h.2]

lemma decode_encode_eq (hcount : ∀ code ∈ table, plain.count code.char ≤ limit)
    (hload : ∀ code ∈ later, code.load plain ≤ limit) :
    decode (encode table plain) = decodeLater plain := by
  have htable : table = table.take 4 ++ percent :: later := by decide
  have hfront : (table.take 4 ++ [percent]).foldl (fun text code => code.substitute limit text)
      (encode (table.take 4 ++ percent :: later) plain) = encode later plain := by
    refine foldl_substitute_of_percent (htable ▸ List.Subset.refl _) (by decide)
      fun code hmem => hcount code ?_
    rw [htable]
    simp only [List.mem_append, List.mem_cons, List.not_mem_nil, or_false] at hmem ⊢
    exact hmem.imp_right .inl
  calc decode (encode table plain)
      _ = (table.take 4 ++ percent :: later).foldl (fun text code => code.substitute limit text)
          (encode (table.take 4 ++ percent :: later) plain) := by rw [← htable, decode]
      _ = later.foldl (fun text code => code.substitute limit text) (encode later plain) := by
        rw [List.append_cons, List.foldl_append, ← List.append_cons, hfront]
      _ = decodeLater plain :=
        foldl_substitute_encode (List.Subset.refl _) (by decide) hload

/-- **Escaping is undone by decoding** in a text that holds each reserved character at most `limit`
times, if none of the codes after `%25` stands in it.  Such a code is decoded once more, so these
are the only texts in which escaping is undone, unless the limit stops a substitution.  A text that
is itself a code comes back when the code is not substituted after `%25`, and otherwise its
character comes back. -/
theorem decode_encode (hcount : ∀ code ∈ table, plain.count code.char ≤ limit) :
    ((∀ code ∈ later, ¬ code.text <:+: plain) → decode (encode table plain) = plain) ∧
      ((∀ code ∈ later, code.load plain ≤ limit) →
        decode (encode table plain) = decodeLater plain ∧
          (decode (encode table plain) = plain ↔ ∀ code ∈ later, ¬ code.text <:+: plain)) ∧
      ∀ code ∈ table,
        decode (encode table code.text) = if code ∈ later then [code.char] else code.text := by
  refine ⟨fun hnot => ?_, fun hload => ?_, by decide⟩
  · have hload : ∀ code ∈ later, code.load plain ≤ limit := fun code hcode => by
      rw [load, occurrences_eq_zero (hnot code hcode)]
      exact hcount code (later_sublist.subset hcode)
    rw [decode_encode_eq hcount hload, decodeLater_eq_self_iff.2 hnot]
  · rw [decode_encode_eq hcount hload]
    exact ⟨rfl, decodeLater_eq_self_iff⟩

/-- A text with a code that stands before `%25` in the table, and with percent signs that begin
none. -/
def discount : Text := "50%20 off? 100%&c=%2f".toList

theorem decode_encode_discount :
    (∀ code ∈ table, discount.count code.char ≤ limit) ∧
      (∀ code ∈ later, ¬ code.text <:+: discount) ∧
      decode (encode table discount) = discount := by
  have hcount : ∀ code ∈ table, discount.count code.char ≤ limit := by decide +kernel
  have hlater : ∀ code ∈ later, ¬ code.text <:+: discount := by decide +kernel
  exact ⟨hcount, hlater, (decode_encode hcount).1 hlater⟩

/-- Escaping is not undone in every text: the code of a question mark is decoded twice. -/
theorem decode_encode_ne_question :
    ¬ ∀ plain : Text, (∀ c ∈ plain, c.toNat < 128) →
      (∀ code ∈ table, plain.count code.char ≤ limit) → decode (encode table plain) = plain := by
  intro h
  have hdecoded : decode (encode table "%3F".toList) = "?".toList := by decide +kernel
  have hsame := h "%3F".toList (by simp) (by decide +kernel)
  rw [hdecoded] at hsame
  exact absurd hsame (by decide +kernel)

end SiteServer.Escape
