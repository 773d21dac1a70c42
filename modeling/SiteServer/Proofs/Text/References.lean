import SiteServer.Proofs.Text.ReadBack
import SiteServer.Text.Markup

/-!
# Reading escaped text

The four references of an escaped text are replaced by their characters from left to right.  An
ampersand of the text is escaped itself, so what stands in the text like a reference comes back as
it was (`unescape_escape`).  Nothing in an escaped text opens or closes a tag or ends a quoted
attribute, nor does anything in a plain text, which may stand in markup as it is.
-/

namespace SiteServer.Markup

variable {c : Char} {text a b : Text}

/-- The text that is written by an escaped one. -/
def unescape : Text → Text
  | '&' :: 'a' :: 'm' :: 'p' :: ';' :: rest => '&' :: unescape rest
  | '&' :: 'l' :: 't' :: ';' :: rest => '<' :: unescape rest
  | '&' :: 'g' :: 't' :: ';' :: rest => '>' :: unescape rest
  | '&' :: 'q' :: 'u' :: 'o' :: 't' :: ';' :: rest => '"' :: unescape rest
  | c :: rest => c :: unescape rest
  | [] => []

lemma unescape_reference_append (c : Char) (rest : Text) :
    unescape (reference c ++ rest) = c :: unescape rest := by
  unfold reference
  split
  · subst c
    rfl
  split
  · subst c
    rfl
  split
  · subst c
    rfl
  split
  · subst c
    rfl
  · next hampersand _ _ _ =>
    rw [List.singleton_append, unescape] <;> simp [hampersand]

/-- **Escaping is undone**, whatever the text holds. -/
theorem unescape_escape (text : Text) : unescape (escape text) = text := by
  induction text with
  | nil => rfl
  | cons c rest ih => rw [escape_cons, unescape_reference_append, ih]

/-- The characters that tags and quoted attributes are made of. -/
def marks : Text := ['<', '>', '"']

/-- The text opens and closes no tag and no attribute. -/
def Unmarked (text : Text) : Prop :=
  ∀ c ∈ text, c ∉ marks

lemma unmarked_escape (text : Text) : Unmarked (escape text) := by
  -- A reference is written without the marks; any other character stands for itself.
  have href : ∀ d, ∀ c ∈ marks, c ∉ reference d := by
    intro d c hmark
    simp only [marks, List.mem_cons, List.not_mem_nil, or_false] at hmark
    unfold reference
    repeat' split
    all_goals rcases hmark with rfl | rfl | rfl <;> simp_all [eq_comm]
  intro c hmem hmark
  obtain ⟨d, -, hd⟩ := List.mem_flatMap.1 hmem
  exact href d c hmark hd

lemma Unmarked.filter_marks (h : Unmarked text) : text.filter (· ∈ marks) = [] :=
  List.filter_eq_nil_iff.2 fun c hmem => by simpa using h c hmem

/-- The text may stand in markup as it is. -/
def IsPlain (text : Text) : Prop :=
  ∀ c ∈ text, c ∉ '&' :: marks

instance (text : Text) : Decidable (IsPlain text) :=
  decidable_of_iff (text.all (fun c => decide (c ∉ '&' :: marks)) = true)
    ⟨Text.forall_of_all, fun h => List.all_eq_true.2 fun c hmem => decide_eq_true (h c hmem)⟩

lemma IsPlain.append (ha : IsPlain a) (hb : IsPlain b) : IsPlain (a ++ b) :=
  List.forall_mem_append.2 ⟨ha, hb⟩

lemma IsPlain.cons (h : IsPlain text) (hc : c ∉ '&' :: marks) : IsPlain (c :: text) :=
  List.forall_mem_cons.2 ⟨hc, h⟩

lemma IsPlain.append_cons (ha : IsPlain a) (hc : c ∉ '&' :: marks) (hb : IsPlain b) :
    IsPlain (a ++ c :: b) :=
  ha.append (hb.cons hc)

lemma IsPlain.unmarked (h : IsPlain text) : Unmarked text :=
  fun c hmem => List.not_mem_of_not_mem_cons (h c hmem)

/-- The decimal digits are among the characters that mean nothing in markup. -/
lemma isPlain_of_digits (h : ∀ c ∈ text, c.isDigit = true) : IsPlain text := by
  have hnone : ∀ c ∈ '&' :: marks, c.isDigit = false := Text.forall_of_all (by decide)
  intro c hmem hspecial
  exact absurd (h c hmem) (by simp [hnone c hspecial])

/-! ### Fields -/

/-- What stands before the next mark, and what follows the tag that has to begin there. -/
def fieldTo? (tag page : Text) : Option (Text × Text) :=
  ((page.dropWhile (· ∉ marks)).dropPrefix? tag).map (page.takeWhile (· ∉ marks), ·)

/-- A field without marks is read up to the tag behind it. -/
lemma fieldTo?_append {tag field : Text} (htag : tag.head?.any (· ∈ marks) = true)
    (hfield : Unmarked field) (rest : Text) :
    fieldTo? tag (field ++ (tag ++ rest)) = some (field, rest) := by
  obtain ⟨c, hhead, hmark⟩ := (Option.any_eq_true _ _).1 htag
  obtain ⟨tag, rfl⟩ := List.head?_eq_some_iff.1 hhead
  have hall : ∀ c ∈ field, decide (c ∉ marks) = true := fun c hmem =>
    decide_eq_true (hfield c hmem)
  rw [fieldTo?, List.dropWhile_append_of_pos hall, List.takeWhile_append_of_pos hall,
    List.cons_append, List.dropWhile_cons_of_neg (by simpa using hmark),
    List.takeWhile_cons_of_neg (by simpa using hmark), ← List.cons_append,
    List.dropPrefix?_append_of_beq _ BEq.rfl, List.append_nil]
  rfl

lemma length_fieldTo? {tag page field rest : Text} (h : fieldTo? tag page = some (field, rest)) :
    rest.length ≤ page.length := by
  obtain ⟨rest, hdrop, heq⟩ := Option.map_eq_some_iff.1 h
  cases heq
  obtain ⟨front, hfront, -⟩ := List.dropPrefix?_eq_some_iff.1 hdrop
  have hlength := (List.dropWhile_sublist (decide <| · ∉ marks) (l := page)).length_le
  rw [hfront, List.length_append] at hlength
  omega

end SiteServer.Markup
