import Mathlib.Data.List.Basic
import SiteServer.Storage.Path

/-!
# Names joined onto a path

A name is a component that leads one step down: it is not empty, holds no slash, and is none of the
two dot components.  Names never make a path absolute, so a list of them that is joined onto a path
leaves the path's own text in front, and its components are the components of the path followed by
the names (`components_joinAll`).  The same holds of what is left when every `..` has been resolved
by the text alone (`lexical_joinAll`).
-/

namespace SiteServer

namespace Text

variable {α : Type} [DecidableEq α]

/-- A separator in the middle cuts a list into the pieces before it and those behind it. -/
lemma pieces_append_sep (sep : α) (before after : List α) :
    pieces sep (before ++ sep :: after) = pieces sep before ++ pieces sep after := by
  induction before with
  | nil => simp [pieces]
  | cons c rest ih =>
    simp only [List.cons_append, pieces, ih]
    by_cases hc : c = sep
    · simp [hc]
    · rcases hp : pieces sep rest with _ | ⟨piece, more⟩
      · exact absurd hp (pieces_ne_nil sep rest)
      · simp [hc]

/-- A list without separators is a single piece. -/
lemma pieces_of_not_mem {sep : α} {list : List α} (h : sep ∉ list) : pieces sep list = [list] := by
  induction list with
  | nil => rfl
  | cons c rest ih =>
    have hc : c ≠ sep := Ne.symm (List.ne_of_not_mem_cons h)
    simp [pieces, hc, ih (List.not_mem_of_not_mem_cons h)]

/-- Pieces that have been put together come apart again. -/
lemma pieces_intercalate {sep : α} {parts : List (List α)} (hne : parts ≠ [])
    (h : ∀ part ∈ parts, sep ∉ part) : pieces sep ([sep].intercalate parts) = parts := by
  induction parts with
  | nil => exact absurd rfl hne
  | cons part more ih =>
    have hpart := pieces_of_not_mem (h part List.mem_cons_self)
    rcases more with _ | ⟨next, more⟩
    · simpa [List.intercalate] using hpart
    · rw [List.intercalate_cons_cons, List.append_assoc, List.singleton_append, pieces_append_sep,
        hpart, ih (by simp) fun part hmem => h part (List.mem_cons_of_mem _ hmem)]
      rfl

end Text

namespace Path

namespace IsName

variable {name : Text}

lemma not_isAbsolute (h : IsName name) : isAbsolute name = false := by
  rcases name with _ | ⟨c, rest⟩
  · exact absurd rfl h.ne_nil
  · have hc : c ≠ '/' := fun heq => h.slash_not_mem (by simp [heq])
    simp [isAbsolute, hc]

/-- What follows a name in a path is separated from it. -/
lemma getLast?_ne_slash (h : IsName name) : name.getLast? ≠ some '/' :=
  fun heq => h.slash_not_mem (List.mem_of_getLast? heq)

lemma getLast?_append_ne_slash (h : IsName name) (base : Text) :
    (base ++ name).getLast? ≠ some '/' := by
  rw [List.getLast?_append_of_ne_nil base h.ne_nil]
  exact h.getLast?_ne_slash

end IsName

/-- What stands between a path and a name that is joined onto it. -/
def gap (base : Text) : Text :=
  if base = [] ∨ base.getLast? = some '/' then [] else ['/']

lemma gap_of_append_name {name : Text} (h : IsName name) (base : Text) :
    gap (base ++ name) = ['/'] := by
  have hne : base ++ name ≠ [] := fun heq => h.ne_nil (List.append_eq_nil_iff.1 heq).2
  rw [gap, if_neg (not_or.2 ⟨hne, h.getLast?_append_ne_slash base⟩)]

/-- Joining a name replaces nothing. -/
lemma join_name {name : Text} (h : IsName name) (base : Text) :
    join base name = base ++ gap base ++ name := by
  simp only [join, gap, h.not_isAbsolute, Bool.false_eq_true, if_false]
  split <;> simp

/-- The text of a path with names joined onto it: the path, a slash where one is missing, and the
names with slashes between them. -/
theorem joinAll_names {names : List Text} (h : ∀ name ∈ names, IsName name) (base : Text) :
    joinAll base names
      = base ++ (if names = [] then [] else gap base) ++ ['/'].intercalate names := by
  induction names generalizing base with
  | nil => simp [List.intercalate]
  | cons name rest ih =>
    have hname : IsName name := h name (by simp)
    have hrest : ∀ n ∈ rest, IsName n := fun n hn => h n (List.mem_cons_of_mem _ hn)
    have hstep : joinAll base (name :: rest) = joinAll (join base name) rest := rfl
    rw [hstep, join_name hname, ih hrest]
    rcases rest with _ | ⟨next, more⟩
    · simp [List.intercalate]
    · rw [gap_of_append_name hname, List.intercalate_cons_cons]
      simp

/-- A name joined onto a path does not change where the path starts. -/
lemma isAbsolute_join {name : Text} (h : IsName name) (base : Text) :
    isAbsolute (join base name) = isAbsolute base := by
  rw [join_name h]
  rcases base with _ | ⟨c, rest⟩
  · exact h.not_isAbsolute
  · simp [isAbsolute]

lemma isAbsolute_joinAll {names : List Text} (h : ∀ name ∈ names, IsName name) (base : Text) :
    isAbsolute (joinAll base names) = isAbsolute base := by
  induction names generalizing base with
  | nil => rfl
  | cons name rest ih =>
    calc isAbsolute (joinAll base (name :: rest))
        = isAbsolute (joinAll (join base name) rest) := rfl
      _ = isAbsolute (join base name) := ih (fun n hn => h n (List.mem_cons_of_mem _ hn)) _
      _ = isAbsolute base := isAbsolute_join (h name (by simp)) base

/-! ### Components -/

/-- Behind a slash every part counts that is neither empty nor a single dot. -/
lemma components_slash (text : Text) :
    components ('/' :: text)
      = (Text.pieces '/' text).filter fun part => part ≠ [] ∧ part ≠ here := by
  simp [components, Text.pieces, here]

/-- A slash in the middle of a path parts its components. -/
lemma components_append (base text : Text) :
    components (base ++ '/' :: text) = components base ++ components ('/' :: text) := by
  rw [components_slash]
  rcases hhead : (Text.pieces '/' base).head? with _ | first
  · exact absurd (List.head?_eq_none_iff.1 hhead) (Text.pieces_ne_nil '/' base)
  · simp only [components, Text.pieces_append_sep, List.filter_append, List.head?_append, hhead,
      Option.some_or]
    split <;> rfl

/-- A slash and a name behind a path are one more component. -/
lemma components_append_slash {name : Text} (h : IsName name) (base : Text) :
    components (base ++ '/' :: name) = components base ++ [name] := by
  rw [components_append, components_slash, Text.pieces_of_not_mem h.slash_not_mem]
  simp [h.ne_nil, h.ne_here]

/-- A slash at the end of a path is no component. -/
lemma components_append_slash_nil (base : Text) : components (base ++ ['/']) = components base := by
  rw [components_append, components_slash]
  simp [Text.pieces]

lemma components_name {name : Text} (h : IsName name) : components name = [name] := by
  simp [components, Text.pieces_of_not_mem h.slash_not_mem, h.ne_nil, h.ne_here]

/-- A name joined onto a path is its last component. -/
lemma components_join {name : Text} (h : IsName name) (base : Text) :
    components (join base name) = components base ++ [name] := by
  rw [join_name h]
  rcases base.eq_nil_or_concat' with rfl | ⟨front, c, rfl⟩
  · exact components_name h
  · by_cases hc : c = '/'
    · subst hc
      have hgap : gap (front ++ ['/']) = [] := by simp [gap]
      rw [components_append_slash_nil, hgap, List.append_nil, List.append_assoc,
        List.singleton_append, components_append_slash h]
    · have hgap : gap (front ++ [c]) = ['/'] := by simp [gap, hc]
      rw [hgap, List.append_assoc, List.singleton_append, components_append_slash h]

theorem components_joinAll {names : List Text} (h : ∀ name ∈ names, IsName name) (base : Text) :
    components (joinAll base names) = components base ++ names := by
  induction names generalizing base with
  | nil => simp
  | cons name rest ih =>
    have hname : IsName name := h name (by simp)
    calc components (joinAll base (name :: rest))
        = components (joinAll (join base name) rest) := rfl
      _ = components (join base name) ++ rest := ih (fun n hn => h n (List.mem_cons_of_mem _ hn)) _
      _ = components base ++ name :: rest := by simp [components_join hname]

/-- Two texts that are equal as paths: both start at the top of the file system or both do not, and
their components are the same, whatever slashes stand between them. -/
structure Same (a b : Text) : Prop where
  isAbsolute : isAbsolute a = isAbsolute b
  components : components a = components b

lemma Same.refl (a : Text) : Same a a := ⟨rfl, rfl⟩

/-- Paths with names joined onto them are equal only when the names are. -/
lemma same_joinAll_iff {names names' : List Text} (h : ∀ name ∈ names, IsName name)
    (h' : ∀ name ∈ names', IsName name) (base : Text) :
    Same (joinAll base names) (joinAll base names') ↔ names = names' := by
  constructor
  · intro hsame
    have hcomponents := hsame.components
    rwa [components_joinAll h, components_joinAll h', List.append_cancel_left_eq] at hcomponents
  · rintro rfl
    exact .refl _

lemma joinAll_inj {names names' : List Text} (h : ∀ name ∈ names, IsName name)
    (h' : ∀ name ∈ names', IsName name) (base : Text) :
    joinAll base names = joinAll base names' ↔ names = names' :=
  ⟨fun heq => (same_joinAll_iff h h' base).1 (heq ▸ .refl _), fun heq => heq ▸ rfl⟩

/-! ### Resolving a path by its text -/

/-- The names kept after one more component, the last one in front.  A `..` takes the name before it
away; at the top of the file system it changes nothing, and a relative path keeps those that lead
above the directory it starts in. -/
def climb (absolute : Bool) (kept : List Text) (part : Text) : List Text :=
  if part = here then kept
  else if part = above then
    match kept with
    | [] => if absolute then [] else [above]
    | last :: rest => if last = above then above :: kept else rest
  else part :: kept

/-- Where a path leads as far as its text tells. -/
def lexical (path : Text) : List Text :=
  ((components path).foldl (climb (isAbsolute path)) []).reverse

lemma foldl_climb_names {names : List Text} (h : ∀ name ∈ names, IsName name) (absolute : Bool)
    (kept : List Text) : names.foldl (climb absolute) kept = names.reverse ++ kept := by
  induction names generalizing kept with
  | nil => rfl
  | cons name rest ih =>
    have hname : IsName name := h name (by simp)
    have hclimb : climb absolute kept name = name :: kept := by
      simp [climb, hname.ne_here, hname.ne_above]
    rw [List.foldl_cons, hclimb, ih fun n hn => h n (List.mem_cons_of_mem _ hn)]
    simp

/-- Names lead down from where the path leads. -/
theorem lexical_joinAll {names : List Text} (h : ∀ name ∈ names, IsName name) (base : Text) :
    lexical (joinAll base names) = lexical base ++ names := by
  simp only [lexical, components_joinAll h, isAbsolute_joinAll h, List.foldl_append,
    foldl_climb_names h, List.reverse_append, List.reverse_reverse]

end Path

end SiteServer
