import Mathlib.Data.List.Induction
import SiteServer.Proofs.Paths.Joining
import SiteServer.Site.Target

/-!
# Contained paths stay below the root

Under the contained policy a requested path is read piece by piece.  `Keeps` says what reading does,
one rule for each kind of piece, and `segments` computes the only list of names that the rules allow
(`keeps_iff`).  What is kept are names, so joining them onto the document root appends to its text
and leads down from it, whatever root it is and whatever was requested (`filePath_contained`).
-/

namespace SiteServer.Target

/-- Reading the pieces of a requested path from left to right keeps these names. -/
inductive Keeps : List Text → List Text → Prop where
  | start : Keeps [] []
  /-- An empty piece and a single dot say nothing. -/
  | skip {parts kept : List Text} {part : Text} :
      Keeps parts kept → part = [] ∨ part = Path.here → Keeps (parts ++ [part]) kept
  /-- Two dots take the last name away. -/
  | climb {parts kept : List Text} {last : Text} :
      Keeps parts (kept ++ [last]) → Keeps (parts ++ [Path.above]) kept
  /-- Two dots at the top change nothing. -/
  | top {parts : List Text} : Keeps parts [] → Keeps (parts ++ [Path.above]) []
  | keep {parts kept : List Text} {part : Text} :
      Keeps parts kept → part ≠ [] → part ≠ Path.here → part ≠ Path.above →
      Keeps (parts ++ [part]) (kept ++ [part])

lemma step_above (kept : List Text) : step kept Path.above = kept.tail := by
  simp [step, Path.above, Path.here]

lemma step_of_name {part : Text} (hnil : part ≠ []) (hhere : part ≠ Path.here)
    (habove : part ≠ Path.above) (kept : List Text) : step kept part = part :: kept := by
  simp [step, hnil, hhere, habove]

/-- The names that a list of pieces keeps, in their order. -/
def resolved (parts : List Text) : List Text :=
  (parts.foldl step []).reverse

lemma resolved_append (parts : List Text) (part : Text) :
    resolved (parts ++ [part]) = (step (resolved parts).reverse part).reverse := by
  simp [resolved]

/-- The rules keep what the recursion computes. -/
lemma Keeps.eq_resolved {parts kept : List Text} (h : Keeps parts kept) :
    kept = resolved parts := by
  induction h with
  | start => rfl
  | skip _ hpart ih => rw [resolved_append, ← ih, step, if_pos hpart, List.reverse_reverse]
  | climb _ ih => simp [resolved_append, ← ih, step_above]
  | top _ ih => simp [resolved_append, ← ih, step_above]
  | keep _ hnil hhere habove ih =>
    rw [resolved_append, ← ih, step_of_name hnil hhere habove, List.reverse_cons,
      List.reverse_reverse]

/-- Whatever the pieces are, some rule reads the next one. -/
lemma keeps_resolved (parts : List Text) : Keeps parts (resolved parts) := by
  induction parts using List.reverseRecOn with
  | nil => exact .start
  | append_singleton parts part ih =>
    rw [resolved_append]
    by_cases hskip : part = [] ∨ part = Path.here
    · rw [step, if_pos hskip, List.reverse_reverse]
      exact .skip ih hskip
    · obtain ⟨hnil, hhere⟩ := not_or.1 hskip
      by_cases habove : part = Path.above
      · subst habove
        rw [step_above]
        rcases (resolved parts).eq_nil_or_concat' with heq | ⟨front, last, heq⟩
        · rw [heq] at ih ⊢
          exact .top ih
        · rw [heq] at ih ⊢
          simpa using Keeps.climb ih
      · rw [step_of_name hnil hhere habove, List.reverse_cons, List.reverse_reverse]
        exact .keep ih hnil hhere habove

/-- The segments of a requested path are the one list of names that its pieces keep. -/
theorem keeps_iff {requested : Text} {kept : List Text} :
    Keeps (Text.pieces '/' requested) kept ↔ kept = segments requested :=
  ⟨Keeps.eq_resolved, fun h => h ▸ keeps_resolved _⟩

lemma isName_of_mem_segments {requested segment : Text} (h : segment ∈ segments requested) :
    Path.IsName segment :=
  let ⟨hnil, hhere, habove, hslash⟩ := mem_segments h
  ⟨hnil, hslash, hhere, habove⟩

/-- **Containment.**  The file path of a request is the document root with names joined onto it: its
text is the root's text, a slash where one is missing, and the names; its components are those of
the root and then the names; and it leads where the root leads and then down along the names. -/
theorem filePath_contained (root requested : Text) :
    ∃ names : List Text,
      (∀ kept, Keeps (Text.pieces '/' requested) kept ↔ kept = names) ∧
      (∀ name ∈ names, name ≠ [] ∧ '/' ∉ name ∧ name ≠ Path.here ∧ name ≠ Path.above) ∧
      filePath .contained root requested = Path.joinAll root names ∧
      filePath .contained root requested
        = root ++ (if names = [] ∨ root = [] ∨ root.getLast? = some '/' then [] else ['/'])
          ++ ['/'].intercalate names ∧
      Path.isAbsolute (filePath .contained root requested) = Path.isAbsolute root ∧
      Path.components (filePath .contained root requested) = Path.components root ++ names ∧
      Path.lexical (filePath .contained root requested) = Path.lexical root ++ names := by
  have hnames : ∀ name ∈ segments requested, Path.IsName name :=
    fun name hname => isName_of_mem_segments hname
  refine ⟨segments requested, fun kept => keeps_iff, ?_, rfl, ?_,
    Path.isAbsolute_joinAll hnames root, Path.components_joinAll hnames root,
    Path.lexical_joinAll hnames root⟩
  · intro name hname
    have h := hnames name hname
    exact ⟨h.ne_nil, h.slash_not_mem, h.ne_here, h.ne_above⟩
  · have htext : filePath .contained root requested = Path.joinAll root (segments requested) := rfl
    rw [htext, Path.joinAll_names hnames]
    by_cases hnil : segments requested = [] <;> simp [hnil, Path.gap]

example :
    filePath .contained "/srv/".toList "/a/.././b//../../c/./d".toList = "/srv/c/d".toList := by
  decide

end SiteServer.Target
