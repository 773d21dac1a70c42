import SiteServer.Storage.Path

/-!
# Requested paths

What a requested path means below the document root.  Under the contained policy it is read segment
by segment and never leaves the root; under the compatible policy its text is condensed from left to
right and put behind the root's text.  Each policy gives two forms of one request: the file path and
the route, which is the same path as seen from the root.
-/

namespace SiteServer

/-- How the segments `.` and `..` of a requested path are treated. -/
inductive Policy where
  /-- The text is condensed: `./` and `../` are dropped, `//` is one slash, `%20` is a space. -/
  | compatible
  /-- The segments are resolved: `..` takes the segment before it away, and nothing at the top. -/
  | contained
  deriving DecidableEq, Repr

namespace Target

/-- The kept segments after one more part of the requested path, the last one in front. -/
def step (kept : List Text) (part : Text) : List Text :=
  if part = [] ∨ part = Path.here then kept
  else if part = Path.above then kept.tail
  else part :: kept

/-- The segments that a requested path resolves to. -/
def segments (requested : Text) : List Text :=
  ((Text.pieces '/' requested).foldl step []).reverse

/-- The text of a requested path condensed from left to right. -/
def condense : Text → Text
  | '.' :: '/' :: rest => condense rest
  | '.' :: '.' :: '/' :: rest => condense rest
  | '%' :: '2' :: '0' :: rest => ' ' :: condense rest
  | '/' :: '/' :: rest => '/' :: condense rest
  | c :: rest => c :: condense rest
  | [] => []

/-- The file path that a requested path names. -/
def filePath (policy : Policy) (root requested : Text) : Text :=
  match policy with
  | .contained => Path.joinAll root (segments requested)
  | .compatible => root ++ condense requested

/-- The route of a requested path: its file path as seen from the root. -/
def route (policy : Policy) (requested : Text) : Text :=
  match policy with
  | .contained =>
    let kept := segments requested
    let tail := if kept ≠ [] ∧ requested.getLast? = some '/' then ['/'] else []
    '/' :: ['/'].intercalate kept ++ tail
  | .compatible => condense requested

/-- A segment that is kept names an entry of the directory it is looked up in. -/
theorem mem_segments {requested segment : Text} (h : segment ∈ segments requested) :
    segment ≠ [] ∧ segment ≠ Path.here ∧ segment ≠ Path.above ∧ '/' ∉ segment := by
  suffices key : ∀ (parts kept : List Text),
      (∀ p ∈ parts, '/' ∉ p) →
      (∀ s ∈ kept, s ≠ [] ∧ s ≠ Path.here ∧ s ≠ Path.above ∧ '/' ∉ s) →
      ∀ s ∈ parts.foldl step kept, s ≠ [] ∧ s ≠ Path.here ∧ s ≠ Path.above ∧ '/' ∉ s by
    refine key (Text.pieces '/' requested) [] (fun p hp => Text.not_mem_of_mem_pieces hp)
      (by simp) segment ?_
    simpa [segments] using h
  intro parts
  induction parts with
  | nil => intro kept _ hk; simpa using hk
  | cons part rest ih =>
    intro kept hp hk
    refine ih (step kept part) (fun p hm => hp p (by simp [hm])) ?_
    intro s hs
    simp only [step] at hs
    split at hs
    · exact hk s hs
    · next h1 =>
      split at hs
      · exact hk s (List.mem_of_mem_tail hs)
      · next h2 =>
        rcases List.mem_cons.1 hs with rfl | hs
        · exact ⟨fun h => h1 (.inl h), fun h => h1 (.inr h), h2, hp _ (by simp)⟩
        · exact hk s hs

end Target

end SiteServer
