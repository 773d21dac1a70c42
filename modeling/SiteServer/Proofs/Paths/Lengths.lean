import SiteServer.Proofs.Paths.Routes

/-!
# How long a request has to be

Reading a request only takes away: what is kept of some parts, counted with a slash for each, is no
longer than the parts (`weight_foldl_step_le`).  So a request is at least as long as the route of
what it comes to (`weight_segments_le`), and what comes to a name behind the same place is at least
as long as the name (`length_le_of_segments`).
-/

namespace SiteServer.Target

open SiteServer.Path (IsName)

variable {front back name : Text} {parts : List Text}

/-- The characters of some parts, with a slash for each. -/
def weight : List Text → Nat
  | [] => 0
  | part :: parts => part.length + 1 + weight parts

@[simp] lemma weight_nil : weight [] = 0 := rfl

@[simp] lemma weight_cons (part : Text) (parts : List Text) :
    weight (part :: parts) = part.length + 1 + weight parts := rfl

lemma weight_append (parts others : List Text) :
    weight (parts ++ others) = weight parts + weight others := by
  induction parts with
  | nil => simp
  | cons part parts ih =>
    rw [List.cons_append, weight_cons, weight_cons, ih]
    omega

lemma weight_reverse (parts : List Text) : weight parts.reverse = weight parts := by
  induction parts with
  | nil => rfl
  | cons part parts ih =>
    rw [List.reverse_cons, weight_append, weight_cons, weight_cons, weight_nil, ih]
    omega

lemma weight_pieces (path : Text) : weight (Text.pieces '/' path) = path.length + 1 := by
  induction path with
  | nil => rfl
  | cons c rest ih =>
    rw [Text.pieces]
    split
    · rw [weight_cons, ih, List.length_cons, List.length_nil]
      omega
    · split
      · next hnil => exact absurd hnil (Text.pieces_ne_nil '/' rest)
      · next piece more hmore =>
        rw [hmore, weight_cons] at ih
        rw [weight_cons, List.length_cons, List.length_cons]
        omega

/-- One more part adds no more than its own length. -/
lemma weight_step_le (kept : List Text) (part : Text) :
    weight (step kept part) ≤ weight kept + (part.length + 1) := by
  unfold step
  split
  · omega
  split
  · rcases kept with _ | ⟨last, kept⟩
    · exact Nat.zero_le _
    · rw [List.tail_cons, weight_cons]
      omega
  · rw [weight_cons]
    omega

/-- What is kept of some parts is no longer than they are. -/
lemma weight_foldl_step_le (parts kept : List Text) :
    weight (parts.foldl step kept) ≤ weight kept + weight parts := by
  induction parts generalizing kept with
  | nil => exact Nat.le_refl _
  | cons part rest ih =>
    have hstep := weight_step_le kept part
    have hrest := ih (step kept part)
    rw [List.foldl_cons, weight_cons]
    omega

/-- A request is read on behind a slash. -/
lemma segments_append (front back : Text) : segments (front ++ '/' :: back) =
    ((Text.pieces '/' back).foldl step (segments front).reverse).reverse := by
  simp only [segments, Text.pieces_append_sep, List.foldl_append, List.reverse_reverse]

/-- A name behind a slash is one more segment. -/
lemma segments_append_name (hname : IsName name) (front : Text) :
    segments (front ++ '/' :: name) = segments front ++ [name] := by
  rw [segments_append, Text.pieces_of_not_mem hname.slash_not_mem, List.foldl_cons, List.foldl_nil,
    step_of_name hname.ne_nil hname.ne_here hname.ne_above, List.reverse_cons, List.reverse_reverse]

/-- What comes to a name behind the same place is at least as long as the name. -/
lemma length_le_of_segments (h : segments (front ++ '/' :: back) = segments front ++ [name]) :
    name.length ≤ back.length := by
  have hle := weight_foldl_step_le (Text.pieces '/' back) (segments front).reverse
  rw [segments_append] at h
  rw [List.reverse_eq_iff.1 h, weight_reverse, weight_reverse, weight_append, weight_pieces,
    weight_cons, weight_nil] at hle
  omega

/-- A path is at least as long as the route of what it comes to. -/
lemma weight_segments_le (path : Text) : weight (segments ('/' :: path)) ≤ path.length + 1 := by
  have hle := weight_foldl_step_le (Text.pieces '/' path) []
  have hpath : segments ('/' :: path) = ((Text.pieces '/' path).foldl step []).reverse :=
    segments_append [] path
  rwa [hpath, weight_reverse, ← weight_pieces, ← Nat.zero_add (weight (Text.pieces '/' path))]

lemma length_fileRoute (hne : parts ≠ []) (h : ∀ part ∈ parts, IsName part) :
    (fileRoute parts).length = weight parts := by
  have hpieces := weight_pieces (fileRoute parts)
  rw [pieces_fileRoute hne h, weight_cons, List.length_nil] at hpieces
  omega

/-- Slashes at the end of a request change nothing in what it resolves to. -/
lemma segments_append_slashes (requested : Text) (count : Nat) :
    segments (requested ++ List.replicate count '/') = segments requested := by
  induction count with
  | zero => rw [List.replicate_zero, List.append_nil]
  | succ count ih => rw [List.replicate_succ', ← List.append_assoc, segments_append_slash, ih]

end SiteServer.Target
