import SiteServer.Proofs.Paths.Containment

/-!
# Routes of contained paths

Under the contained policy the route of a request is made from the segments that it resolves to, and
they can be read off it again (`segments_route`): a route is a request for the same place, and it is
its own route.  So two requests name the same file, below whatever root, exactly when their routes
differ at most in a slash at the end (`alike_route_iff`).
-/

namespace SiteServer.Target

/-- The route that names the file to which names lead down from the root. -/
def fileRoute (names : List Text) : Text :=
  '/' :: ['/'].intercalate names

/-- The route of the same place with a slash at its end. -/
def dirRoute (names : List Text) : Text :=
  if names = [] then ['/'] else fileRoute names ++ ['/']

variable {requested other : Text} {names : List Text}

lemma dirRoute_of_ne_nil (h : names ≠ []) :
    dirRoute names = fileRoute names ++ ['/'] :=
  if_neg h

/-- A request that ends in a slash is routed as a directory. -/
lemma route_of_slash (h : requested.getLast? = some '/') :
    route .contained requested = dirRoute (segments requested) := by
  by_cases hnil : segments requested = []
  · simp [route, dirRoute, hnil, List.intercalate]
  · simp [route, dirRoute, fileRoute, hnil, h]

lemma route_of_no_slash (h : segments requested = [] ∨ requested.getLast? ≠ some '/') :
    route .contained requested = fileRoute (segments requested) := by
  have htail : ¬ (segments requested ≠ [] ∧ requested.getLast? = some '/') :=
    fun ⟨hne, hlast⟩ => h.elim hne fun hother => hother hlast
  simp only [route, fileRoute, if_neg htail, List.append_nil]

lemma intercalate_concat (hne : names ≠ []) (last : Text) :
    ['/'].intercalate (names ++ [last]) = ['/'].intercalate names ++ '/' :: last := by
  induction names with
  | nil => exact absurd rfl hne
  | cons name rest ih =>
    rcases rest with _ | ⟨next, more⟩
    · simp [List.intercalate]
    · rw [List.cons_append, List.cons_append, List.intercalate_cons_cons,
        List.intercalate_cons_cons, ← List.cons_append, ih (by simp)]
      simp

/-- A name in a directory follows the route of the directory. -/
lemma fileRoute_concat (names : List Text) (last : Text) :
    fileRoute (names ++ [last]) = dirRoute names ++ last := by
  by_cases hnil : names = []
  · subst hnil
    simp [fileRoute, dirRoute, List.intercalate]
  · rw [fileRoute, intercalate_concat hnil, dirRoute_of_ne_nil hnil, fileRoute]
    simp

/-- A text that ends in a slash begins the route of a name only where it begins that of the
directory. -/
lemma prefix_of_prefix_append {dir front name : Text} (hdir : dir.getLast? = some '/')
    (hname : '/' ∉ name) (h : dir <+: front ++ name) : dir <+: front := by
  rcases List.prefix_or_prefix_of_prefix h (List.prefix_append front name) with hle | ⟨more, rfl⟩
  · exact hle
  · by_cases hmore : more = []
    · simp [hmore]
    · rw [List.getLast?_append_of_ne_nil front hmore] at hdir
      have hbegins : more <+: name := (List.prefix_append_right_inj front).1 h
      exact absurd (hbegins.subset (List.mem_of_getLast? hdir)) hname

/-! ### Reading a route -/

lemma resolved_of_names (h : ∀ name ∈ names, Path.IsName name) : resolved names = names := by
  induction names using List.reverseRecOn with
  | nil => rfl
  | append_singleton names name ih =>
    have hname : Path.IsName name := h name (by simp)
    rw [resolved_append, ih fun n hn => h n (by simp [hn]),
      step_of_name hname.ne_nil hname.ne_here hname.ne_above, List.reverse_cons,
      List.reverse_reverse]

lemma resolved_cons_nil (parts : List Text) : resolved ([] :: parts) = resolved parts := by
  simp [resolved, step]

/-- A slash at the end of a request changes nothing in what it resolves to. -/
lemma segments_append_slash (requested : Text) :
    segments (requested ++ ['/']) = segments requested := by
  have hpieces : Text.pieces '/' (requested ++ ['/']) = Text.pieces '/' requested ++ [[]] :=
    Text.pieces_append_sep '/' requested []
  show resolved (Text.pieces '/' (requested ++ ['/'])) = resolved (Text.pieces '/' requested)
  rw [hpieces, resolved_append, step, if_pos (.inl rfl), List.reverse_reverse]

/-- The pieces of a route are its names, behind the first slash. -/
lemma pieces_fileRoute (hne : names ≠ []) (h : ∀ name ∈ names, Path.IsName name) :
    Text.pieces '/' (fileRoute names) = [] :: names := by
  have hnames := Text.pieces_intercalate hne fun name hname => (h name hname).slash_not_mem
  rw [fileRoute, Text.pieces, if_pos rfl, hnames]

lemma segments_fileRoute (h : ∀ name ∈ names, Path.IsName name) :
    segments (fileRoute names) = names := by
  by_cases hnil : names = []
  · subst hnil
    decide
  · show resolved (Text.pieces '/' (fileRoute names)) = names
    rw [pieces_fileRoute hnil h, resolved_cons_nil, resolved_of_names h]

lemma getLast?_fileRoute (hne : names ≠ []) (h : ∀ name ∈ names, Path.IsName name) :
    (fileRoute names).getLast? ≠ some '/' := by
  obtain ⟨front, last, rfl⟩ := (names.eq_nil_or_concat').resolve_left hne
  rw [fileRoute_concat]
  exact (h last (by simp)).getLast?_append_ne_slash _

/-- The two forms that a route has. -/
lemma route_cases (requested : Text) :
    route .contained requested = fileRoute (segments requested) ∨
      segments requested ≠ [] ∧
        route .contained requested = fileRoute (segments requested) ++ ['/'] := by
  by_cases hform : segments requested = [] ∨ requested.getLast? ≠ some '/'
  · exact .inl (route_of_no_slash hform)
  · obtain ⟨hne, hlast⟩ := not_or.1 hform
    rw [route_of_slash (not_not.1 hlast), dirRoute_of_ne_nil hne]
    exact .inr ⟨hne, rfl⟩

/-- A route resolves to what its request resolves to. -/
theorem segments_route (requested : Text) :
    segments (route .contained requested) = segments requested := by
  have hnames : segments (fileRoute (segments requested)) = segments requested :=
    segments_fileRoute fun name => isName_of_mem_segments
  rcases route_cases requested with heq | ⟨-, heq⟩
  · rw [heq, hnames]
  · rw [heq, segments_append_slash, hnames]

/-- A route is its own route. -/
theorem route_route (requested : Text) :
    route .contained (route .contained requested) = route .contained requested := by
  have hsegments := segments_route requested
  rcases route_cases requested with heq | ⟨hne, heq⟩
  · rw [route_of_no_slash, hsegments, heq]
    by_cases hnil : segments requested = []
    · exact .inl (hsegments.trans hnil)
    · rw [heq]
      exact .inr (getLast?_fileRoute hnil fun name => isName_of_mem_segments)
  · rw [route_of_slash (by rw [heq]; simp), hsegments, dirRoute_of_ne_nil hne, heq]

/-! ### The form of a route -/

/-- A route in normal form: behind the slash that it begins with no part between slashes is empty,
the last one excepted, and no part is one of the two dot components. -/
structure IsNormal (route : Text) : Prop where
  begins : route.head? = some '/'
  ne_nil : ∀ part ∈ (Text.pieces '/' route).tail.dropLast, part ≠ []
  ne_dots : ∀ part ∈ Text.pieces '/' route, part ≠ Path.here ∧ part ≠ Path.above

/-- The parts of a route: its segments behind the first slash, and what stands behind the last. -/
lemma pieces_route (requested : Text) :
    ∃ last, (last = [] ∨ last = [[]]) ∧
      Text.pieces '/' (route .contained requested) = [] :: (segments requested ++ last) := by
  by_cases hnil : segments requested = []
  · refine ⟨[[]], .inr rfl, ?_⟩
    rw [route_of_no_slash (.inl hnil), hnil]
    decide
  · have hnames := pieces_fileRoute hnil fun name => isName_of_mem_segments
    rcases route_cases requested with heq | ⟨-, heq⟩
    · exact ⟨[], .inl rfl, by rw [heq, hnames, List.append_nil]⟩
    · refine ⟨[[]], .inr rfl, ?_⟩
      rw [heq, Text.pieces_append_sep, hnames]
      rfl

theorem isNormal_route (requested : Text) : IsNormal (route .contained requested) := by
  obtain ⟨last, hlast, hpieces⟩ := pieces_route requested
  have hnames : ∀ name ∈ segments requested, Path.IsName name :=
    fun name hname => isName_of_mem_segments hname
  refine ⟨rfl, fun part hmem => ?_, fun part hmem => ?_⟩
  · have hpart : part ∈ segments requested := by
      rw [hpieces, List.tail_cons] at hmem
      rcases hlast with rfl | rfl
      · simpa using List.dropLast_subset _ hmem
      · simpa using hmem
    exact (hnames part hpart).ne_nil
  · have hpart : part = [] ∨ part ∈ segments requested := by
      rw [hpieces] at hmem
      rcases hlast with rfl | rfl <;> simp only [List.mem_cons, List.mem_append] at hmem <;> tauto
    rcases hpart with rfl | hpart
    · decide
    · exact ⟨(hnames part hpart).ne_here, (hnames part hpart).ne_above⟩

/-- Two texts that differ at most in one slash at the end. -/
def Alike (a b : Text) : Prop :=
  a = b ∨ a = b ++ ['/'] ∨ b = a ++ ['/']

/-- Routes that differ at most in a slash at the end are those of requests that resolve to the same
segments. -/
theorem alike_route_iff :
    Alike (route .contained requested) (route .contained other) ↔
      segments requested = segments other := by
  constructor
  · intro h
    rw [← segments_route requested, ← segments_route other]
    rcases h with h | h | h <;> rw [h]
    · rw [segments_append_slash]
    · rw [segments_append_slash]
  · intro h
    rcases route_cases requested with hr | ⟨-, hr⟩ <;>
      rcases route_cases other with ho | ⟨-, ho⟩ <;> rw [hr, ho, h]
    · exact .inl rfl
    · exact .inr (.inr rfl)
    · exact .inr (.inl rfl)
    · exact .inl rfl

end SiteServer.Target
