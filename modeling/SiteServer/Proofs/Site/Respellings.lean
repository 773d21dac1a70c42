import SiteServer.Proofs.Paths.Condensing
import SiteServer.Proofs.Site.RouteTables

/-!
# Respelled requests

Two requests may name one file in two spellings.  The file system compares paths by their
components, a route table compares routes as texts.  Under the compatible policy the two agree on
requests that are written tidily, without a doubled slash and without a slash or a single dot as
their last segment: the route of such a request is put together from its components
(`IsTidy.route_eq`), so that routes with the same components are the same text.  Dot segments in
the middle do no harm.  Other spellings can get around a mount of any kind (`respellings_miss`).
-/

namespace SiteServer

namespace Target

variable {H : Type} {requested other dropped : Text}

/-! ### Slashes and dots that are left -/

lemma Dropped.slash_isSuffix (h : Dropped dropped) : ['/'] <:+ '/' :: dropped := by
  induction h with
  | nil => exact List.suffix_rfl
  | @here rest _ ih => exact ih.trans ⟨['/', '.'], rfl⟩
  | @above rest _ ih => exact ih.trans ⟨['/', '.', '.'], rfl⟩

lemma Dropped.slashes_isInfix (h : Dropped dropped) :
    ['/', '/'] <:+: '/' :: (dropped ++ ['/']) := by
  obtain ⟨front, hfront⟩ := h.slash_isSuffix
  exact ⟨front, [], by rw [← List.cons_append, ← hfront]; simp⟩

lemma Taken.slash_isSuffix {taken : Text} (h : Taken '/' taken) : ['/'] <:+ taken := by
  cases h with
  | copy => exact List.suffix_rfl
  | slash => exact ⟨['/'], rfl⟩

/-- A dot and a slash come together only over a doubled slash. -/
lemma Rejoins.slashes_isInfix (h : Rejoins requested) : ['/', '/'] <:+: requested := by
  obtain ⟨dropped, hdropped, hinfix⟩ := h
  exact (hdropped.slashes_isInfix.trans ⟨['.', '.', '.'], [], by simp⟩).trans hinfix

/-- A doubled slash is left only of one. -/
lemma slashes_isInfix_of_condense (h : ['/', '/'] <:+: condense requested) :
    ['/', '/'] <:+: requested := by
  obtain ⟨front, behind, hcondense⟩ := h
  have hend : '/' :: '/' :: behind <:+ condense requested := ⟨front, by simpa using hcondense⟩
  obtain ⟨first, hfirst, heq⟩ := exists_isSuffix_of_condense hend
  obtain ⟨before, taken, second, rfl, -, htaken, heq⟩ := exists_taken_of_condense_eq_cons heq
  have hhead : (condense second).head? = some '/' := by
    rw [heq]
    rfl
  obtain ⟨dropped, hdropped, more, rfl⟩ := exists_dropped_of_head? hhead
  obtain ⟨start, rfl⟩ := htaken.slash_isSuffix
  exact (hdropped.slashes_isInfix.trans ⟨before ++ start, more, by simp⟩).trans hfirst.isInfix

/-- A slash is left at the end only of one there. -/
lemma slash_isSuffix_of_condense (h : ['/'] <:+ condense requested) : ['/'] <:+ requested := by
  obtain ⟨left, hleft, heq⟩ := exists_isSuffix_of_condense h
  obtain ⟨before, taken, rest, rfl, -, htaken, hrest⟩ := exists_taken_of_condense_eq_cons heq
  obtain ⟨start, rfl⟩ := htaken.slash_isSuffix
  have hend := (dropped_of_condense_eq_nil hrest).slash_isSuffix
  exact (hend.trans ⟨before ++ start, by simp⟩).trans hleft

/-- A dot is left alone at the end only of one there, or in front of a slash. -/
lemma here_isSuffix_of_condense (h : ['/', '.'] <:+ condense requested) :
    ['/', '.'] <:+ requested ∨ ['/'] <:+ requested := by
  obtain ⟨left, hleft, heq⟩ := exists_isSuffix_of_condense h
  obtain ⟨before, taken, second, rfl, -, htaken, heq⟩ := exists_taken_of_condense_eq_cons heq
  obtain ⟨dropped, dot, rest, rfl, hdropped, hdot, hrest⟩ := exists_taken_of_condense_eq_cons heq
  obtain ⟨start, rfl⟩ := htaken.slash_isSuffix
  obtain rfl : dot = ['.'] := by cases hdot; rfl
  rcases List.suffix_cons_iff.1 (dropped_of_condense_eq_nil hrest).slash_isSuffix with hnil | hslash
  · obtain rfl : rest = [] := (List.cons.inj hnil).2.symm
    obtain ⟨front, hfront⟩ := hdropped.slash_isSuffix
    refine .inl (List.IsSuffix.trans ⟨before ++ start ++ front, ?_⟩ hleft)
    have hdots : front ++ ['/', '.'] = '/' :: dropped ++ ['.'] := by
      rw [← hfront]
      simp
    simp [List.append_assoc, hdots]
  · rw [← List.append_assoc] at hleft
    exact .inr ((hslash.trans (List.suffix_append _ rest)).trans hleft)

/-! ### Tidy requests -/

/-- A request without a doubled slash and without a slash or a single dot as its last segment. -/
structure IsTidy (requested : Text) : Prop where
  begins : requested.head? = some '/'
  no_slashes : ¬ ['/', '/'] <:+: requested
  no_slash : requested = ['/'] ∨ ¬ ['/'] <:+ requested
  no_dot : ¬ ['/', '.'] <:+ requested

/-- No part of a tidy request's route, behind the slash in front, is empty or a single dot. -/
lemma IsTidy.part_ne (h : IsTidy requested) (hne : requested ≠ ['/']) {rest part : Text}
    (hroute : condense requested = '/' :: rest) (hmem : part ∈ Text.pieces '/' rest) :
    part ≠ [] ∧ part ≠ Path.here := by
  have hend : ¬ ['/'] <:+ requested := h.no_slash.resolve_left hne
  obtain ⟨front, last, hpieces⟩ :=
    ((Text.pieces '/' rest).eq_nil_or_concat').resolve_left (Text.pieces_ne_nil '/' rest)
  rw [hpieces, List.mem_append, List.mem_singleton] at hmem
  rcases hmem with hfront | rfl
  · have hinfix : '/' :: part ++ ['/'] <:+: condense requested :=
      hroute ▸ Text.sep_part_sep_isInfix (by simpa [hpieces] using hfront)
    constructor
    · rintro rfl
      exact h.no_slashes (slashes_isInfix_of_condense hinfix)
    · rintro rfl
      have hrejoins := here_isInfix_condense_iff.1 (List.IsInfix.trans ⟨['/'], [], rfl⟩ hinfix)
      exact h.no_slashes hrejoins.slashes_isInfix
  · have hsuffix : '/' :: part <:+ condense requested :=
      hroute ▸ Text.sep_last_isSuffix (by simp [hpieces])
    constructor
    · rintro rfl
      exact hend (slash_isSuffix_of_condense hsuffix)
    · rintro rfl
      exact (here_isSuffix_of_condense hsuffix).elim h.no_dot hend

/-- The route of a tidy request is put together from its components. -/
lemma IsTidy.route_eq (h : IsTidy requested) :
    route .compatible requested = fileRoute (Path.components (route .compatible requested)) := by
  by_cases hroot : requested = ['/']
  · subst hroot
    decide
  obtain ⟨rest, hroute⟩ := List.head?_eq_some_iff.1 (head?_condense_of_slash h.begins)
  have hall : (Text.pieces '/' rest).filter (fun part => part ≠ [] ∧ part ≠ Path.here)
      = Text.pieces '/' rest :=
    List.filter_eq_self.2 fun part hmem => decide_eq_true (h.part_ne hroot hroute hmem)
  show condense requested = fileRoute (Path.components (condense requested))
  rw [hroute, Path.components_slash, hall, fileRoute, Text.intercalate_pieces]

/-! ### What the file system and the table tell apart -/

/-- Behind one root two requests that begin with a slash name the same path when the components of
their routes are the same. -/
lemma same_filePath_iff (root : Text) (h : requested.head? = some '/')
    (hother : other.head? = some '/') :
    Path.Same (filePath .compatible root requested) (filePath .compatible root other) ↔
      Path.components (route .compatible requested)
        = Path.components (route .compatible other) := by
  obtain ⟨rest, hrest⟩ := List.head?_eq_some_iff.1 (head?_condense_of_slash h)
  obtain ⟨rest', hrest'⟩ := List.head?_eq_some_iff.1 (head?_condense_of_slash hother)
  have hpath : filePath .compatible root requested = root ++ '/' :: rest := congrArg _ hrest
  have hpath' : filePath .compatible root other = root ++ '/' :: rest' := congrArg _ hrest'
  have habsolute :
      Path.isAbsolute (root ++ '/' :: rest) = Path.isAbsolute (root ++ '/' :: rest') := by
    cases root <;> rfl
  show _ ↔ Path.components (condense requested) = Path.components (condense other)
  rw [hpath, hpath', hrest, hrest', ← List.append_cancel_left_eq (Path.components root),
    ← Path.components_append, ← Path.components_append]
  exact ⟨Path.Same.components, fun hcomponents => ⟨habsolute, hcomponents⟩⟩

/-- For requests that begin with a slash the file system tells two paths apart by the components of
the routes, and the tables tell them apart by the routes themselves.  On tidy requests that is the
same: two of them name one path exactly when every table finds the same mount for both. -/
theorem tidy_agree (handler : H) (root : Text) (h : requested.head? = some '/')
    (hother : other.head? = some '/') :
    (Path.Same (filePath .compatible root requested) (filePath .compatible root other) ↔
      Path.components (route .compatible requested)
        = Path.components (route .compatible other)) ∧
    ((∀ table : RouteTable H,
        table.lookup (route .compatible requested) = table.lookup (route .compatible other)) ↔
      route .compatible requested = route .compatible other) ∧
    (IsTidy requested → IsTidy other →
      (Path.Same (filePath .compatible root requested) (filePath .compatible root other) ↔
        ∀ table : RouteTable H,
          table.lookup (route .compatible requested)
            = table.lookup (route .compatible other))) := by
  have hsame := same_filePath_iff root h hother
  have hlookup : (∀ table : RouteTable H,
        table.lookup (route .compatible requested) = table.lookup (route .compatible other)) ↔
      route .compatible requested = route .compatible other :=
    RouteTable.lookup_eq_iff handler
  refine ⟨hsame, hlookup, fun htidy htidy' => hsame.trans (Iff.trans ?_ hlookup.symm)⟩
  constructor
  · intro hcomponents
    rw [htidy.route_eq, hcomponents, ← htidy'.route_eq]
  · intro hroute
    rw [hroute]

theorem tidy_agree_dots :
    IsTidy "/a/./b.php".toList ∧ IsTidy "/a/../b.php".toList ∧
      Path.Same (filePath .compatible "/srv/www".toList "/a/./b.php".toList)
        (filePath .compatible "/srv/www".toList "/a/../b.php".toList) ∧
      ∀ table : RouteTable Unit,
        table.lookup (route .compatible "/a/./b.php".toList)
          = table.lookup (route .compatible "/a/../b.php".toList) := by
  have hhere : IsTidy "/a/./b.php".toList :=
    ⟨rfl, by simp [List.infix_cons_iff], .inr (by decide), by decide⟩
  have habove : IsTidy "/a/../b.php".toList :=
    ⟨rfl, by simp [List.infix_cons_iff], .inr (by decide), by decide⟩
  obtain ⟨hsame, -, hagree⟩ := tidy_agree () "/srv/www".toList hhere.begins habove.begins
  have hpath := hsame.2 (by decide)
  exact ⟨hhere, habove, hpath, (hagree hhere habove).1 hpath⟩

/-- A table with a mount of each kind. -/
def guards : RouteTable Unit :=
  .ofMounts [⟨"cgi".toList, .dir "/cgi/".toList, ()⟩, ⟨"status".toList, .path "/status".toList, ()⟩,
    ⟨"php".toList, .extension "php".toList, ()⟩]

/-- Two spellings of one path below `/srv/www`, for the first of which a mount is found and none for
the second. -/
structure Respelled (requested other : Text) : Prop where
  same : Path.Same (filePath .compatible "/srv/www".toList requested)
    (filePath .compatible "/srv/www".toList other)
  found : (guards.lookup (route .compatible requested)).isSome
  missed : guards.lookup (route .compatible other) = none

/-- A mount of any kind is missed by some other spelling of a request that it is found for, with a
third slash in front or a slash at the end. -/
theorem respellings_miss :
    Respelled "/cgi/run".toList "///cgi/run".toList ∧
      Respelled "/status".toList "///status".toList ∧
      Respelled "/index.php".toList "/index.php/".toList :=
  ⟨⟨⟨by decide, by decide⟩, by decide, by decide⟩, ⟨⟨by decide, by decide⟩, by decide, by decide⟩,
    ⟨⟨by decide, by decide⟩, by decide, by decide⟩⟩

end Target

end SiteServer
