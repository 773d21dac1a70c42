import SiteServer.Http.Request
import SiteServer.Proofs.Paths.Routes

/-!
# Condensed paths

Under the compatible policy a requested path is condensed in one pass from left to right, and what
comes out is put behind the text of the root.  The pass drops each `./` and `../` that it comes to
and never looks back.  So a dot that was copied and a slash that is copied later make up a new `./`
when all that stood between them has been dropped, and in no other case
(`here_isInfix_condense_iff`).  Nor does the pass see what it writes behind: a text without a slash
in front changes the last name of a root that has none at its end.

Where neither happens the file path lies inside the root, unless the one component behind the
root's is `..` (`inside_compatible_iff`).
-/

namespace SiteServer

namespace Text

variable {α : Type} [DecidableEq α] {sep : α} {list part : List α}

/-- A list behind a separator is its pieces, each behind one. -/
lemma sep_cons_eq_flatMap (sep : α) (list : List α) :
    sep :: list = (pieces sep list).flatMap (sep :: ·) := by
  induction list with
  | nil => rfl
  | cons c rest ih =>
    by_cases hc : c = sep
    · rw [pieces, if_pos hc, List.flatMap_cons, ← ih, hc, List.singleton_append]
    · rcases hp : pieces sep rest with _ | ⟨piece, more⟩
      · exact absurd hp (pieces_ne_nil sep rest)
      · rw [hp, List.flatMap_cons, List.cons_append, List.cons.injEq] at ih
        simp only [pieces, if_neg hc, hp, List.flatMap_cons, List.cons_append, ← ih.2]

/-- What stands between two separators, the list being read behind one. -/
lemma sep_part_sep_isInfix (h : part ∈ (pieces sep list).dropLast) :
    sep :: part ++ [sep] <:+: sep :: list := by
  obtain ⟨front, last, hpieces⟩ :=
    ((pieces sep list).eq_nil_or_concat').resolve_left (pieces_ne_nil sep list)
  obtain ⟨before, behind, rfl⟩ : ∃ before behind, front = before ++ part :: behind :=
    List.append_of_mem (by simpa [hpieces] using h)
  rw [sep_cons_eq_flatMap sep list, hpieces]
  rcases behind with _ | ⟨next, behind⟩
  · exact ⟨before.flatMap (sep :: ·), last, by simp⟩
  · exact ⟨before.flatMap (sep :: ·), next ++ (behind ++ [last]).flatMap (sep :: ·), by simp⟩

/-- What stands behind the last separator. -/
lemma sep_last_isSuffix (h : (pieces sep list).getLast? = some part) :
    sep :: part <:+ sep :: list := by
  obtain ⟨front, hpieces⟩ := List.getLast?_eq_some_iff.1 h
  exact ⟨front.flatMap (sep :: ·), by rw [sep_cons_eq_flatMap sep list, hpieces]; simp⟩

end Text

namespace Path

/-! ### Inside a directory -/

/-- Whether a list of components that is followed from some depth below a directory never leads out
of the directory. -/
def staysBelow (depth : Nat) : List Text → Bool
  | [] => true
  | part :: rest =>
    if part = here then staysBelow depth rest
    else if part = above then decide (0 < depth) && staysBelow (depth - 1) rest
    else staysBelow (depth + 1) rest

/-- A path inside a directory, as far as its text tells: it begins with the directory's components
and none of those behind them leads out again. -/
structure Inside (root path : Text) : Prop where
  anchored : root = [] ∨ isAbsolute path = isAbsolute root
  begins : components root <+: components path
  stays : staysBelow 0 ((components path).drop (components root).length) = true

instance (root path : Text) : Decidable (Inside root path) :=
  decidable_of_iff
    ((root = [] ∨ isAbsolute path = isAbsolute root) ∧ components root <+: components path ∧
      staysBelow 0 ((components path).drop (components root).length) = true)
    ⟨fun ⟨anchored, begins, stays⟩ => ⟨anchored, begins, stays⟩,
      fun h => ⟨h.anchored, h.begins, h.stays⟩⟩

variable {names : List Text} {depth : Nat} {root text : Text}

lemma staysBelow_names (h : ∀ name ∈ names, IsName name) (more : List Text) :
    staysBelow depth (names ++ more) = staysBelow (depth + names.length) more := by
  induction names generalizing depth with
  | nil => rfl
  | cons name rest ih =>
    have hname : IsName name := h name (by simp)
    rw [List.cons_append, staysBelow, if_neg hname.ne_here, if_neg hname.ne_above,
      ih fun n hn => h n (List.mem_cons_of_mem _ hn), List.length_cons, Nat.add_right_comm,
      Nat.add_assoc]

/-- A single dot in front says nothing, which is all that a slash in front changes. -/
lemma staysBelow_components_slash (text : Text) :
    staysBelow depth (components ('/' :: text)) = staysBelow depth (components text) := by
  simp only [components, Text.pieces, if_true, List.head?_cons]
  split
  · next h => simp [here] at h
  · split <;> simp [staysBelow]

lemma components_slash_slash (text : Text) :
    components ('/' :: '/' :: text) = components ('/' :: text) := by
  simp [components_slash, Text.pieces]

/-- Without a `./` in it a text behind a slash has names for its components, and last perhaps one
`..`, with which it ends. -/
lemma components_slash_of_not_isInfix (h : ¬ ['.', '/'] <:+: text) :
    ∃ names, (∀ name ∈ names, IsName name) ∧
      (components ('/' :: text) = names ∨
        components ('/' :: text) = names ++ [above] ∧ ['/', '.', '.'] <:+ '/' :: text) := by
  obtain ⟨front, last, hpieces⟩ :=
    ((Text.pieces '/' text).eq_nil_or_concat').resolve_left (Text.pieces_ne_nil '/' text)
  have habove : above ∉ front := fun hmem => by
    have hinfix : '/' :: above ++ ['/'] <:+: '/' :: text :=
      Text.sep_part_sep_isInfix (by simpa [hpieces] using hmem)
    have hend : ['.', '/'] <:+: '/' :: text := List.IsInfix.trans ⟨['/', '.'], [], rfl⟩ hinfix
    rcases List.infix_cons_iff.1 hend with hprefix | hinside
    · simp at hprefix
    · exact h hinside
  have hname : ∀ name ∈ (Text.pieces '/' text).filter (fun part => part ≠ [] ∧ part ≠ here),
      name ≠ above → IsName name := fun name hmem hne => by
    obtain ⟨hpiece, hsays⟩ := List.mem_filter.1 hmem
    obtain ⟨hnil, hhere⟩ := of_decide_eq_true hsays
    exact ⟨hnil, Text.not_mem_of_mem_pieces hpiece, hhere, hne⟩
  rw [components_slash]
  rw [hpieces] at hname ⊢
  by_cases hlast : last = above
  · subst hlast
    refine ⟨front.filter fun part => part ≠ [] ∧ part ≠ here, fun name hmem => ?_,
      .inr ⟨by rw [List.filter_append]; rfl, Text.sep_last_isSuffix (by simp [hpieces, above])⟩⟩
    refine hname name (by rw [List.filter_append]; exact List.mem_append_left _ hmem) ?_
    rintro rfl
    exact habove (List.mem_filter.1 hmem).1
  · refine ⟨_, fun name hmem => hname name hmem ?_, .inl rfl⟩
    rintro rfl
    rcases List.mem_append.1 (List.mem_filter.1 hmem).1 with hmem | hmem
    · exact habove hmem
    · exact hlast (List.mem_singleton.1 hmem).symm

/-- A text without a `./` leads out of the directory it starts in only when all it says is `..`. -/
lemma staysBelow_iff_of_not_isInfix (h : ¬ ['.', '/'] <:+: text) :
    staysBelow 0 (components ('/' :: text)) = true ↔ components ('/' :: text) ≠ [above] := by
  obtain ⟨names, hnames, heq | ⟨heq, -⟩⟩ := components_slash_of_not_isInfix h
  · have hstays : staysBelow 0 (names ++ []) = true := staysBelow_names hnames []
    rw [List.append_nil] at hstays
    rw [heq]
    refine iff_of_true hstays fun habove => ?_
    exact (hnames above (by simp [habove])).ne_above rfl
  · rw [heq, staysBelow_names hnames]
    rcases names with _ | ⟨name, names⟩ <;> simp [staysBelow, above, here]

/-! ### A text behind a root -/

/-- Whether a text that is put behind a root leaves the root's components as they are: there is no
root, or a slash between the two, or nothing behind the root. -/
def Parted (root text : Text) : Prop :=
  root = [] ∨ root.getLast? = some '/' ∨ text = [] ∨ text.head? = some '/'

lemma Parted.of_head? (h : text.head? = some '/') : Parted root text :=
  .inr (.inr (.inr h))

lemma isAbsolute_append (hne : root ≠ []) : isAbsolute (root ++ text) = isAbsolute root := by
  obtain ⟨c, rest, rfl⟩ := List.exists_cons_of_ne_nil hne
  rfl

lemma Parted.components_append (h : Parted root text) (hne : root ≠ []) :
    components (root ++ text) = components root ++ components ('/' :: text) := by
  rcases h with rfl | hslash | rfl | hslash
  · exact absurd rfl hne
  · obtain ⟨base, rfl⟩ := List.getLast?_eq_some_iff.1 hslash
    rw [components_append_slash_nil, List.append_assoc, List.singleton_append,
      Path.components_append]
  · simp [components_slash, Text.pieces]
  · obtain ⟨rest, rfl⟩ := List.head?_eq_some_iff.1 hslash
    rw [Path.components_append, components_slash_slash]

/-- A path that is a text behind a root, with the two parted, is inside the root when the text never
leads out. -/
lemma Parted.inside_iff (h : Parted root text) :
    Inside root (root ++ text) ↔ staysBelow 0 (components ('/' :: text)) = true := by
  by_cases hne : root = []
  · subst hne
    rw [staysBelow_components_slash]
    exact ⟨fun hinside => hinside.stays, fun hstays => ⟨.inl rfl, List.nil_prefix, hstays⟩⟩
  · have hdrop : (components (root ++ text)).drop (components root).length
        = components ('/' :: text) := by
      rw [h.components_append hne, List.drop_left]
    constructor
    · intro hinside
      rw [← hdrop]
      exact hinside.stays
    · intro hstays
      refine ⟨.inr (isAbsolute_append hne), ?_, hdrop ▸ hstays⟩
      rw [h.components_append hne]
      exact List.prefix_append _ _

/-- A name stays a name when more is written behind it. -/
lemma IsName.append {name more : Text} (h : IsName name) (hmore : '/' ∉ more) :
    IsName (name ++ more) := by
  obtain ⟨c, rest, rfl⟩ := List.exists_cons_of_ne_nil h.ne_nil
  refine ⟨by simp, ?_, fun heq => ?_, fun heq => ?_⟩
  · rw [List.mem_append]
    exact not_or.2 ⟨h.slash_not_mem, hmore⟩
  · have hhere := h.ne_here
    have habove := h.ne_above
    rcases rest with _ | ⟨d, rest⟩ <;> simp_all [here]
  · have hhere := h.ne_here
    have habove := h.ne_above
    rcases rest with _ | ⟨d, _ | ⟨e, rest⟩⟩ <;> simp_all [here, above]

/-- A text that does not end in a slash ends in what stands behind its last one. -/
lemma exists_last (hne : root ≠ []) (hlast : root.getLast? ≠ some '/') :
    ∃ base last, root = base ++ last ∧ gap base = [] ∧ last ≠ [] ∧ last ∈ Text.pieces '/' root := by
  rcases hsplit : Text.splitLast? '/' root with _ | ⟨before, after⟩
  · have hnone := Text.splitLast?_eq_none_iff.1 hsplit
    exact ⟨[], root, rfl, by simp [gap], hne, by simp [Text.pieces_of_not_mem hnone]⟩
  · obtain ⟨rfl, hafter⟩ := Text.splitLast?_eq_some hsplit
    refine ⟨before ++ ['/'], after, by simp, by simp [gap], ?_, ?_⟩
    · rintro rfl
      simp at hlast
    · rw [Text.pieces_append_sep, Text.pieces_of_not_mem hafter]
      simp

/-- The text up to its first slash. -/
lemma exists_first (text : Text) :
    ∃ front rest, text = front ++ rest ∧ '/' ∉ front ∧ (rest = [] ∨ rest.head? = some '/') := by
  rcases hsplit : Text.splitFirst? '/' text with _ | ⟨front, rest⟩
  · exact ⟨text, [], by simp, Text.splitFirst?_eq_none_iff.1 hsplit, .inl rfl⟩
  · obtain ⟨rfl, hfront⟩ := Text.splitFirst?_eq_some hsplit
    exact ⟨front, '/' :: rest, rfl, hfront, .inr rfl⟩

lemma components_append_name {base name : Text} (hgap : gap base = []) (h : IsName name) :
    components (base ++ name) = components base ++ [name] := by
  rw [← components_join h, join_name h, hgap, List.append_nil]

/-- Whether a root is written without dot components. -/
def IsPlain (root : Text) : Prop :=
  ∀ part ∈ Text.pieces '/' root, part ≠ here ∧ part ≠ above

/-- Text that is not parted from a root makes another name of the root's last. -/
lemma not_inside_of_not_parted (hroot : IsPlain root) (h : ¬ Parted root text) :
    ¬ Inside root (root ++ text) := by
  obtain ⟨hne, hlast, htext, hhead⟩ : root ≠ [] ∧ root.getLast? ≠ some '/' ∧ text ≠ [] ∧
      text.head? ≠ some '/' := by
    simpa only [Parted, not_or] using h
  obtain ⟨base, last, rfl, hgap, hnil, hpiece⟩ := exists_last hne hlast
  obtain ⟨front, rest, rfl, hfront, hrest⟩ := exists_first text
  have hname : IsName last :=
    ⟨hnil, Text.not_mem_of_mem_pieces hpiece, (hroot last hpiece).1, (hroot last hpiece).2⟩
  have hmore : front ≠ [] := by
    rintro rfl
    rcases hrest with rfl | hrest
    · exact htext rfl
    · exact hhead hrest
  have hcomponents : components (base ++ last ++ (front ++ rest))
      = components base ++ (last ++ front) :: components ('/' :: rest) := by
    rw [← List.append_assoc, List.append_assoc base,
      Parted.components_append (.inr (.inr hrest)) (by simp [hnil]),
      components_append_name hgap (hname.append hfront)]
    simp
  intro hinside
  have hbegins := hinside.begins
  rw [hcomponents, components_append_name hgap hname, List.prefix_append_right_inj,
    List.cons_prefix_cons] at hbegins
  exact hmore (by simpa using hbegins.1)

end Path

namespace Target

variable {requested root : Text}

/-! ### What the pass leaves -/

/-- Text that the pass drops. -/
inductive Dropped : Text → Prop where
  | nil : Dropped []
  | here {rest : Text} : Dropped rest → Dropped ('.' :: '/' :: rest)
  | above {rest : Text} : Dropped rest → Dropped ('.' :: '.' :: '/' :: rest)

/-- The text for which the pass puts out a character. -/
inductive Taken : Char → Text → Prop where
  | copy (c : Char) : Taken c [c]
  | space : Taken ' ' ['%', '2', '0']
  | slash : Taken '/' ['/', '/']

/-- Whether a dot and a slash of a request come together when what stands between them, a `../` and
perhaps more of its kind, has been dropped. -/
def Rejoins (requested : Text) : Prop :=
  ∃ dropped, Dropped dropped ∧ '.' :: '.' :: '.' :: '/' :: (dropped ++ ['/']) <:+: requested

lemma condense_dropped {dropped : Text} (h : Dropped dropped) (rest : Text) :
    condense (dropped ++ rest) = condense rest := by
  induction h with
  | nil => rfl
  | here _ ih => rw [List.cons_append, List.cons_append, condense, ih]
  | above _ ih => rw [List.cons_append, List.cons_append, List.cons_append, condense, ih]

/-- A slash in front stays. -/
lemma head?_condense_of_slash (h : requested.head? = some '/') :
    (condense requested).head? = some '/' := by
  fun_cases condense requested with
  | case1 rest => simp at h
  | case2 rest => simp at h
  | case3 rest => simp at h
  | case4 rest => rfl
  | case5 c rest => exact h
  | case6 => simp at h

/-- What comes out empty has been dropped. -/
lemma dropped_of_condense_eq_nil (h : condense requested = []) : Dropped requested := by
  fun_induction condense requested with
  | case1 rest ih => exact (ih h).here
  | case2 rest ih => exact (ih h).above
  | case3 rest ih => simp at h
  | case4 rest ih => simp at h
  | case5 c rest hhere habove hspace hslashes ih => simp at h
  | case6 => exact .nil

/-- What comes out first is what some text behind dropped text is taken for. -/
lemma exists_taken_of_condense_eq_cons {c : Char} {more : Text}
    (h : condense requested = c :: more) :
    ∃ dropped taken rest, requested = dropped ++ taken ++ rest ∧ Dropped dropped ∧ Taken c taken ∧
      condense rest = more := by
  fun_induction condense requested with
  | case1 rest ih =>
    obtain ⟨dropped, taken, behind, rfl, hdropped, htaken, hbehind⟩ := ih h
    exact ⟨_, taken, behind, rfl, hdropped.here, htaken, hbehind⟩
  | case2 rest ih =>
    obtain ⟨dropped, taken, behind, rfl, hdropped, htaken, hbehind⟩ := ih h
    exact ⟨_, taken, behind, rfl, hdropped.above, htaken, hbehind⟩
  | case3 rest ih =>
    obtain ⟨rfl, hmore⟩ := List.cons.inj h
    exact ⟨[], _, rest, rfl, .nil, .space, hmore⟩
  | case4 rest ih =>
    obtain ⟨rfl, hmore⟩ := List.cons.inj h
    exact ⟨[], _, rest, rfl, .nil, .slash, hmore⟩
  | case5 d rest hhere habove hspace hslashes ih =>
    obtain ⟨rfl, hmore⟩ := List.cons.inj h
    exact ⟨[], _, rest, rfl, .nil, .copy d, hmore⟩
  | case6 => simp at h

/-- Each end of the condensed text comes from an end of the request. -/
lemma exists_isSuffix_of_condense {behind : Text} (h : behind <:+ condense requested) :
    ∃ rest, rest <:+ requested ∧ condense rest = behind := by
  -- the cases in which something is put out
  have hput (front : Text) {c : Char} {rest : Text}
      (htaken : condense (front ++ rest) = c :: condense rest)
      (h : behind <:+ c :: condense rest)
      (ih : behind <:+ condense rest → ∃ left, left <:+ rest ∧ condense left = behind) :
      ∃ left, left <:+ front ++ rest ∧ condense left = behind := by
    rcases List.suffix_cons_iff.1 h with rfl | hlater
    · exact ⟨_, List.suffix_rfl, htaken⟩
    · obtain ⟨left, hleft, heq⟩ := ih hlater
      exact ⟨left, hleft.trans (List.suffix_append front rest), heq⟩
  fun_induction condense requested with
  | case1 rest ih =>
    obtain ⟨left, hleft, heq⟩ := ih h
    exact ⟨left, hleft.trans ⟨['.', '/'], rfl⟩, heq⟩
  | case2 rest ih =>
    obtain ⟨left, hleft, heq⟩ := ih h
    exact ⟨left, hleft.trans ⟨['.', '.', '/'], rfl⟩, heq⟩
  | case3 rest ih => exact hput ['%', '2', '0'] (by simp [condense]) h ih
  | case4 rest ih => exact hput ['/', '/'] (by simp [condense]) h ih
  | case5 c rest hhere habove hspace hslashes ih =>
    have hcopy : condense (c :: rest) = c :: condense rest := by rw [condense] <;> assumption
    exact hput [c] hcopy h ih
  | case6 => exact ⟨[], List.suffix_rfl, (List.suffix_nil.1 h).symm⟩

/-- A slash that comes out first stands behind nothing but dropped text. -/
lemma exists_dropped_of_head? (h : (condense requested).head? = some '/') :
    ∃ dropped, Dropped dropped ∧ dropped ++ ['/'] <+: requested := by
  obtain ⟨more, hmore⟩ := List.head?_eq_some_iff.1 h
  obtain ⟨dropped, taken, rest, rfl, hdropped, htaken, -⟩ := exists_taken_of_condense_eq_cons hmore
  refine ⟨dropped, hdropped, ?_⟩
  cases htaken with
  | copy => exact ⟨rest, rfl⟩
  | slash => exact ⟨'/' :: rest, by simp⟩

/-- Where a dot and a slash come together: at the start, or behind it. -/
lemma rejoins_cons_iff {c : Char} {rest : Text} :
    Rejoins (c :: rest) ↔
      (c = '.' ∧ ∃ dropped, Dropped dropped ∧ '.' :: '.' :: '/' :: (dropped ++ ['/']) <+: rest) ∨
        Rejoins rest := by
  simp only [Rejoins, List.infix_cons_iff, List.cons_prefix_cons, and_or_left, exists_or]
  refine or_congr_left ⟨?_, ?_⟩
  · rintro ⟨dropped, hdropped, rfl, hprefix⟩
    exact ⟨rfl, dropped, hdropped, hprefix⟩
  · rintro ⟨rfl, dropped, hdropped, hprefix⟩
    exact ⟨dropped, hdropped, rfl, hprefix⟩

/-- A `./` is left in the condensed text exactly when a dot and a slash of the request come
together. -/
theorem here_isInfix_condense_iff : ['.', '/'] <:+: condense requested ↔ Rejoins requested := by
  fun_induction condense requested with
  | case1 rest ih => simp [ih, rejoins_cons_iff]
  | case2 rest ih => simp [ih, rejoins_cons_iff]
  | case3 rest ih => simp [ih, rejoins_cons_iff, List.infix_cons_iff]
  | case4 rest ih => simp [ih, rejoins_cons_iff, List.infix_cons_iff]
  | case5 c rest hhere habove hspace hslashes ih =>
    rw [List.infix_cons_iff, rejoins_cons_iff, ih, List.cons_prefix_cons, eq_comm]
    refine or_congr_left (and_congr_right ?_)
    rintro rfl
    constructor
    · intro hslash
      have hhead : (condense rest).head? = some '/' := by
        obtain ⟨more, hmore⟩ := hslash
        rw [← hmore]
        rfl
      -- a dot before `/` or `./` would have been dropped itself
      obtain ⟨dropped, hdropped, hprefix⟩ := exists_dropped_of_head? hhead
      cases hdropped with
      | nil =>
        obtain ⟨more, rfl⟩ := hprefix
        exact absurd rfl (hhere more rfl)
      | here hrest =>
        obtain ⟨more, rfl⟩ := hprefix
        exact absurd rfl (habove _ rfl)
      | above hrest => exact ⟨_, hrest, hprefix⟩
    · rintro ⟨dropped, hdropped, more, rfl⟩
      have htext : '.' :: '.' :: '/' :: (dropped ++ ['/']) ++ more
          = '.' :: '.' :: '/' :: dropped ++ '/' :: more := by simp
      have hslash : (condense ('/' :: more)).head? = some '/' := head?_condense_of_slash rfl
      obtain ⟨behind, hbehind⟩ := List.head?_eq_some_iff.1 hslash
      exact ⟨behind, by rw [htext, condense_dropped hdropped.above, hbehind]; rfl⟩
  | case6 => simp [Rejoins]

/-! ### Inside the root -/

/-- The file path of a request lies inside the root exactly when the condensed text is parted from
the root and does not lead out.  A condensed text without a `./` leads out only when all it says is
`..`, and one has a `./` exactly when dots and slashes of the request come together.  So a request
that begins with a slash and in which none do names a path inside the root, unless the path ends in
`/..`. -/
theorem inside_compatible_iff (hroot : Path.IsPlain root) (requested : Text) :
    (Path.Inside root (filePath .compatible root requested) ↔
      Path.Parted root (route .compatible requested) ∧
        Path.staysBelow 0 (Path.components ('/' :: route .compatible requested)) = true) ∧
    (['.', '/'] <:+: route .compatible requested ↔ Rejoins requested) ∧
    (¬ Rejoins requested →
      (Path.staysBelow 0 (Path.components ('/' :: route .compatible requested)) = true ↔
        Path.components ('/' :: route .compatible requested) ≠ [Path.above])) ∧
    (¬ Rejoins requested → requested.head? = some '/' →
      ¬ ['/', '.', '.'] <:+ filePath .compatible root requested →
        Path.Inside root (filePath .compatible root requested)) := by
  have hinside : Path.Inside root (filePath .compatible root requested) ↔
      Path.Parted root (route .compatible requested) ∧
        Path.staysBelow 0 (Path.components ('/' :: route .compatible requested)) = true := by
    by_cases hparted : Path.Parted root (route .compatible requested)
    · exact hparted.inside_iff.trans (and_iff_right hparted).symm
    · exact iff_of_false (Path.not_inside_of_not_parted hroot hparted) fun hboth => hparted hboth.1
  have hroute (h : ¬ Rejoins requested) : ¬ ['.', '/'] <:+: route .compatible requested :=
    fun hinfix => h (here_isInfix_condense_iff.1 hinfix)
  refine ⟨hinside, here_isInfix_condense_iff,
    fun h => Path.staysBelow_iff_of_not_isInfix (hroute h), fun h hslash hend => ?_⟩
  have hhead : (route .compatible requested).head? = some '/' := head?_condense_of_slash hslash
  have hstays := Path.staysBelow_iff_of_not_isInfix (hroute h)
  refine hinside.2 ⟨.of_head? hhead, hstays.2 fun habove => ?_⟩
  obtain ⟨names, hnames, heq | ⟨-, hsuffix⟩⟩ := Path.components_slash_of_not_isInfix (hroute h)
  · have hname : Path.IsName Path.above := hnames Path.above (by simp [← heq, habove])
    exact hname.ne_above rfl
  · rcases List.suffix_cons_iff.1 hsuffix with heq | hsuffix
    · rw [← (List.cons.inj heq).2] at hhead
      simp at hhead
    · exact hend (hsuffix.trans (List.suffix_append _ _))

theorem inside_compatible_iff_descent :
    Path.IsPlain "/srv/www".toList ∧ ¬ Rejoins "/sub/../.../x..".toList ∧
      filePath .compatible "/srv/www".toList "/sub/../.../x..".toList
        = "/srv/www/sub/.x..".toList ∧
      Path.Inside "/srv/www".toList
        (filePath .compatible "/srv/www".toList "/sub/../.../x..".toList) := by
  have hroot : Path.IsPlain "/srv/www".toList := by
    unfold Path.IsPlain
    decide
  obtain ⟨-, hrejoins, -, hinside⟩ := inside_compatible_iff hroot "/sub/../.../x..".toList
  have hroute : route .compatible "/sub/../.../x..".toList = "/sub/.x..".toList := by decide
  have h : ¬ Rejoins "/sub/../.../x..".toList := by
    rw [← hrejoins, hroute]
    simp [List.infix_cons_iff]
  exact ⟨hroot, h, by decide, hinside h rfl (by decide)⟩

/-- A request in which two dots more stand before a `../`. -/
def climbing : Bytes := Utf8.encode "GET /....//x HTTP/1.1".toList

/-- A request whose target does not begin with a slash. -/
def sidling : Bytes := Utf8.encode "GET x HTTP/1.1".toList

/-- The file path below `/srv/www` that the bytes of a request name. -/
def named (raw : Bytes) : Option Text :=
  (Request.parse raw).toOption.map fun request =>
    filePath .compatible "/srv/www".toList request.path

/-- Both lead out of the root, by paths that do not end in `/..`: what is left of the first one's
dots climbs, and the second one's text makes another name of the root's last. -/
theorem compatible_leaves_root :
    named climbing = some "/srv/www/../x".toList ∧
      ['.', '.', '/'] <:+: route .compatible "/....//x".toList ∧
      ¬ Path.Inside "/srv/www".toList "/srv/www/../x".toList ∧
      named sidling = some "/srv/wwwx".toList ∧
      ¬ Path.Inside "/srv/www".toList "/srv/wwwx".toList :=
  ⟨by decide +kernel, ⟨['/'], ['x'], by decide⟩, by decide, by decide +kernel, by decide⟩

end Target

end SiteServer
