import SiteServer.Proofs.Paths.Containment
import SiteServer.Proofs.Site.Questions
import SiteServer.Proofs.Storage.Hierarchy

/-!
# Confinement to the document root

Under the contained policy everything that is asked on the way to an answer is about paths below the
document root: the path that the request names, the index of the directory there, and the names that
are listed in it.  An index passes the checks of a configuration when it is not empty and holds no
slash, and there is one such text that is the name of no file, `..`: with it the directory above the
one that was requested is asked about, be it the one above the root (`index_leaves_root`).  It is
the only question that leaves the root, and no file is sent because of it (`asked_below`).
-/

namespace SiteServer

namespace Path

variable {root base part path : Text}

/-- A path below a root: it begins with the components of the root, and none of those behind them
leads up. -/
structure Below (root path : Text) : Prop where
  isAbsolute : isAbsolute path = isAbsolute root
  components : ∃ behind, components path = components root ++ behind ∧ above ∉ behind

/-- A text without a slash does not start at the top of the file system. -/
lemma isAbsolute_of_not_mem (h : '/' ∉ part) : Path.isAbsolute part = false := by
  rcases part with _ | ⟨c, rest⟩
  · rfl
  · have hc : c ≠ '/' := Ne.symm (List.ne_of_not_mem_cons h)
    simp [Path.isAbsolute, hc]

/-- A text without a slash that is joined onto a path stands behind a slash. -/
lemma join_part_cases (hslash : '/' ∉ part) (base : Text) :
    base = [] ∧ join base part = part ∨
      ∃ front, join base part = front ++ '/' :: part ∧
        Path.components base = Path.components front := by
  simp only [join, isAbsolute_of_not_mem hslash, Bool.false_eq_true, if_false]
  rcases base.eq_nil_or_concat' with rfl | ⟨front, c, rfl⟩
  · exact .inl ⟨rfl, by simp⟩
  · by_cases hc : c = '/'
    · subst hc
      exact .inr ⟨front, by simp, components_append_slash_nil front⟩
    · exact .inr ⟨front ++ [c], by simp [hc], rfl⟩

/-- A text without a slash is joined onto a path as one more component, unless it is a single dot
that says nothing. -/
lemma components_join_part (hnil : part ≠ []) (hslash : '/' ∉ part) (base : Text) :
    Path.components (join base part) = Path.components base ++ [part] ∨
      part = here ∧ Path.components (join base part) = Path.components base := by
  have hpiece := Text.pieces_of_not_mem hslash
  rcases join_part_cases hslash base with ⟨rfl, hjoin⟩ | ⟨front, hjoin, hfront⟩
  · refine .inl ?_
    rw [hjoin, show Path.components [] = [] by decide]
    by_cases hhere : part = here
    · subst hhere
      rfl
    · simp [Path.components, hpiece, hnil, hhere]
  · rw [hjoin, hfront, components_append, components_slash, hpiece]
    by_cases hhere : part = here
    · exact .inr ⟨hhere, by simp [hhere]⟩
    · exact .inl (by simp [hnil, hhere])

lemma isAbsolute_join_part (hslash : '/' ∉ part) (base : Text) :
    Path.isAbsolute (join base part) = Path.isAbsolute base := by
  have hpart := isAbsolute_of_not_mem hslash
  rcases base with _ | ⟨c, rest⟩
  · simp [join, hpart]
    rfl
  · simp only [join, hpart, Bool.false_eq_true, if_false]
    split <;> rfl

lemma Below.join (h : Below root base) (hnil : part ≠ []) (hslash : '/' ∉ part)
    (habove : part ≠ above) : Below root (Path.join base part) where
  isAbsolute := (isAbsolute_join_part hslash base).trans h.isAbsolute
  components := by
    obtain ⟨behind, hbase, hbehind⟩ := h.components
    rcases components_join_part hnil hslash base with hjoin | ⟨-, hjoin⟩
    · exact ⟨behind ++ [part], by rw [hjoin, hbase, List.append_assoc],
        by simp [hbehind, habove.symm]⟩
    · exact ⟨behind, hjoin.trans hbase, hbehind⟩

/-- Two dots behind a path lead out of what is below a root. -/
lemma Below.not_join_above (h : Below root base) : ¬ Below root (Path.join base above) := by
  rintro ⟨-, names, hnames, hnot⟩
  obtain ⟨behind, hbase, -⟩ := h.components
  have hjoin := (components_join_part (by decide) (by decide) base).resolve_right
    fun ⟨heq, _⟩ => absurd heq (by decide : above ≠ here)
  rw [hjoin, hbase, List.append_assoc, List.append_cancel_left_eq] at hnames
  exact hnot (by simp [← hnames])

end Path

/-- What the file path of a contained request is joined from are names. -/
lemma Target.below_filePath (root requested : Text) :
    Path.Below root (filePath .contained root requested) := by
  obtain ⟨names, -, hnames, -, -, habsolute, hcomponents, -⟩ := filePath_contained root requested
  exact ⟨habsolute, names, hcomponents, fun hmem => (hnames _ hmem).2.2.2 rfl⟩

namespace Tree

variable {tree : Tree} {path : Text} {location : Location}

/-- A way that ends with a step up ends at the parent of a directory. -/
lemma walk_up {links : Nat} {todo : List Move} {result : Location}
    (h : tree.walk links location todo = .ok result) (hlast : todo.getLast? = some .up) :
    ∃ below, tree.entries.hasDirectory below = true ∧ result = below.tail := by
  induction h using walk_ok_induct with
  | done => simp at hlast
  | @step links location next m rest _ hmove hrest ih =>
    rcases rest with _ | ⟨second, rest⟩
    · obtain rfl : m = .up := by simpa using hlast
      obtain ⟨hdirectory, ⟨⟩⟩ := arrives_of_move hmove
      rw [walk_nil] at hrest
      exact ⟨location, hdirectory, (Except.ok.inj hrest).symm⟩
    · exact ih (by simpa using hlast)
  | @follow links location m target rest _ hmove _ ih =>
    -- a step up leads through no link, so it is still to come
    rcases rest with _ | ⟨second, rest⟩
    · obtain rfl : m = .up := by simpa using hlast
      cases (arrives_of_move hmove).2
    · exact ih (by simpa using hlast)

lemma getLast?_moves_join_above (path : Text) :
    (moves (Path.join path Path.above)).getLast? = some .up := by
  have hslash : '/' ∉ Path.above := by decide
  rcases Path.join_part_cases hslash path with ⟨-, hjoin⟩ | ⟨front, hjoin, -⟩
  · rw [hjoin]
    decide
  · rw [hjoin, moves, Text.pieces_append_sep, Text.pieces_of_not_mem hslash]
    simp [Path.above, Move.ofComponent, Path.here]

/-- In a file system two dots behind a path lead to a directory. -/
lemma kind_of_stat_above {info : Info}
    (hstat : tree.stat (Path.join path Path.above) = .ok info) : info.kind = .directory := by
  unfold stat at hstat
  split at hstat
  · simp at hstat
  · next location hlocate =>
    unfold locate at hlocate
    split at hlocate
    · simp at hlocate
    · obtain ⟨below, hbelow, rfl⟩ := walk_up hlocate (getLast?_moves_join_above path)
      obtain ⟨entry, hentry, hnode⟩ :=
        Entries.hasDirectory_iff.1 (hasDirectory_tail (has_of_hasDirectory hbelow))
      simp only [show tree.entry? below.tail = some entry from hentry, hnode] at hstat
      rw [← Except.ok.inj hstat]

end Tree

namespace Site

variable {H : Type} {site : Site H} {ask : H → Handler} {date requested : Text} {tree : Tree}
  {params : List Param} {response : Response}

/-- A file that is sent is the one at the requested path or the index there. -/
lemma isFile_of_answer (hanswer : site.answer ask date tree requested params = .ok response)
    {file : Text} {size : Nat} (hbody : response.body = .file file size) :
    (file = Target.filePath site.policy site.root requested ∨
      file = Path.join (Target.filePath site.policy site.root requested) site.index) ∧
      tree.IsFile file size := by
  obtain ⟨hmount, hfile⟩ := body_of_answer hanswer hbody
  refine ⟨hfile, ?_⟩
  obtain ⟨found, hfound⟩ := exists_found site.zone tree date
    (Target.filePath site.policy site.root requested)
    (Path.join (Target.filePath site.policy site.root requested) site.index) requested
  simp only [answer, hmount, hfound.fileAnswer_eq] at hanswer
  obtain rfl := Except.ok.inj hanswer
  exact (hfound.of_file hbody).2.2

end Site

namespace Config

variable {H : Type} {config : Config H}

/-- **Confinement.**  A site whose configuration has passed the checks and has the contained policy
answers by questions all of which are about paths below the document root, unless the index is `..`:
then whatever directory is requested the one above it is asked about, and nothing else.  Every file
that is sent lies below the root. -/
theorem asked_below {start : Tree} (hvalid : config.validate start = .ok ())
    (hpolicy : config.policy = .contained) (zone : Zone) (tree : Tree) (ask : H → Handler)
    (date requested : Text) (params : List Param) :
    let site := config.siteIn zone
    let path := Target.filePath .contained config.root requested
    let inquiry := site.inquiry date requested params
    inquiry.run tree ask = site.answer ask date tree requested params ∧
      (∀ question ∈ inquiry.asked tree ask, Path.Below config.root question.path ∨
        config.index = Path.above ∧ question = .stat (Path.join path Path.above)) ∧
      (config.index = Path.above → site.mount? requested = none →
        tree.isDirectory path = true →
        .stat (Path.join path Path.above) ∈ inquiry.asked tree ask ∧
          ¬ Path.Below config.root (Path.join path Path.above)) ∧
      ∀ response file size, site.answer ask date tree requested params = .ok response →
        response.body = .file file size → Path.Below config.root file := by
  intro site path inquiry
  obtain ⟨hnil, hslash⟩ := index_of_valueProblem? (validate_eq_ok_iff.1 hvalid).1
  have hbelow : Path.Below config.root path := Target.below_filePath config.root requested
  have hpath : Target.filePath site.policy site.root requested = path := by
    show Target.filePath config.policy config.root requested = path
    rw [hpolicy]
  have hindex : config.index ≠ Path.above →
      Path.Below config.root (Path.join path config.index) := hbelow.join hnil hslash
  refine ⟨Site.run_inquiry, fun question hmem => ?_, fun habove hmount hdirectory => ?_, ?_⟩
  · cases Site.mem_asked_iff.1 hmem with
    | call => exact .inl (hpath ▸ hbelow)
    | path => exact .inl (hpath ▸ hbelow)
    | inside _ _ asked =>
      rw [hpath] at asked
      cases asked with
      | index =>
        by_cases habove : config.index = Path.above
        · exact .inr ⟨habove, habove ▸ rfl⟩
        · exact .inl (hindex habove)
      | list => exact .inl hbelow
      | entry _ listed mem =>
        have hname := Tree.isName_of_list listed mem
        exact .inl (hbelow.join hname.ne_nil hname.slash_not_mem hname.ne_above)
  · have hasked : Site.Asked site tree requested params
        (.stat (Path.join (Target.filePath site.policy site.root requested) site.index)) :=
      .inside hmount (hpath ▸ hdirectory) .index
    rw [hpath, show site.index = Path.above from habove] at hasked
    exact ⟨Site.mem_asked_iff.2 hasked, hbelow.not_join_above⟩
  · intro response file size hanswer hbody
    obtain ⟨hfile, info, inode, hstat, hkind⟩ := Site.isFile_of_answer hanswer hbody
    rw [hpath] at hfile
    rcases hfile with rfl | rfl
    · exact hbelow
    · refine hindex fun habove => ?_
      rw [show site.index = Path.above from habove] at hstat
      rw [Tree.kind_of_stat_above hstat] at hkind
      cases hkind

/-- A root with a file, and an index for it. -/
def rootTree : Tree where
  entries := [([], { node := .directory, modified := 0 }),
    (["srv".toList], { node := .directory, modified := 0 }),
    (["a.txt".toList, "srv".toList], { node := .file 0, modified := 0 })]
  contents := [.ofBytes [1, 2]]
  hierarchical := by decide +kernel

def rootConfig (index : Text) : Config Unit :=
  { root := "/srv".toList, index }

/-- The questions that a request is answered by. -/
def rootAsked (index requested : Text) : List (Question Unit) :=
  ((rootConfig index).site.inquiry [] requested []).asked rootTree fun _ _ _ => .declined

lemma isDirectory_rootTree : rootTree.isDirectory "/srv".toList = true := by
  decide +kernel

theorem asked_below_rootTree :
    (rootConfig "index.html".toList).validate rootTree = .ok () ∧
      (rootConfig "index.html".toList).policy = .contained ∧
      (∀ question ∈ rootAsked "index.html".toList "/../x/..".toList,
        Path.Below "/srv".toList question.path) ∧
      (rootConfig Path.above).validate rootTree = .ok () ∧
      .stat "/srv/..".toList ∈ rootAsked Path.above "/../x/..".toList := by
  have hvalid : (rootConfig "index.html".toList).validate rootTree = .ok () :=
    validate_eq_ok_iff.2 ⟨by decide +kernel, isDirectory_rootTree⟩
  have hvalid' : (rootConfig Path.above).validate rootTree = .ok () :=
    validate_eq_ok_iff.2 ⟨by decide +kernel, isDirectory_rootTree⟩
  have hmount : ((rootConfig Path.above).site.mount? "/../x/..".toList).isNone := by
    decide +kernel
  have hpath : Target.filePath .contained "/srv".toList "/../x/..".toList = "/srv".toList := by
    decide +kernel
  obtain ⟨-, hbelow, -, -⟩ := asked_below hvalid rfl .universal rootTree
    (fun _ _ _ => .declined) [] "/../x/..".toList []
  obtain ⟨-, -, habove, -⟩ := asked_below hvalid' rfl .universal rootTree
    (fun _ _ _ => .declined) [] "/../x/..".toList []
  refine ⟨hvalid, rfl, fun question hmem => ?_, hvalid', ?_⟩
  · exact (hbelow question hmem).resolve_right fun ⟨heq, _⟩ => absurd heq (by decide +kernel)
  · exact (habove rfl (Option.isNone_iff_eq_none.1 hmount) (hpath ▸ isDirectory_rootTree)).1

/-- With an index that passes the checks a question leaves the document root. -/
theorem index_leaves_root :
    (rootConfig "..".toList).validate rootTree = .ok () ∧
      (rootConfig "..".toList).policy = .contained ∧
      .stat "/srv/..".toList ∈ rootAsked "..".toList "/".toList ∧
      Path.components "/srv/..".toList
        = Path.components (rootConfig "..".toList).root ++ [Path.above] := by
  have hmount : ((rootConfig "..".toList).site.mount? "/".toList).isNone := by decide +kernel
  have hpath : Target.filePath (rootConfig "..".toList).site.policy
      (rootConfig "..".toList).site.root "/".toList = "/srv".toList := by decide +kernel
  have hasked : Site.Asked (rootConfig "..".toList).site rootTree "/".toList []
      (.stat (Path.join "/srv".toList "..".toList)) :=
    hpath ▸ .inside (Option.isNone_iff_eq_none.1 hmount) (hpath ▸ isDirectory_rootTree) .index
  exact ⟨validate_eq_ok_iff.2 ⟨by decide +kernel, isDirectory_rootTree⟩, rfl,
    Site.mem_asked_iff.2 hasked, by decide +kernel⟩

end Config

end SiteServer
