import Mathlib.Data.List.DropRight
import SiteServer.Proofs.Http.LiteralTargets
import SiteServer.Proofs.Paths.Lengths
import SiteServer.Proofs.Site.Answers
import SiteServer.Proofs.Site.ListingPage
import SiteServer.Proofs.Storage.Hierarchy

/-!
# Where the links of a listing lead

A link is the requested path and the name of an entry as they are, escaped for the page alone.  As a
target it is decoded once more and cut at its first question mark.  So it leads to its entry when it
is literal, and when it is not, decoding or cutting has taken characters away: what is left is too
short to come to the name (`length_le_of_segments`) or to the whole route (`weight_segments_le`).
-/

namespace SiteServer

namespace Listing

open SiteServer.Path (IsName)
open SiteServer.Escape (IsLiteral decode)
open SiteServer.Target (filePath route segments fileRoute dirRoute weight)

variable {zone : Zone} {tree : Tree} {root directory name : Text} {row : Shown}
  {rows : List Row}

/-! ### What links begin with -/

lemma stem_eq (directory : Text) : stem directory = directory.rdropWhile (· = '/') := rfl

/-- The requested path is what its links begin with, and slashes, and decoding leaves the slashes
alone. -/
lemma exists_slashes (directory : Text) :
    ∃ count, directory = stem directory ++ List.replicate count '/' ∧
      decode directory = decode (stem directory) ++ List.replicate count '/' := by
  have hslashes : directory.rtakeWhile (· = '/') =
      List.replicate (directory.rtakeWhile (· = '/')).length '/' :=
    List.eq_replicate_of_mem fun c hmem => by simpa using List.mem_rtakeWhile_imp hmem
  obtain ⟨count, hcount⟩ : ∃ count, directory = stem directory ++ List.replicate count '/' :=
    ⟨_, by rw [← hslashes, stem_eq, List.rdropWhile_append_rtakeWhile]⟩
  refine ⟨count, hcount, ?_⟩
  rcases count with _ | count
  · rw [List.replicate_zero, List.append_nil] at hcount ⊢
    rw [← hcount]
  · have hcodes : ∀ code ∈ Escape.table, ¬ code.text <:+: List.replicate count '/' := by
      intro code _ hwithin
      have hpercent := List.eq_of_mem_replicate (hwithin.subset (List.mem_cons_self (a := '%')))
      exact absurd hpercent (by decide)
    rw [List.replicate_succ, ← Escape.decode_slash_append hcodes, ← List.replicate_succ, ← hcount]

lemma segments_stem (directory : Text) : segments (stem directory) = segments directory := by
  obtain ⟨count, hcount, -⟩ := exists_slashes directory
  conv_rhs => rw [hcount, Target.segments_append_slashes]

/-! ### Where links lead -/

/-- A row's link leads to its entry: requested as a target, it names the path of the directory with
the entry's name joined on. -/
def Opens (root directory : Text) (row : Shown) : Prop :=
  Path.Same (filePath .contained root (Request.splitTarget row.link).1)
    (Path.join (filePath .contained root directory) row.name)

/-- The segments of a directory and a name in it are names. -/
lemma isName_of_mem_concat (hname : IsName name) :
    ∀ part ∈ segments directory ++ [name], IsName part := by
  intro part hmem
  rcases List.mem_append.1 hmem with hmem | hmem
  · exact Target.isName_of_mem_segments hmem
  · rwa [List.mem_singleton.1 hmem]

lemma opens_iff (hname : IsName row.name) : Opens root directory row ↔
    segments (Request.splitTarget row.link).1 = segments directory ++ [row.name] := by
  have hpath : Path.join (filePath .contained root directory) row.name =
      Path.joinAll root (segments directory ++ [row.name]) :=
    (Path.joinAll_append root (segments directory) [row.name]).symm
  rw [Opens, hpath]
  exact Path.same_joinAll_iff (fun part => Target.isName_of_mem_segments)
    (isName_of_mem_concat hname) root

/-- A literal link leads where it says. -/
lemma segments_of_literal (hname : IsName name) (h : IsLiteral (link (stem directory) name)) :
    segments (Request.splitTarget (link (stem directory) name)).1
      = segments directory ++ [name] := by
  rw [Request.splitTarget_of_isLiteral h, link, Target.segments_append_name hname, segments_stem]

/-- A literal name is not touched, and then the link leads to the entry exactly when the requested
path still resolves to the directory after it has been decoded once more. -/
lemma segments_of_literal_name (hname : IsName name) (hliteral : IsLiteral name)
    (hquestion : '?' ∉ decode directory) :
    segments (Request.splitTarget (link (stem directory) name)).1 = segments directory ++ [name] ↔
      segments (decode directory) = segments directory := by
  obtain ⟨count, -, hcount⟩ := exists_slashes directory
  have hdecode : decode (link (stem directory) name) = decode (stem directory) ++ '/' :: name :=
    Escape.decode_slash_append hliteral.codes (stem directory)
  have hnone : '?' ∉ decode (link (stem directory) name) := by
    rw [hcount] at hquestion
    have hstem := mt (List.mem_append_left _) hquestion
    simp [hdecode, hstem, hliteral.question]
  rw [Request.splitTarget_of_not_mem hnone, hdecode, Target.segments_append_name hname,
    List.append_cancel_right_eq, hcount, Target.segments_append_slashes]

/-- In a literal directory it is the name that decides. -/
lemma segments_iff_name (hname : IsName name) (hliteral : IsLiteral directory) :
    segments (Request.splitTarget (link (stem directory) name)).1 = segments directory ++ [name] ↔
      IsLiteral name := by
  constructor
  · intro h
    obtain ⟨count, hcount, -⟩ := exists_slashes directory
    have hstem : IsLiteral (stem directory) :=
      hliteral.within ⟨[], List.replicate count '/', hcount.symm⟩
    have hdecode : decode (link (stem directory) name) = stem directory ++ '/' :: decode name :=
      Escape.decode_append_slash hstem.codes name
    have hplain : ∀ c ∈ stem directory, decide (c ≠ '?') = true := fun c hmem =>
      decide_eq_true (ne_of_mem_of_not_mem hmem hstem.question)
    rw [Request.splitTarget_fst, hdecode, List.takeWhile_append_of_pos hplain,
      List.takeWhile_cons_of_pos (by decide), ← segments_stem directory] at h
    exact Request.isLiteral_of_length_le (Target.length_le_of_segments h)
  · intro h
    have hdecode := Escape.decode_eq_self hliteral.codes
    rw [segments_of_literal_name hname h (hdecode.symm ▸ hliteral.question), hdecode]

/-- A requested path that is its own route has the route of an entry as its link. -/
lemma link_of_route (name : Text) (hroute : route .contained directory = directory) :
    link (stem directory) name = fileRoute (segments directory ++ [name]) := by
  by_cases hnil : segments directory = []
  · have hdirectory : directory = ['/'] := by
      rw [← hroute, Target.route_of_no_slash (.inl hnil), hnil]
      rfl
    rw [hnil, hdirectory]
    simp [fileRoute, link, stem, Text.dropEndWhile, List.intercalate]
  · have hlast := Target.getLast?_fileRoute hnil fun part => Target.isName_of_mem_segments
    have hself : (fileRoute (segments directory)).rdropWhile (· = '/') =
        fileRoute (segments directory) := by
      refine List.rdropWhile_eq_self_iff.2 fun hne hslash => hlast ?_
      rw [List.getLast?_eq_some_getLast hne, of_decide_eq_true hslash]
    have hstem : stem directory = fileRoute (segments directory) := by
      rcases Target.route_cases directory with hcase | ⟨-, hcase⟩
      · exact (congrArg stem (hroute.symm.trans hcase)).trans hself
      · refine (congrArg stem (hroute.symm.trans hcase)).trans ?_
        rw [stem_eq, List.rdropWhile_concat_pos _ _ _ (by decide), hself]
    rw [Target.fileRoute_concat, Target.dirRoute_of_ne_nil hnil, link, hstem, List.append_assoc,
      List.singleton_append]

/-- In a directory that is requested by its route the whole link decides. -/
lemma segments_iff_link (hname : IsName name) (hroute : route .contained directory = directory) :
    segments (Request.splitTarget (link (stem directory) name)).1 = segments directory ++ [name] ↔
      IsLiteral (link (stem directory) name) := by
  refine ⟨fun h => ?_, segments_of_literal hname⟩
  have hlink := link_of_route name hroute
  have hlength : (fileRoute (segments directory ++ [name])).length =
      weight (segments directory ++ [name]) :=
    Target.length_fileRoute (by simp) (isName_of_mem_concat hname)
  have hempty : ∀ code ∈ Escape.table, ¬ code.text <:+: [] := by decide
  have hdecode : decode (fileRoute (segments directory ++ [name])) =
      '/' :: decode (['/'].intercalate (segments directory ++ [name])) :=
    Escape.decode_append_slash hempty _
  rw [hlink] at h ⊢
  refine Request.isLiteral_of_length_le ?_
  rw [Request.splitTarget_fst, hdecode, List.takeWhile_cons_of_pos (by decide)] at h
  have hle := Target.weight_segments_le
    ((decode (['/'].intercalate (segments directory ++ [name]))).takeWhile (· ≠ '?'))
  rw [h, ← hlength] at hle
  rwa [hdecode, List.takeWhile_cons_of_pos (by decide), List.length_cons]

/-- **Which links of a listing lead to their entries.**  The links are read off the page.  One with
a literal name does, if the requested path still names the directory after it has been decoded once
more; in a directory that is requested by a literal path, those with a literal name do and no
others; and in one that is requested by its own route, those that are literal as a whole. -/
theorem opens_iff_literal
    (hrows : Listing.rows zone tree (filePath .contained root directory) = .ok rows) :
    read? (page directory rows) = some ⟨directory, rows.map (shown directory)⟩ ∧
      ∀ row ∈ rows.map (shown directory),
        (IsLiteral row.name → '?' ∉ decode directory → (Opens root directory row ↔
          Path.Same (filePath .contained root (decode directory))
            (filePath .contained root directory))) ∧
        (IsLiteral directory → (Opens root directory row ↔ IsLiteral row.name)) ∧
        (route .contained directory = directory →
          (Opens root directory row ↔ IsLiteral row.link)) := by
  have hplain : ∀ row ∈ rows, Markup.IsPlain row.modified ∧ IsName row.name := by
    obtain ⟨names, hlist, rfl⟩ := rows_eq_ok_iff.1 hrows
    exact fun row hmem => ⟨isPlain_modified hmem, Tree.isName_of_list hlist (mem_rowsOf.1 hmem).1⟩
  refine ⟨read?_page directory fun row hmem => (hplain row hmem).1, ?_⟩
  intro row hmem
  obtain ⟨entry, hentry, rfl⟩ := List.mem_map.1 hmem
  have hname := (hplain entry hentry).2
  have hopens : Opens root directory (shown directory entry) ↔
      segments (Request.splitTarget (link (stem directory) entry.name)).1
        = segments directory ++ [entry.name] := opens_iff hname
  have hsame : Path.Same (filePath .contained root (decode directory))
      (filePath .contained root directory) ↔ segments (decode directory) = segments directory :=
    Path.same_joinAll_iff (fun part => Target.isName_of_mem_segments)
      (fun part => Target.isName_of_mem_segments) root
  refine ⟨fun hliteral hquestion => ?_, fun hliteral => ?_, fun hroute => ?_⟩
  · rw [hopens, hsame, segments_of_literal_name hname hliteral hquestion]
  · exact hopens.trans (segments_iff_name hname hliteral)
  · exact hopens.trans (segments_iff_link hname hroute)

/-- A file and another one whose name is the first one's with its space escaped. -/
def escapedTree : Tree where
  entries := [([], { node := .directory, modified := 0 }),
    (["www".toList], { node := .directory, modified := 0 }),
    (["a b".toList, "www".toList], { node := .file 0, modified := 0 }),
    (["a%20b".toList, "www".toList], { node := .file 1, modified := 0 })]
  contents := [.ofBytes [1], .ofBytes [2]]
  hierarchical := by decide +kernel

/-- The rows of its directory. -/
def escapedRows : List Row :=
  [⟨"a b".toList, "01/01/1970 00:00:00".toList, some 1⟩,
    ⟨"a%20b".toList, "01/01/1970 00:00:00".toList, some 1⟩]

lemma rows_escapedTree :
    Listing.rows .universal escapedTree (filePath .contained "/www".toList "/".toList)
      = .ok escapedRows := by
  let names := ["a b".toList, "a%20b".toList]
  have hpath : filePath .contained "/www".toList "/".toList = "/www".toList := by decide +kernel
  have hlist : escapedTree.list "/www".toList = .ok names := by decide +kernel
  have hfound : (names.filter (!isHidden ·)).filterMap (row? .universal escapedTree "/www".toList)
      = escapedRows := by
    decide +kernel
  rw [hpath]
  refine rows_eq_ok_iff.2 ⟨names, hlist, ?_⟩
  rw [← hfound]
  exact rowsOf_of_pairwise (hfound ▸ by decide +kernel)

theorem opens_iff_literal_escapedTree :
    Listing.rows .universal escapedTree (filePath .contained "/www".toList "/".toList)
        = .ok escapedRows ∧
      Opens "/www".toList "/".toList (shown "/".toList escapedRows[0]) ∧
      ¬ Opens "/www".toList "/".toList (shown "/".toList escapedRows[1]) := by
  obtain ⟨-, hopens⟩ := opens_iff_literal rows_escapedTree
  have hliteral : IsLiteral "/".toList := by decide +kernel
  refine ⟨rows_escapedTree, ?_, ?_⟩
  · exact ((hopens _ (by simp [escapedRows])).2.1 hliteral).2 (by decide +kernel)
  · rw [(hopens _ (by simp [escapedRows])).2.1 hliteral]
    decide +kernel

/-- A site over it, without handlers. -/
def escapedSite : Site Unit where
  root := "/www".toList
  index := "index.html".toList
  policy := .contained
  routes := {}
  zone := .universal

/-- Not every link leads to its entry: the entry whose name holds an escape is listed, and its link
names the other file. -/
theorem escaped_link_misses :
    escapedSite.policy = .contained ∧
      escapedSite.answer (fun _ _ _ => .declined) [] escapedTree "/".toList []
        = .ok (Site.listed [] "/".toList escapedRows) ∧
      ∃ row ∈ escapedRows.map (shown "/".toList), row.name = "a%20b".toList ∧
        ¬ Opens escapedSite.root "/".toList row ∧
        filePath .contained escapedSite.root (Request.splitTarget row.link).1
          = Path.join (filePath .contained escapedSite.root "/".toList) "a b".toList := by
  have hroot : filePath .contained escapedSite.root "/".toList = "/www".toList := by decide +kernel
  have hstat : escapedTree.stat "/www".toList = .ok ⟨.directory, 0, true, ["www".toList]⟩ := by
    decide +kernel
  have hindex : escapedTree.stat (Path.join "/www".toList escapedSite.index)
      = .error .notFound := by decide +kernel
  have hrows : Listing.rows escapedSite.zone escapedTree "/www".toList = .ok escapedRows :=
    rows_escapedTree
  have hlink : (Request.splitTarget (shown "/".toList escapedRows[1]).link).1 = "/a b".toList := by
    decide +kernel
  have hname : IsName (shown "/".toList escapedRows[1]).name := by decide +kernel
  refine ⟨rfl, ?_, shown "/".toList escapedRows[1], by simp [escapedRows], rfl, ?_, ?_⟩
  · have hmount : escapedSite.mount? "/".toList = none := rfl
    have hpolicy : escapedSite.policy = .contained := rfl
    simp only [Site.answer, hmount, hpolicy, hroot, Site.fileAnswer, hstat, Site.directoryAnswer,
      hindex, hrows]
    rfl
  · rw [opens_iff hname, hlink]
    decide +kernel
  · rw [hlink]
    decide +kernel

end Listing

end SiteServer
