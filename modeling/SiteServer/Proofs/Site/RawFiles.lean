import SiteServer.Proofs.Paths.Routes
import SiteServer.Proofs.Site.RouteTables
import SiteServer.Server.Config

/-!
# Files behind handlers

A request is looked up in the route table by its route, and the file that is streamed for it has a
route of its own, the one that names just this file.  Under the contained policy the two are the
same text for a request that ends in no slash and names the file itself, whatever dots and slashes
are in it, so such a file is streamed only when no handler is mounted for it.  The index file of a
directory is served in place of the directory, by the directory's route, and `Streamed` says which
handlers can be mounted for the index itself (`streamed_of_answer`); `script_streamed` is a site
where one is.
-/

namespace SiteServer

namespace Site

variable {H : Type} {site : Site H} {ask : H → Handler} {date requested path : Text} {tree : Tree}
  {params : List Param} {response : Response} {size : Nat}

lemma body_of_directoryAnswer (h : site.directoryAnswer date tree path requested = .ok response)
    {file : Text} (hbody : response.body = .file file size) : file = Path.join path site.index := by
  unfold directoryAnswer at h
  simp only at h
  split at h
  · obtain rfl := Except.ok.inj h
    simp only [served, Body.file.injEq] at hbody
    exact hbody.1.symm
  · split at h
    · obtain rfl := Except.ok.inj h
      simp at hbody
    · obtain rfl := Except.ok.inj h
      simp [ErrorPage.forbidden] at hbody
    · simp at h

/-- A file is streamed only where no handler is mounted: the file that the request names, or the
index file in the directory that it names. -/
lemma body_of_answer (h : site.answer ask date tree requested params = .ok response)
    (hbody : response.body = .file path size) :
    site.mount? requested = none ∧
      (path = Target.filePath site.policy site.root requested ∨
        path = Path.join (Target.filePath site.policy site.root requested) site.index) := by
  unfold answer at h
  simp only at h
  split at h
  · split at h
    · obtain rfl := Except.ok.inj h
      simp [handled] at hbody
    · obtain rfl := Except.ok.inj h
      simp [ErrorPage.notFound] at hbody
    · simp at h
  · next hmount =>
    refine ⟨hmount, ?_⟩
    unfold fileAnswer at h
    split at h
    · obtain rfl := Except.ok.inj h
      unfold errorPage at hbody
      split at hbody <;> simp [ErrorPage.forbidden, ErrorPage.notFound] at hbody
    · split at h
      · obtain rfl := Except.ok.inj h
        simp only [served, Body.file.injEq] at hbody
        exact .inl hbody.1.symm
      · obtain rfl := Except.ok.inj h
        simp [ErrorPage.forbidden] at hbody
      · exact .inr (body_of_directoryAnswer h hbody)

/-- A file that is named is streamed where no handler is mounted. -/
lemma answer_of_file (hmount : site.mount? requested = none)
    (hpath : Target.filePath site.policy site.root requested = path) {info : Info} {inode : Nat}
    (hstat : tree.stat path = .ok info) (hkind : info.kind = .file inode size) :
    site.answer ask date tree requested params = .ok (served date path size) := by
  simp only [answer, hmount, fileAnswer, hpath, hstat, hkind]

/-- A directory with an index file is answered with this file where no handler is mounted. -/
lemma answer_of_index (hmount : site.mount? requested = none) {dir : Text}
    (hpath : Target.filePath site.policy site.root requested = dir)
    (hjoin : Path.join dir site.index = path) {info fileInfo : Info} {inode : Nat}
    (hstat : tree.stat dir = .ok info) (hkind : info.kind = .directory)
    (hfile : tree.stat path = .ok fileInfo) (hfileKind : fileInfo.kind = .file inode size) :
    site.answer ask date tree requested params = .ok (served date path size) := by
  obtain ⟨kind, modified, readable, location⟩ := fileInfo
  obtain rfl : kind = .file inode size := hfileKind
  simp only [answer, hmount, fileAnswer, hpath, hstat, hkind, directoryAnswer, hjoin, hfile]

end Site

namespace Config

variable {H : Type}

/-- How a file comes to be streamed, and which handlers are mounted for its own route. -/
inductive Streamed (config : Config H) (requested : Text) : Text → Prop where
  /-- The request names the file: there is none unless the request ends in a slash, and none that is
  mounted on a directory even then. -/
  | named
      (unrouted : Target.segments requested = [] ∨ requested.getLast? ≠ some '/' →
        config.routes.lookup (Target.fileRoute (Target.segments requested)) = none)
      (outside : ∀ mount dir,
        config.routes.lookup (Target.fileRoute (Target.segments requested)) = some mount →
        mount.route ≠ .dir dir) :
      Streamed config requested (Path.joinAll config.root (Target.segments requested))
  /-- The file is the index of the directory that the request names: one that is mounted on the path
  of the index or on its extension, but none that is mounted on a directory, unless it is this one
  and the request leaves the slash at its end out. -/
  | index (handlers : ∀ mount, config.routes.lookup
          (Target.fileRoute (Target.segments requested ++ [config.index])) = some mount →
        mount.route = .path (Target.fileRoute (Target.segments requested ++ [config.index])) ∨
          (∃ extension, mount.route = .extension extension) ∨
          requested.getLast? ≠ some '/' ∧ Target.segments requested ≠ [] ∧
            ∃ dir, mount.route = .dir dir ∧
              RouteTable.closed dir = Target.dirRoute (Target.segments requested)) :
      Streamed config requested
        (Path.joinAll config.root (Target.segments requested ++ [config.index]))

section

variable {config : Config H} {requested : Text}

lemma streamed_named (hkeyed : config.routes.Keyed)
    (hunrouted : config.routes.lookup (Target.route .contained requested) = none) :
    Streamed config requested (Path.joinAll config.root (Target.segments requested)) := by
  have hfile (hslash : Target.segments requested = [] ∨ requested.getLast? ≠ some '/') :
      config.routes.lookup (Target.fileRoute (Target.segments requested)) = none := by
    rwa [Target.route_of_no_slash hslash] at hunrouted
  refine .named hfile fun mount directory hmount hroute => ?_
  by_cases hslash : Target.segments requested = [] ∨ requested.getLast? ≠ some '/'
  · simp [hfile hslash] at hmount
  · obtain ⟨hne, hlast⟩ := not_or.1 hslash
    cases RouteTable.found_of_lookup hkeyed hmount with
    | path route | extension route => simp [hroute] at route
    | dir _ mem below =>
      -- a directory that begins the file's route begins the request's route as well
      have hrequest : Target.route .contained requested
          = Target.fileRoute (Target.segments requested) ++ ['/'] := by
        rw [Target.route_of_slash (not_not.1 hlast), Target.dirRoute_of_ne_nil hne]
      rw [hrequest] at hunrouted
      exact absurd (below.trans (List.prefix_append _ _))
        (RouteTable.not_prefix_of_lookup_eq_none hunrouted mem)

lemma streamed_index (hkeyed : config.routes.Keyed) (hindex : '/' ∉ config.index)
    (hunrouted : config.routes.lookup (Target.route .contained requested) = none) :
    Streamed config requested
      (Path.joinAll config.root (Target.segments requested ++ [config.index])) := by
  refine .index fun mount hmount => ?_
  cases RouteTable.found_of_lookup hkeyed hmount with
  | path route => exact .inl route
  | extension route => exact .inr (.inl ⟨_, route⟩)
  | @dir dir route mem below =>
    rw [Target.fileRoute_concat] at below
    have hbelow := Target.prefix_of_prefix_append (RouteTable.getLast?_closed dir) hindex below
    have hnot := RouteTable.not_prefix_of_lookup_eq_none hunrouted mem
    -- with the slash at its end the request would be routed to this directory
    have hslash : requested.getLast? ≠ some '/' := fun hlast => by
      rw [Target.route_of_slash hlast] at hnot
      exact hnot hbelow
    rw [Target.route_of_no_slash (.inr hslash)] at hnot
    have hne : Target.segments requested ≠ [] := fun hnil => by
      rw [hnil] at hbelow hnot
      exact hnot hbelow
    rw [Target.dirRoute_of_ne_nil hne, List.prefix_concat_iff] at hbelow
    have heq := hbelow.resolve_right hnot
    rw [← Target.dirRoute_of_ne_nil hne] at heq
    exact .inr (.inr ⟨hslash, hne, dir, route, heq⟩)

/-- Under the contained policy a file is streamed only to a request whose route has no handler, and
then it is the file that the request names or the index file of the directory that it names, with
no other handlers for its own route than `Streamed` says. -/
theorem streamed_of_answer {mounts : List (Mount H)} (hvalues : config.valueProblem? = none)
    (hpolicy : config.policy = .contained) (hroutes : config.routes = .ofMounts mounts)
    {zone : Zone} {ask : H → Handler} {date path : Text} {tree : Tree} {params : List Param}
    {response : Response} {size : Nat}
    (hanswer : (config.siteIn zone).answer ask date tree requested params = .ok response)
    (hbody : response.body = .file path size) :
    config.routes.lookup (Target.route .contained requested) = none ∧
      Streamed config requested path := by
  have hkeyed : config.routes.Keyed := hroutes ▸ RouteTable.keyed_ofMounts mounts
  obtain ⟨hmount, hpath⟩ := Site.body_of_answer hanswer hbody
  have hunrouted : config.routes.lookup (Target.route .contained requested) = none := by
    rw [← hpolicy]
    exact hmount
  have hfile : Target.filePath (config.siteIn zone).policy (config.siteIn zone).root requested
      = Path.joinAll config.root (Target.segments requested) := by
    have hcontained : (config.siteIn zone).policy = .contained := hpolicy
    rw [hcontained]
    rfl
  refine ⟨hunrouted, ?_⟩
  rw [hfile] at hpath
  rcases hpath with rfl | rfl
  · exact streamed_named hkeyed hunrouted
  · have hjoin : Path.join (Path.joinAll config.root (Target.segments requested)) config.index
        = Path.joinAll config.root (Target.segments requested ++ [config.index]) := by
      rw [Path.joinAll_append]
      rfl
    change Streamed config requested
      (Path.join (Path.joinAll config.root (Target.segments requested)) config.index)
    rw [hjoin]
    exact streamed_index hkeyed (index_of_valueProblem? hvalues).2 hunrouted

end

/-- A site whose index is a script that a handler is mounted for. -/
def scriptMounts : List (Mount Unit) :=
  [⟨"php".toList, .extension "php".toList, ()⟩]

def scriptConfig : Config Unit :=
  { root := ['/'], index := "index.php".toList, routes := .ofMounts scriptMounts }

def scriptTree : Tree where
  entries := [([], { node := .directory, modified := 0 }),
    (["index.php".toList], { node := .file 0, modified := 0 }),
    (["a.txt".toList], { node := .file 1, modified := 0 })]
  contents := [.ofBytes [1, 2, 3], .ofBytes [4, 5]]
  hierarchical := by decide +kernel

/-- What the site answers. -/
def scriptAnswer (requested : Text) : Except Failure Response :=
  scriptConfig.site.answer (fun _ _ _ => .declined) [] scriptTree requested []

theorem streamed_of_answer_scripts :
    scriptConfig.valueProblem? = none ∧ scriptConfig.policy = .contained ∧
      scriptConfig.routes = .ofMounts scriptMounts ∧
      scriptAnswer "//./a.txt".toList = .ok (Site.served [] "/a.txt".toList 2) ∧
      (Site.served [] "/a.txt".toList 2).body = .file "/a.txt".toList 2 ∧
      scriptConfig.routes.lookup (Target.route .contained "//./a.txt".toList) = none ∧
      Streamed scriptConfig "//./a.txt".toList "/a.txt".toList := by
  have hvalues : scriptConfig.valueProblem? = none := by decide
  have hmount : (scriptConfig.site.mount? "//./a.txt".toList).isNone := by decide +kernel
  have hstat : scriptTree.stat "/a.txt".toList = .ok ⟨.file 1 2, 0, true, ["a.txt".toList]⟩ := by
    decide +kernel
  have hanswer : scriptAnswer "//./a.txt".toList = .ok (Site.served [] "/a.txt".toList 2) :=
    Site.answer_of_file (Option.isNone_iff_eq_none.1 hmount) (by decide +kernel) hstat rfl
  exact ⟨hvalues, rfl, rfl, hanswer, rfl, streamed_of_answer hvalues rfl rfl hanswer rfl⟩

/-- A file for whose own route a handler is mounted is streamed all the same, as the index of its
directory. -/
theorem script_streamed :
    scriptConfig.validate scriptTree = .ok () ∧ scriptConfig.policy = .contained ∧
      scriptConfig.routes = .ofMounts scriptMounts ∧
      scriptAnswer "/".toList = .ok (Site.served [] "/index.php".toList 3) ∧
      (Site.served [] "/index.php".toList 3).body
        = .file (Path.joinAll scriptConfig.root ["index.php".toList]) 3 ∧
      (scriptConfig.routes.lookup (Target.fileRoute ["index.php".toList])).map Mount.name
        = some "php".toList := by
  have hstat : scriptTree.stat "/".toList = .ok ⟨.directory, 0, true, []⟩ := by decide +kernel
  have hindex : scriptTree.stat "/index.php".toList
      = .ok ⟨.file 0 3, 0, true, ["index.php".toList]⟩ := by decide +kernel
  have hvalid : scriptConfig.validate scriptTree = .ok () :=
    validate_eq_ok_iff.2 ⟨by decide, by decide +kernel⟩
  have hroot : (scriptConfig.site.mount? "/".toList).isNone := by decide +kernel
  refine ⟨hvalid, rfl, rfl, ?_, by decide +kernel, by decide +kernel⟩
  exact Site.answer_of_index (Option.isNone_iff_eq_none.1 hroot) (by decide +kernel)
    (by decide +kernel) hstat rfl hindex rfl

end Config

end SiteServer
