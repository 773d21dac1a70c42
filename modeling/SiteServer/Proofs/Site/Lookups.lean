import Mathlib.Data.List.Dedup
import SiteServer.Proofs.Site.Registrations

/-!
# What a table finds

A table answers a path by what has been registered, and nothing but the last mount on each route
matters: the lists that it is kept in are no more than a way to get at it.  `Chosen` tells the mount
of a path from the registrations alone, with one rule for each kind of route and one for a path that
has no mount, and looking up finds what the rules choose (`lookup_eq_iff_chosen`).
-/

namespace SiteServer

namespace Text

variable {α : Type} [DecidableEq α] {sep : α} {before after : List α}

lemma splitLast?_append_sep (h : sep ∉ after) (before : List α) :
    splitLast? sep (before ++ sep :: after) = some (before, after) := by
  induction before with
  | nil => simp [splitLast?, splitLast?_eq_none_iff.2 h]
  | cons c rest ih => simp [splitLast?, ih]

/-- What follows without a separator goes on behind the last one. -/
lemma afterLast_append (h : sep ∉ after) (before : List α) :
    afterLast sep (before ++ after) = afterLast sep before ++ after := by
  rcases hsplit : splitLast? sep before with _ | ⟨front, last⟩
  · have hnone : splitLast? sep (before ++ after) = none := by
      rw [splitLast?_eq_none_iff] at hsplit ⊢
      simp [hsplit, h]
    simp only [afterLast, hsplit, hnone]
  · obtain ⟨rfl, hlast⟩ := splitLast?_eq_some hsplit
    have hnot : sep ∉ last ++ after := by simp [hlast, h]
    have hsome := splitLast?_append_sep hnot front
    simp only [afterLast, hsplit, List.append_assoc, List.cons_append, hsome]

lemma afterLast_spec (sep : α) (list : List α) :
    sep ∉ afterLast sep list ∧ afterLast sep list <:+ list := by
  rcases hsplit : splitLast? sep list with _ | ⟨front, last⟩
  · simp only [afterLast, hsplit]
    exact ⟨splitLast?_eq_none_iff.1 hsplit, List.suffix_rfl⟩
  · obtain ⟨rfl, hlast⟩ := splitLast?_eq_some hsplit
    simp only [afterLast, hsplit]
    exact ⟨hlast, front ++ [sep], by simp⟩

end Text

namespace RouteTable

variable {H : Type} {table : RouteTable H} {mounts : List (Mount H)} {mount : Mount H}
  {route : Route} {path key : Text}

/-- The extension of a path stands behind a dot at its end, with no other dot and no slash in it. -/
theorem extension?_eq_some_iff :
    extension? path = some key ↔ ∃ front, path = front ++ '.' :: key ∧ '.' ∉ key ∧ '/' ∉ key := by
  constructor
  · intro h
    obtain ⟨⟨stem, _⟩, hsplit, rfl⟩ := Option.map_eq_some_iff.1 h
    obtain ⟨hname, hdot⟩ := Text.splitLast?_eq_some hsplit
    obtain ⟨hslash, front, hpath⟩ := Text.afterLast_spec '/' path
    rw [hname] at hslash hpath
    exact ⟨front ++ stem, by simp [← hpath], hdot, fun hmem => hslash (by simp [hmem])⟩
  · rintro ⟨front, rfl, hdot, hslash⟩
    have hafter : '/' ∉ '.' :: key := by simp [hslash]
    have hname := Text.afterLast_append hafter front
    rw [extension?, hname, Text.splitLast?_append_sep hdot]
    rfl

/-! ### What is chosen for a path -/

/-- The mount that answers a path, told by the registrations: the last one on this very path; where
there is none, the last one on the longest of the directories that begin the path; where there is
none either, the last one on the extension that the path ends with. -/
inductive Chosen (mounts : List (Mount H)) (path : Text) : Option (Mount H) → Prop where
  | path {mount : Mount H} (last : IsLast mounts (.path path) mount) :
      Chosen mounts path (some mount)
  | dir {dir : Text} {mount : Mount H} (no_path : IsFree mounts (.path path))
      (last : IsLast mounts (.dir dir) mount) (begins : dir <+: path)
      (longest : ∀ other, ¬ IsFree mounts (.dir other) → other <+: path →
        other.length ≤ dir.length) :
      Chosen mounts path (some mount)
  /-- The extension stands behind the last dot of the last segment. -/
  | extension {front extension : Text} {mount : Mount H} (no_path : IsFree mounts (.path path))
      (no_dir : ∀ dir, dir <+: path → IsFree mounts (.dir dir))
      (ends : path = front ++ '.' :: extension) (no_dot : '.' ∉ extension)
      (no_slash : '/' ∉ extension) (last : IsLast mounts (.extension extension) mount) :
      Chosen mounts path (some mount)
  | none (no_path : IsFree mounts (.path path))
      (no_dir : ∀ dir, dir <+: path → IsFree mounts (.dir dir))
      (no_extension : ∀ front extension, path = front ++ '.' :: extension → '.' ∉ extension →
        '/' ∉ extension → IsFree mounts (.extension extension)) :
      Chosen mounts path none

lemma get?_paths (mounts : List (Mount H)) (path : Text) :
    get? path (ofMounts mounts).paths = last? mounts (.path path) :=
  (keeps_ofMounts mounts).paths.get?_eq path

lemma get?_extensions (mounts : List (Mount H)) (key : Text) :
    get? key (ofMounts mounts).extensions = last? mounts (.extension key) :=
  (keeps_ofMounts mounts).extensions.get?_eq key

lemma mem_dirs_iff : (key, mount) ∈ (ofMounts mounts).dirs ↔ IsLast mounts (.dir key) mount := by
  rw [(keeps_ofMounts mounts).dirs.mem_iff, last?_eq_some_iff]

/-- The directory that a path is looked up below. -/
def dirFor? (table : RouteTable H) (path : Text) : Option (Text × Mount H) :=
  table.dirs.find? (·.1.isPrefixOf path)

lemma dirFor?_eq_none (h : ∀ dir, dir <+: path → IsFree mounts (.dir dir)) :
    (ofMounts mounts).dirFor? path = none := by
  refine List.find?_eq_none.2 fun entry hmem hbegins => ?_
  have hfree := h entry.1 (List.isPrefixOf_iff_prefix.1 hbegins)
  obtain ⟨before, after, rfl, hroute, -⟩ := mem_dirs_iff.1 hmem
  exact hfree entry.2 (by simp) hroute

lemma dirFor?_eq_some {entry : Text × Mount H} (h : (ofMounts mounts).dirFor? path = some entry) :
    IsLast mounts (.dir entry.1) entry.2 ∧ entry.1 <+: path ∧
      ∀ other, ¬ IsFree mounts (.dir other) → other <+: path → other <+: entry.1 := by
  refine ⟨mem_dirs_iff.1 (List.mem_of_find?_eq_some h), ?_, fun other hused hbegins => ?_⟩
  · have hbegins := List.find?_some h
    exact List.isPrefixOf_iff_prefix.1 hbegins
  · obtain ⟨last, hlast⟩ := Option.ne_none_iff_exists'.1 (mt last?_eq_none_iff.1 hused)
    have hmem : (other, last) ∈ (ofMounts mounts).dirs := mem_dirs_iff.2 (last?_eq_some_iff.1 hlast)
    exact (ordered_ofMounts mounts).prefix_of_find? h hmem hbegins

/-- A directory that begins the path and than which none is longer is the one that is found. -/
lemma dirFor?_of_longest (last : IsLast mounts (.dir key) mount) (begins : key <+: path)
    (longest : ∀ other, ¬ IsFree mounts (.dir other) → other <+: path →
      other.length ≤ key.length) :
    (ofMounts mounts).dirFor? path = some (key, mount) := by
  have hused : ∀ {dir : Text} {mount : Mount H}, IsLast mounts (.dir dir) mount →
      ¬ IsFree mounts (.dir dir) := by
    rintro dir mount ⟨before, after, rfl, hroute, -⟩ hfree
    exact hfree mount (by simp) hroute
  rcases hfind : (ofMounts mounts).dirFor? path with _ | ⟨dir, found⟩
  · have hnone := List.find?_eq_none.1 hfind _ (mem_dirs_iff.2 last)
    exact absurd (List.isPrefixOf_iff_prefix.2 begins) hnone
  · obtain ⟨hlast, hbegins, hlonger⟩ := dirFor?_eq_some hfind
    obtain rfl : key = dir :=
      (hlonger key (hused last) begins).eq_of_length_le (longest dir (hused hlast) hbegins)
    rw [← last?_eq_some_iff] at last hlast
    rw [Option.some.inj (last.symm.trans hlast)]

lemma Chosen.lookup_eq {result : Option (Mount H)} (h : Chosen mounts path result) :
    (ofMounts mounts).lookup path = result := by
  have hlookup : (ofMounts mounts).lookup path
      = (last? mounts (.path path)).or
          ((((ofMounts mounts).dirFor? path).map Prod.snd).or
            ((extension? path).bind fun key => last? mounts (.extension key))) := by
    simp only [lookup, dirFor?, get?_paths, get?_extensions]
  rw [hlookup]
  cases h with
  | path last => rw [last?_eq_some_iff.2 last, Option.some_or]
  | dir no_path last begins longest =>
    rw [last?_eq_none_iff.2 no_path, dirFor?_of_longest last begins longest]
    rfl
  | extension no_path no_dir ends no_dot no_slash last =>
    rw [last?_eq_none_iff.2 no_path, dirFor?_eq_none no_dir,
      extension?_eq_some_iff.2 ⟨_, ends, no_dot, no_slash⟩]
    exact last?_eq_some_iff.2 last
  | none no_path no_dir no_extension =>
    rw [last?_eq_none_iff.2 no_path, dirFor?_eq_none no_dir]
    rcases hextension : extension? path with _ | key
    · rfl
    · obtain ⟨front, ends, no_dot, no_slash⟩ := extension?_eq_some_iff.1 hextension
      exact last?_eq_none_iff.2 (no_extension front key ends no_dot no_slash)

lemma exists_chosen (mounts : List (Mount H)) (path : Text) :
    ∃ result, Chosen mounts path result := by
  -- the stores are asked in the order in which they are searched
  rcases hpath : last? mounts (.path path) with _ | mount
  swap
  · exact ⟨_, .path (last?_eq_some_iff.1 hpath)⟩
  have no_path := last?_eq_none_iff.1 hpath
  rcases hdir : (ofMounts mounts).dirFor? path with _ | entry
  swap
  · obtain ⟨hlast, hbegins, hlonger⟩ := dirFor?_eq_some hdir
    exact ⟨_, .dir no_path hlast hbegins fun other hused hother =>
      (hlonger other hused hother).length_le⟩
  have no_dir : ∀ dir, dir <+: path → IsFree mounts (.dir dir) := by
    intro dir hbegins
    by_contra hused
    obtain ⟨last, hlast⟩ := Option.ne_none_iff_exists'.1 (mt last?_eq_none_iff.1 hused)
    have hnot := List.find?_eq_none.1 hdir _ (mem_dirs_iff.2 (last?_eq_some_iff.1 hlast))
    exact hnot (List.isPrefixOf_iff_prefix.2 hbegins)
  by_cases hextension : ∃ key mount,
      extension? path = some key ∧ IsLast mounts (.extension key) mount
  · obtain ⟨key, mount, hkey, hlast⟩ := hextension
    obtain ⟨front, ends, no_dot, no_slash⟩ := extension?_eq_some_iff.1 hkey
    exact ⟨_, .extension no_path no_dir ends no_dot no_slash hlast⟩
  · refine ⟨_, .none no_path no_dir fun front key ends no_dot no_slash => ?_⟩
    by_contra hused
    obtain ⟨last, hlast⟩ := Option.ne_none_iff_exists'.1 (mt last?_eq_none_iff.1 hused)
    exact hextension ⟨key, last, extension?_eq_some_iff.2 ⟨front, ends, no_dot, no_slash⟩,
      last?_eq_some_iff.1 hlast⟩

/-- Looking up finds what the rules choose. -/
theorem lookup_eq_iff_chosen {result : Option (Mount H)} :
    (ofMounts mounts).lookup path = result ↔ Chosen mounts path result := by
  refine ⟨?_, Chosen.lookup_eq⟩
  rintro rfl
  obtain ⟨result, hresult⟩ := exists_chosen mounts path
  rwa [hresult.lookup_eq]

/-! ### Order and number of registrations -/

/-- Neighbours on different routes may change places. -/
lemma mountsOn_swap {first second : Mount H} (hne : first.route.normal ≠ second.route.normal)
    (front back : List (Mount H)) (route : Route) :
    mountsOn (front ++ first :: second :: back) route
      = mountsOn (front ++ second :: first :: back) route := by
  by_cases h : first.route.normal = route
  · have hsecond : second.route.normal ≠ route := fun heq => hne (h.trans heq.symm)
    simp [mountsOn, h, hsecond]
  · simp [mountsOn, List.filter_cons, h]

/-- Only the last mount on each route makes a difference. -/
lemma Chosen.congr {other : List (Mount H)} {result : Option (Mount H)}
    (hlast : ∀ route, last? other route = last? mounts route) (h : Chosen other path result) :
    Chosen mounts path result := by
  have isLast : ∀ route mount, IsLast other route mount ↔ IsLast mounts route mount :=
    fun route mount => by rw [← last?_eq_some_iff, ← last?_eq_some_iff, hlast]
  have isFree : ∀ route, IsFree other route ↔ IsFree mounts route :=
    fun route => by rw [← last?_eq_none_iff, ← last?_eq_none_iff, hlast]
  cases h with
  | path last => exact .path ((isLast _ _).1 last)
  | dir no_path last begins longest =>
    simp only [isFree] at longest
    exact .dir ((isFree _).1 no_path) ((isLast _ _).1 last) begins longest
  | extension no_path no_dir ends no_dot no_slash last =>
    simp only [isFree] at no_dir
    exact .extension ((isFree _).1 no_path) no_dir ends no_dot no_slash ((isLast _ _).1 last)
  | none no_path no_dir no_extension =>
    simp only [isFree] at no_dir no_extension
    exact .none ((isFree _).1 no_path) no_dir no_extension

/-- The routes that a table keeps mounts on. -/
def routes (table : RouteTable H) : List Route :=
  (table.paths.map Prod.fst).map .path ++ (table.dirs.map Prod.fst).map .dir
    ++ (table.extensions.map Prod.fst).map .extension

lemma length_routes (table : RouteTable H) : table.routes.length = table.size := by
  simp [routes, size, Nat.add_assoc]

lemma Keeps.mem_routes (h : table.Keeps mounts) :
    route ∈ table.routes ↔ route ∈ mounts.map fun mount => mount.route.normal := by
  have hkept : route ∈ table.routes ↔ ∃ mount, last? mounts route = some mount := by
    simp only [routes, List.mem_append, List.mem_map (f := Route.path),
      List.mem_map (f := Route.dir), List.mem_map (f := Route.extension), h.paths.mem_keys,
      h.dirs.mem_keys, h.extensions.mem_keys]
    cases route <;> simp
  rw [hkept, isSome_last?_iff, List.mem_map]

lemma Keeps.nodup_routes (h : table.Keeps mounts) : table.routes.Nodup := by
  have hpaths := h.paths.nodup.map fun _ _ => Route.path.inj
  have hdirs := h.dirs.nodup.map fun _ _ => Route.dir.inj
  have hextensions := h.extensions.nodup.map fun _ _ => Route.extension.inj
  simp only [routes, List.nodup_append]
  refine ⟨⟨hpaths, hdirs, ?_⟩, hextensions, ?_⟩
  · rintro _ ha _ hb rfl
    obtain ⟨_, -, rfl⟩ := List.mem_map.1 ha
    simp at hb
  · rintro _ ha _ hb rfl
    obtain ⟨_, -, rfl⟩ := List.mem_map.1 hb
    simp at ha

/-- A table has as many mounts as there are different routes. -/
lemma size_ofMounts (mounts : List (Mount H)) :
    (ofMounts mounts).size = (mounts.map fun mount => mount.route.normal).dedup.length := by
  have hkeeps := keeps_ofMounts mounts
  rw [← length_routes]
  refine List.Perm.length_eq ((List.perm_ext_iff_of_nodup hkeeps.nodup_routes
    (List.nodup_dedup _)).2 fun route => ?_)
  rw [List.mem_dedup, hkeeps.mem_routes]

/-- **Registrations.**  A table finds for a path what the rules choose from its registrations.  So
registrations on different routes may be made in any order, as long as those on one route keep
theirs.  The directories of a table are all different, each with a slash at its end, and none is
longer than one before it; and a table has as many mounts as there are different routes. -/
theorem registrations_decide (mounts : List (Mount H)) :
    (∀ path result, (ofMounts mounts).lookup path = result ↔ Chosen mounts path result) ∧
      (∀ other : List (Mount H), (∀ route, mountsOn other route = mountsOn mounts route) →
        ∀ path, (ofMounts other).lookup path = (ofMounts mounts).lookup path) ∧
      ((ofMounts mounts).dirs.map Prod.fst).Nodup ∧
      (∀ entry ∈ (ofMounts mounts).dirs, entry.1.getLast? = some '/') ∧
      Ordered (ofMounts mounts).dirs ∧
      (ofMounts mounts).size = (mounts.map fun mount => mount.route.normal).dedup.length := by
  refine ⟨fun path result => lookup_eq_iff_chosen, fun other hmounts path => ?_,
    (keeps_ofMounts mounts).dirs.nodup, fun entry hmem => getLast?_of_mem_dirs hmem,
    ordered_ofMounts mounts, size_ofMounts mounts⟩
  have hlast : ∀ route, last? other route = last? mounts route :=
    fun route => congrArg List.getLast? (hmounts route)
  exact ((lookup_eq_iff_chosen.1 rfl).congr hlast).lookup_eq.symm

/-- Mounts of which the last one replaces the first. -/
def replacingMounts : List (Mount Nat) :=
  [⟨"old".toList, .dir "/cgi".toList, 0⟩, ⟨"php".toList, .extension ".php".toList, 1⟩,
    ⟨"deep".toList, .dir "/cgi/deep/".toList, 2⟩, ⟨"new".toList, .dir "/cgi/".toList, 3⟩]

/-- The same mounts, those in the middle the other way round. -/
def reorderedMounts : List (Mount Nat) :=
  [⟨"old".toList, .dir "/cgi".toList, 0⟩, ⟨"deep".toList, .dir "/cgi/deep/".toList, 2⟩,
    ⟨"php".toList, .extension ".php".toList, 1⟩, ⟨"new".toList, .dir "/cgi/".toList, 3⟩]

theorem registrations_decide_replacingMounts :
    (∀ route, mountsOn reorderedMounts route = mountsOn replacingMounts route) ∧
      (∀ path, (ofMounts reorderedMounts).lookup path = (ofMounts replacingMounts).lookup path) ∧
      Chosen replacingMounts "/cgi/x.php".toList
        (some ⟨"new".toList, .dir "/cgi/".toList, 3⟩) ∧
      Chosen replacingMounts "/cgi/deep/x".toList
        (some ⟨"deep".toList, .dir "/cgi/deep/".toList, 2⟩) ∧
      (ofMounts replacingMounts).size = 3 := by
  obtain ⟨hlookup, horder, -, -, -, -⟩ := registrations_decide replacingMounts
  have hroutes : ∀ route, mountsOn reorderedMounts route = mountsOn replacingMounts route :=
    mountsOn_swap (by decide) [⟨"old".toList, .dir "/cgi".toList, 0⟩]
      [⟨"new".toList, .dir "/cgi/".toList, 3⟩]
  exact ⟨hroutes, horder _ hroutes, (hlookup _ _).1 rfl,
    (hlookup _ _).1 rfl, by decide +kernel⟩

end RouteTable

end SiteServer
