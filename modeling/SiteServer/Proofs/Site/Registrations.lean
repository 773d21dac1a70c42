import Mathlib.Data.List.Induction
import SiteServer.Proofs.Site.RouteTables

/-!
# What registering keeps

A table is a record of its registrations from which all but the last mount on each route has been
dropped.  Two routes count as one when a table keeps them under the same key (`Route.normal`).
Each of its lists has one entry for each key, the mount that came last (`keeps_ofMounts`), and the
directories stand in an order in which the first one that begins a path is the longest one
(`Ordered.prefix_of_find?`).
-/

namespace SiteServer

/-- The route as it is kept: a directory with one slash at its end, an extension without leading
dots. -/
def Route.normal : Route → Route
  | .path key => .path key
  | .dir key => .dir (RouteTable.closed key)
  | .extension key => .extension (RouteTable.undotted key)

namespace RouteTable

variable {H : Type} {table : RouteTable H} {mounts : List (Mount H)} {mount : Mount H}
  {route : Route} {path key : Text} {list : List (Text × Mount H)}
  {found : Text → Option (Mount H)}

/-! ### The last mount on a route -/

/-- The mount is the last one that was registered on the route. -/
def IsLast (mounts : List (Mount H)) (route : Route) (mount : Mount H) : Prop :=
  ∃ before after, mounts = before ++ mount :: after ∧ mount.route.normal = route ∧
    ∀ later ∈ after, later.route.normal ≠ route

/-- No mount was registered on the route. -/
def IsFree (mounts : List (Mount H)) (route : Route) : Prop :=
  ∀ mount ∈ mounts, mount.route.normal ≠ route

/-- The mounts that were registered on a route, in their order. -/
def mountsOn (mounts : List (Mount H)) (route : Route) : List (Mount H) :=
  mounts.filter fun mount => mount.route.normal = route

/-- The last mount that was registered on a route. -/
def last? (mounts : List (Mount H)) (route : Route) : Option (Mount H) :=
  (mountsOn mounts route).getLast?

lemma last?_eq_some_iff : last? mounts route = some mount ↔ IsLast mounts route mount := by
  rw [last?, List.getLast?_eq_some_iff]
  constructor
  · rintro ⟨front, hmounts⟩
    obtain ⟨before, rest, rfl, -, hrest⟩ := List.filter_eq_append_iff.1 hmounts
    obtain ⟨between, after, rfl, -, hmount, hafter⟩ := List.filter_eq_cons_iff.1 hrest
    refine ⟨before ++ between, after, by simp, of_decide_eq_true hmount, fun later hmem heq => ?_⟩
    exact List.filter_eq_nil_iff.1 hafter later hmem (decide_eq_true heq)
  · rintro ⟨before, after, rfl, hmount, hafter⟩
    have hnil : after.filter (fun mount => mount.route.normal = route) = [] :=
      List.filter_eq_nil_iff.2 fun later hmem heq => hafter later hmem (of_decide_eq_true heq)
    exact ⟨mountsOn before route, by simp [mountsOn, hmount, hnil]⟩

lemma last?_eq_none_iff : last? mounts route = none ↔ IsFree mounts route := by
  simp [last?, mountsOn, IsFree]

lemma last?_concat (mounts : List (Mount H)) (mount : Mount H) (route : Route) :
    last? (mounts ++ [mount]) route
      = if mount.route.normal = route then some mount else last? mounts route := by
  by_cases h : mount.route.normal = route <;> simp [last?, mountsOn, h]

lemma isSome_last?_iff :
    (∃ mount, last? mounts route = some mount) ↔ ∃ mount ∈ mounts, mount.route.normal = route := by
  rw [← Option.isSome_iff_exists, ← Option.ne_none_iff_isSome, Ne, last?_eq_none_iff]
  simp [IsFree]

/-! ### What a table keeps -/

/-- The list has one entry for each key under which there is something to be found. -/
structure Holds (list : List (Text × Mount H)) (found : Text → Option (Mount H)) : Prop where
  nodup : (list.map Prod.fst).Nodup
  mem_iff : ∀ key mount, (key, mount) ∈ list ↔ found key = some mount

lemma Holds.get?_eq (h : Holds list found) (key : Text) : get? key list = found key := by
  rcases hget : get? key list with _ | mount
  · rcases hfound : found key with _ | mount
    · rfl
    · have hnone := List.find?_eq_none.1 (Option.map_eq_none_iff.1 hget)
      exact absurd (decide_eq_true rfl) (hnone (key, mount) ((h.mem_iff key mount).2 hfound))
  · exact ((h.mem_iff key mount).1 (get?_eq_some hget)).symm

lemma Holds.mem_keys (h : Holds list found) :
    key ∈ list.map Prod.fst ↔ ∃ mount, found key = some mount := by
  simp [← h.mem_iff]

/-- Setting a key changes what is found under this key and under no other one, wherever in the list
the entry is put. -/
lemma Holds.update (h : Holds list found) {list' : List (Text × Mount H)}
    (hperm : list'.Perm ((key, mount) :: list.filter (·.1 ≠ key))) :
    Holds list' fun key' => if key = key' then some mount else found key' where
  nodup := by
    have hrest : ((list.filter (·.1 ≠ key)).map Prod.fst).Nodup :=
      h.nodup.sublist (List.filter_sublist.map _)
    rw [(hperm.map Prod.fst).nodup_iff, List.map_cons, List.nodup_cons]
    exact ⟨by simp, hrest⟩
  mem_iff key' mount' := by
    rw [hperm.mem_iff, List.mem_cons, List.mem_filter, h.mem_iff]
    by_cases heq : key = key'
    · simp [heq, eq_comm]
    · simp [heq, Ne.symm heq]

lemma insertByLength_perm (key : Text) (mount : Mount H) (list : List (Text × Mount H)) :
    (insertByLength key mount list).Perm ((key, mount) :: list) := by
  induction list with
  | nil => exact .refl _
  | cons first rest ih =>
    rw [insertByLength]
    split
    · exact .refl _
    · exact (ih.cons first).trans (.swap _ _ _)

/-- The table keeps the last mount on each route, under the key of the route. -/
structure Keeps (table : RouteTable H) (mounts : List (Mount H)) : Prop where
  paths : Holds table.paths fun key => last? mounts (.path key)
  dirs : Holds table.dirs fun key => last? mounts (.dir key)
  extensions : Holds table.extensions fun key => last? mounts (.extension key)

lemma Keeps.register (h : table.Keeps mounts) (mount : Mount H) :
    (table.register mount.name mount.route mount.handler).Keeps (mounts ++ [mount]) := by
  obtain ⟨name, route, handler⟩ := mount
  cases route with
  | path path =>
    refine ⟨?_, ?_, ?_⟩ <;>
      simp only [last?_concat, Route.normal, Route.path.injEq, reduceCtorEq, if_false]
    · exact h.paths.update (.refl _)
    · exact h.dirs
    · exact h.extensions
  | dir dir =>
    refine ⟨?_, ?_, ?_⟩ <;>
      simp only [last?_concat, Route.normal, Route.dir.injEq, reduceCtorEq, if_false]
    · exact h.paths
    · exact h.dirs.update (insertByLength_perm _ _ _)
    · exact h.extensions
  | extension extension =>
    refine ⟨?_, ?_, ?_⟩ <;>
      simp only [last?_concat, Route.normal, Route.extension.injEq, reduceCtorEq, if_false]
    · exact h.paths
    · exact h.dirs
    · exact h.extensions.update (.refl _)

lemma ofMounts_concat (mounts : List (Mount H)) (mount : Mount H) :
    ofMounts (mounts ++ [mount])
      = (ofMounts mounts).register mount.name mount.route mount.handler := by
  simp [ofMounts]

theorem keeps_ofMounts (mounts : List (Mount H)) : (ofMounts mounts).Keeps mounts := by
  induction mounts using List.reverseRecOn with
  | nil =>
    have hnothing : Holds ([] : List (Text × Mount H)) fun _ => none := ⟨by simp, by simp⟩
    exact ⟨hnothing, hnothing, hnothing⟩
  | append_singleton mounts mount ih =>
    rw [ofMounts_concat]
    exact ih.register mount

/-! ### The order of the directories -/

/-- No key is longer than one before it. -/
def Ordered (list : List (Text × Mount H)) : Prop :=
  list.Pairwise fun first later => Utf8.size later.1 ≤ Utf8.size first.1

lemma Ordered.insertByLength (h : Ordered list) (key : Text) (mount : Mount H) :
    Ordered (insertByLength key mount list) := by
  induction list with
  | nil => exact List.pairwise_singleton _ _
  | cons first rest ih =>
    obtain ⟨hfirst, hrest⟩ := List.pairwise_cons.1 h
    rw [RouteTable.insertByLength]
    split
    · next hlt =>
      refine List.pairwise_cons.2 ⟨fun later hmem => ?_, h⟩
      rcases List.mem_cons.1 hmem with rfl | hmem
      · exact Nat.le_of_lt hlt
      · exact Nat.le_trans (hfirst later hmem) (Nat.le_of_lt hlt)
    · next hle =>
      refine List.pairwise_cons.2 ⟨fun later hmem => ?_, ih hrest⟩
      rcases mem_insertByLength.1 hmem with rfl | hmem
      · exact Nat.not_lt.1 hle
      · exact hfirst later hmem

theorem ordered_ofMounts (mounts : List (Mount H)) : Ordered (ofMounts mounts).dirs := by
  induction mounts using List.reverseRecOn with
  | nil => exact List.Pairwise.nil
  | append_singleton mounts mount ih =>
    obtain ⟨name, route, handler⟩ := mount
    rw [ofMounts_concat]
    cases route with
    | dir dir => exact Ordered.insertByLength (List.Pairwise.filter _ ih) _ _
    | path | extension => exact ih

lemma getLast?_of_mem_dirs {entry : Text × Mount H} (hmem : entry ∈ (ofMounts mounts).dirs) :
    entry.1.getLast? = some '/' := by
  obtain ⟨dir, -, hkey⟩ := (keyed_ofMounts mounts).dirs entry hmem
  rw [hkey]
  exact getLast?_closed dir

/-- Of two beginnings of one path the one that is not longer begins the other. -/
lemma prefix_of_size_le {a b : Text} (ha : a <+: path) (hb : b <+: path)
    (h : Utf8.size a ≤ Utf8.size b) : a <+: b := by
  rcases List.prefix_or_prefix_of_prefix ha hb with hab | ⟨more, rfl⟩
  · exact hab
  · rcases more with _ | ⟨c, more⟩
    · simp
    · have hpos := c.utf8Size_pos
      have hsize : Utf8.size (b ++ c :: more)
          = Utf8.size b + (c.utf8Size + Utf8.size more) := by
        rw [← Utf8.length_encode, Utf8.encode_append, List.length_append, Utf8.length_encode,
          Utf8.length_encode, Utf8.size_cons]
      omega

/-- The first directory that begins a path is the longest one. -/
lemma Ordered.prefix_of_find? (h : Ordered list) {entry other : Text × Mount H}
    (hfind : list.find? (·.1.isPrefixOf path) = some entry) (hmem : other ∈ list)
    (hbegins : other.1 <+: path) : other.1 <+: entry.1 := by
  obtain ⟨hentry, before, after, rfl, hbefore⟩ := List.find?_eq_some_iff_append.1 hfind
  have hpath := List.isPrefixOf_iff_prefix.1 hentry
  rcases List.mem_append.1 hmem with hmem | hmem
  · have hnot := hbefore other hmem
    simp [List.isPrefixOf_iff_prefix.2 hbegins] at hnot
  · rcases List.mem_cons.1 hmem with rfl | hmem
    · exact List.prefix_rfl
    · have hlater := (List.pairwise_cons.1 (List.pairwise_append.1 h).2.1).1 other hmem
      exact prefix_of_size_le hbegins hpath hlater

end RouteTable

end SiteServer
