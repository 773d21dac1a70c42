import Mathlib.Data.List.Basic
import SiteServer.Site.Route

/-!
# Tables made by registering

A route table comes from the empty one by registering mounts, so each mount lies under the key that
its route is searched by (`keyed_ofMounts`).  A mount that is found for a path therefore has a route
that covers the path: the path itself, a directory that it lies below, or its extension
(`found_of_lookup`).
-/

namespace SiteServer.RouteTable

variable {H : Type} {table : RouteTable H} {path key : Text} {mount : Mount H}
  {entry : Text × Mount H} {list : List (Text × Mount H)}

/-- The table after mounts have been registered one after the other. -/
def ofMounts (mounts : List (Mount H)) : RouteTable H :=
  mounts.foldl (fun table mount => table.register mount.name mount.route mount.handler) {}

/-- Each mount lies under the key that its route is searched by. -/
structure Keyed (table : RouteTable H) : Prop where
  paths : ∀ entry ∈ table.paths, entry.2.route = .path entry.1
  dirs : ∀ entry ∈ table.dirs, ∃ dir, entry.2.route = .dir dir ∧ entry.1 = closed dir
  extensions : ∀ entry ∈ table.extensions,
    ∃ extension, entry.2.route = .extension extension ∧ entry.1 = undotted extension

lemma getLast?_closed (dir : Text) : (closed dir).getLast? = some '/' := by
  unfold closed
  split
  · assumption
  · simp

/-! ### Registering -/

lemma mem_set (h : entry ∈ set key mount list) : entry = (key, mount) ∨ entry ∈ list := by
  rcases List.mem_cons.1 h with rfl | hmem
  · exact .inl rfl
  · exact .inr (List.mem_filter.1 hmem).1

lemma mem_insertByLength :
    entry ∈ insertByLength key mount list ↔ entry = (key, mount) ∨ entry ∈ list := by
  induction list with
  | nil => simp [insertByLength]
  | cons first rest ih =>
    rw [insertByLength]
    split
    · exact List.mem_cons
    · rw [List.mem_cons, ih, List.mem_cons]
      exact or_left_comm

lemma Keyed.register (h : table.Keyed) (name : Text) (route : Route) (handler : H) :
    (table.register name route handler).Keyed := by
  cases route with
  | path path =>
    refine ⟨fun entry hmem => ?_, h.dirs, h.extensions⟩
    rcases mem_set hmem with rfl | hmem
    · rfl
    · exact h.paths entry hmem
  | dir dir =>
    refine ⟨h.paths, fun entry hmem => ?_, h.extensions⟩
    rcases mem_insertByLength.1 hmem with rfl | hmem
    · exact ⟨dir, rfl, rfl⟩
    · exact h.dirs entry (List.mem_filter.1 hmem).1
  | extension extension =>
    refine ⟨h.paths, h.dirs, fun entry hmem => ?_⟩
    rcases mem_set hmem with rfl | hmem
    · exact ⟨extension, rfl, rfl⟩
    · exact h.extensions entry hmem

theorem keyed_ofMounts (mounts : List (Mount H)) : (ofMounts mounts).Keyed := by
  -- by induction on the mounts, going on from any table in which this holds
  suffices h : ∀ table : RouteTable H, table.Keyed →
      (mounts.foldl (fun table mount => table.register mount.name mount.route mount.handler)
        table).Keyed from h {} ⟨by simp, by simp, by simp⟩
  induction mounts with
  | nil => exact fun _ htable => htable
  | cons mount rest ih => exact fun table htable => ih _ (htable.register _ _ _)

/-! ### Looking up -/

/-- Why a mount is found for a path. -/
inductive Found (table : RouteTable H) (path : Text) (mount : Mount H) : Prop where
  | path (route : mount.route = .path path)
  | dir {dir : Text} (route : mount.route = .dir dir) (mem : (closed dir, mount) ∈ table.dirs)
      (below : closed dir <+: path)
  | extension {extension : Text} (route : mount.route = .extension extension)
      (ends : extension? path = some (undotted extension))

lemma get?_eq_some (h : get? key list = some mount) : (key, mount) ∈ list := by
  obtain ⟨⟨key', _⟩, hfind, rfl⟩ := Option.map_eq_some_iff.1 h
  have hkey := List.find?_some hfind
  obtain rfl : key' = key := of_decide_eq_true hkey
  exact List.mem_of_find?_eq_some hfind

theorem found_of_lookup (hk : table.Keyed) (h : table.lookup path = some mount) :
    Found table path mount := by
  rcases Option.or_eq_some_iff.1 h with hpath | ⟨-, h⟩
  · exact .path (hk.paths _ (get?_eq_some hpath))
  rcases Option.or_eq_some_iff.1 h with hdir | ⟨-, hextension⟩
  · obtain ⟨⟨key, _⟩, hfind, rfl⟩ := Option.map_eq_some_iff.1 hdir
    have hmem := List.mem_of_find?_eq_some hfind
    have hbegins := List.find?_some hfind
    obtain ⟨dir, hroute, rfl⟩ := hk.dirs _ hmem
    exact .dir hroute hmem (List.isPrefixOf_iff_prefix.1 hbegins)
  · obtain ⟨key, hkey, hget⟩ := Option.bind_eq_some_iff.1 hextension
    obtain ⟨extension, hroute, rfl⟩ := hk.extensions _ (get?_eq_some hget)
    exact .extension hroute hkey

/-- A path without a handler lies below no directory that has one. -/
lemma not_prefix_of_lookup_eq_none (h : table.lookup path = none) (hmem : entry ∈ table.dirs) :
    ¬ entry.1 <+: path := by
  intro hbegins
  have hdirs := (Option.or_eq_none_iff.1 (Option.or_eq_none_iff.1 h).2).1
  have hnone := List.find?_eq_none.1 (Option.map_eq_none_iff.1 hdirs) entry hmem
  exact hnone (List.isPrefixOf_iff_prefix.2 hbegins)

/-- Any two paths are told apart by some table. -/
lemma lookup_eq_iff (handler : H) {other : Text} :
    (∀ table : RouteTable H, table.lookup path = table.lookup other) ↔ path = other := by
  constructor
  · intro h
    have hfound := lookup_register_path {} [] path handler
    rw [h] at hfound
    rcases found_of_lookup (keyed_ofMounts [⟨[], .path path, handler⟩]) hfound with
      hroute | hroute | hroute
    · exact Route.path.inj hroute
    · nomatch hroute
    · nomatch hroute
  · rintro rfl table
    rfl

end SiteServer.RouteTable
