import SiteServer.Storage.Path

/-!
# The entries of a file tree

A file tree has directories, regular files, symbolic links and special files, each at its location
below the top, with the rights that the server has to them.  A list of such entries is a hierarchy
when the top is a directory, what has a name lies in a directory under a name that no lookup takes
for something else, and no location has two entries.  What is made in a hierarchy, changed in it or
removed from it leaves one behind, so trees need no other proof that theirs are.
-/

namespace SiteServer

/-- Where an entry sits: the names on the way to it, its own name first. -/
abbrev Location := List Text

/-- What an entry is. -/
inductive Node where
  | directory
  /-- A regular file with the content of that number. -/
  | file (inode : Nat)
  /-- A symbolic link. -/
  | link (target : Text)
  /-- A pipe, a socket or a device. -/
  | special
  deriving DecidableEq, Repr

/-- An entry of the tree and what the server may do with it. -/
structure Entry where
  node : Node
  /-- Seconds since the beginning of 1970. -/
  modified : Int
  /-- Whether the file may be opened, or the directory listed. -/
  readable : Bool := true
  /-- Whether names may be looked up in the directory. -/
  enterable : Bool := true
  deriving DecidableEq, Repr

/-- Entries and where they sit. -/
abbrev Entries := List (Location × Entry)

namespace Entries

/-- The entry at a location. -/
def at? (entries : Entries) (location : Location) : Option Entry :=
  (entries.find? (·.1 = location)).map Prod.snd

/-- Whether there is a directory at a location. -/
def hasDirectory (entries : Entries) (location : Location) : Bool :=
  (entries.at? location).any fun entry => entry.node = .directory

/-- The entries at those locations that are kept. -/
def keep (keeps : Location → Bool) (entries : Entries) : Entries :=
  entries.filter fun entry => keeps entry.1

/-- The entries with one at a location, in place of the one that was there. -/
def put (entries : Entries) (location : Location) (entry : Entry) : Entries :=
  keep (· ≠ location) entries ++ [(location, entry)]

/-- What holds of the entries of a file system. -/
structure Hierarchical (entries : Entries) : Prop where
  top : entries.hasDirectory [] = true
  names : ∀ entry ∈ entries, ∀ name ∈ entry.1, Path.IsName name
  parents : ∀ entry ∈ entries, entries.hasDirectory entry.1.tail = true
  distinct : (entries.map Prod.fst).Nodup

instance (entries : Entries) : Decidable entries.Hierarchical :=
  decidable_of_iff (entries.hasDirectory [] = true ∧
      (∀ entry ∈ entries, ∀ name ∈ entry.1, Path.IsName name) ∧
      (∀ entry ∈ entries, entries.hasDirectory entry.1.tail = true) ∧
      (entries.map Prod.fst).Nodup)
    ⟨fun ⟨htop, hnames, hparents, hdistinct⟩ => ⟨htop, hnames, hparents, hdistinct⟩,
      fun ⟨htop, hnames, hparents, hdistinct⟩ => ⟨htop, hnames, hparents, hdistinct⟩⟩

/-- A place for a new entry: nothing is there, its name is proper, and what it is to lie in is a
directory. -/
structure Free (entries : Entries) (location : Location) : Prop where
  vacant : entries.at? location = none
  names : ∀ name ∈ location, Path.IsName name
  parent : entries.hasDirectory location.tail = true

instance (entries : Entries) (location : Location) : Decidable (entries.Free location) :=
  decidable_of_iff (entries.at? location = none ∧ (∀ name ∈ location, Path.IsName name) ∧
      entries.hasDirectory location.tail = true)
    ⟨fun ⟨hvacant, hnames, hparent⟩ => ⟨hvacant, hnames, hparent⟩,
      fun ⟨hvacant, hnames, hparent⟩ => ⟨hvacant, hnames, hparent⟩⟩

variable {entries : Entries} {location place : Location} {entry old : Entry}

/-! ## Finding entries -/

theorem hasDirectory_iff : entries.hasDirectory location = true ↔
    ∃ entry, entries.at? location = some entry ∧ entry.node = .directory := by
  cases h : entries.at? location <;> simp [hasDirectory, h]

theorem mem_of_at? (h : entries.at? location = some entry) : (location, entry) ∈ entries := by
  obtain ⟨⟨place, _⟩, hfind, rfl⟩ := Option.map_eq_some_iff.1 h
  have hplace := List.find?_some hfind
  obtain rfl : place = location := of_decide_eq_true hplace
  exact List.mem_of_find?_eq_some hfind

/-- Entries that are not kept are not found, and the others are. -/
theorem at?_keep (keeps : Location → Bool) (entries : Entries) (place : Location) :
    at? (keep keeps entries) place = if keeps place then entries.at? place else none := by
  rw [at?, keep, List.find?_filter]
  split
  · next hplace =>
    rw [at?]
    congr 2
    funext entry
    by_cases hentry : entry.1 = place <;> simp [hentry, hplace]
  · next hplace =>
    rw [Option.map_eq_none_iff, List.find?_eq_none]
    rintro entry -
    by_cases hentry : entry.1 = place <;> simp [hentry, hplace]

theorem at?_put (entries : Entries) (location place : Location) (entry : Entry) :
    at? (entries.put location entry) place
      = if place = location then some entry else entries.at? place := by
  have hkept := at?_keep (· ≠ location) entries place
  have hput : at? (entries.put location entry) place
      = (at? (keep (· ≠ location) entries) place).or (at? [(location, entry)] place) := by
    simp [at?, put, List.find?_append, Option.map_or]
  rw [hput, hkept]
  by_cases hplace : place = location
  · simp [hplace, at?]
  · simp [hplace, at?, Ne.symm hplace]

theorem mem_put {found : Location × Entry} (h : found ∈ entries.put location entry) :
    found ∈ entries ∨ found = (location, entry) := by
  rcases List.mem_append.1 h with h | h
  · exact .inl (List.mem_filter.1 h).1
  · exact .inr (List.mem_singleton.1 h)

/-! ## Changes that leave a hierarchy -/

namespace Hierarchical

/-- What is at a location has proper names and lies in a directory. -/
theorem isName_of_mem (h : entries.Hierarchical) (hentry : entries.at? location = some entry)
    {name : Text} (hmem : name ∈ location) : Path.IsName name :=
  h.names _ (mem_of_at? hentry) name hmem

theorem hasDirectory_tail (h : entries.Hierarchical) (hentry : entries.at? location = some entry) :
    entries.hasDirectory location.tail = true :=
  h.parents _ (mem_of_at? hentry)

/-- Where directories stay directories, an entry that is put into one of them leaves a hierarchy:
it takes the place of the one that was at its location. -/
theorem put (h : entries.Hierarchical) (hnames : ∀ name ∈ location, Path.IsName name)
    (hparent : entries.hasDirectory location.tail = true)
    (hstays : ∀ place, entries.hasDirectory place = true →
      hasDirectory (entries.put location entry) place = true) :
    Hierarchical (entries.put location entry) where
  top := hstays _ h.top
  names := by
    intro found hmem
    rcases mem_put hmem with hold | rfl
    · exact h.names found hold
    · exact hnames
  parents := by
    intro found hmem
    rcases mem_put hmem with hold | rfl
    · exact hstays _ (h.parents found hold)
    · exact hstays _ hparent
  distinct := by
    have hothers : ((entries.filter (·.1 ≠ location)).map Prod.fst).Nodup :=
      h.distinct.sublist (List.filter_sublist.map Prod.fst)
    rw [Entries.put, Entries.keep, List.map_append, List.nodup_append]
    refine ⟨hothers, by simp, fun place hmem other hother => ?_⟩
    obtain rfl := List.mem_singleton.1 hother
    obtain ⟨found, hfound, rfl⟩ := List.mem_map.1 hmem
    exact of_decide_eq_true (List.mem_filter.1 hfound).2

theorem put_new (h : entries.Hierarchical) (hfree : entries.Free location) :
    Hierarchical (entries.put location entry) := by
  refine h.put hfree.names hfree.parent fun place hplace => ?_
  obtain ⟨found, hfound, hnode⟩ := hasDirectory_iff.1 hplace
  have hne : place ≠ location := by
    rintro rfl
    rw [hfree.vacant] at hfound
    cases hfound
  exact hasDirectory_iff.2 ⟨found, by rw [at?_put, if_neg hne, hfound], hnode⟩

/-- An entry may be changed as long as it stays what it is. -/
theorem put_same (h : entries.Hierarchical) (hold : entries.at? location = some old)
    (hnode : entry.node = old.node) : Hierarchical (entries.put location entry) := by
  refine h.put (fun name hmem => h.isName_of_mem hold hmem) (h.hasDirectory_tail hold)
    fun place hplace => ?_
  obtain ⟨found, hfound, hdirectory⟩ := hasDirectory_iff.1 hplace
  rw [hasDirectory_iff, at?_put]
  by_cases heq : place = location
  · subst heq
    obtain rfl := Option.some.inj (hold.symm.trans hfound)
    exact ⟨entry, by simp, hnode.trans hdirectory⟩
  · exact ⟨found, by rw [if_neg heq, hfound], hdirectory⟩

/-- Entries that are kept with all that they lie in are a hierarchy. -/
theorem keep (h : entries.Hierarchical) {keeps : Location → Bool} (htop : keeps [] = true)
    (htail : ∀ place, keeps place = true → keeps place.tail = true) :
    Hierarchical (keep keeps entries) where
  top := by simpa [hasDirectory, at?_keep, htop] using h.top
  names found hmem := h.names found (List.mem_filter.1 hmem).1
  parents found hmem := by
    obtain ⟨hfound, hkept⟩ := List.mem_filter.1 hmem
    simpa [hasDirectory, at?_keep, htail _ hkept] using h.parents found hfound
  distinct := h.distinct.sublist (List.filter_sublist.map Prod.fst)

end Hierarchical

end Entries

end SiteServer
