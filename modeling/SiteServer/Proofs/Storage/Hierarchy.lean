import Mathlib.Data.List.Nodup
import SiteServer.Storage.Tree

/-!
# Moves in a hierarchy

A tree is a hierarchy of entries.  So a move leads from a directory to something that is there
(`arrives_of_move`), what lies somewhere lies in a directory (`hasDirectory_tail`), and the names in
a directory are proper and all different, those under which something lies in it
(`mem_childNames`).  A way that ends somewhere is made of such moves and of links, of which each
that is followed leaves fewer (`walk_ok_induct`).
-/

namespace SiteServer.Tree

open SiteServer.Path (IsName)

variable {tree : Tree} {location : Location} {arrival : Arrival} {path name : Text}

/-- Something is at the location. -/
def Has (tree : Tree) (location : Location) : Prop :=
  ∃ entry, tree.entry? location = some entry

lemma has_of_hasDirectory (h : tree.entries.hasDirectory location = true) : tree.Has location := by
  obtain ⟨entry, hentry, -⟩ := Entries.hasDirectory_iff.1 h
  exact ⟨entry, hentry⟩

/-- A directory is in a directory, and so is everything else. -/
lemma hasDirectory_tail (h : tree.Has location) :
    tree.entries.hasDirectory location.tail = true := by
  obtain ⟨entry, hentry⟩ := h
  exact tree.hierarchical.hasDirectory_tail hentry

/-! ### Moves -/

/-- What a move from a location can come to. -/
inductive Arrives (tree : Tree) (location : Location) : Move → Arrival → Prop where
  | up : Arrives tree location .up (.reached location.tail)
  | stay : Arrives tree location .stay (.reached location)
  | close : Arrives tree location .close (.reached location)
  | enter {name : Text} (has : tree.Has (name :: location)) :
      Arrives tree location (.enter name) (.reached (name :: location))
  | follow {name target : Text} (has : tree.Has (name :: location)) :
      Arrives tree location (.enter name) (.link target)

/-- Only a directory is moved from. -/
lemma arrives_of_move {m : Move} (h : tree.move location m = .ok arrival) :
    tree.entries.hasDirectory location = true ∧ Arrives tree location m arrival := by
  unfold move at h
  split at h
  · simp at h
  next entry hentry =>
  split at h
  · simp at h
  next hnode =>
  refine ⟨Entries.hasDirectory_iff.2 ⟨entry, hentry, by simpa using hnode⟩, ?_⟩
  cases m with
  | close =>
    obtain rfl := Except.ok.inj h
    exact .close
  | stay =>
    simp only at h
    split at h
    · simp at h
    · obtain rfl := Except.ok.inj h
      exact .stay
  | up =>
    simp only at h
    split at h
    · simp at h
    · obtain rfl := Except.ok.inj h
      exact .up
  | enter name =>
    simp only at h
    split at h
    · simp at h
    split at h
    · simp at h
    split at h
    · simp at h
    · next hfound =>
      obtain rfl := Except.ok.inj h
      exact .follow ⟨_, hfound⟩
    · next _ hfound =>
      obtain rfl := Except.ok.inj h
      exact .enter ⟨_, hfound⟩

/-- A way that leads somewhere begins with a move, or with a link, of which there may be one less
from there on. -/
lemma walk_cons_cases {links : Nat} {m : Move} {rest : List Move} {place : Location}
    (h : tree.walk links location (m :: rest) = .ok place) :
    (∃ next, tree.move location m = .ok (.reached next) ∧
      tree.walk links next rest = .ok place) ∨
    ∃ target left, links = left + 1 ∧ tree.move location m = .ok (.link target) ∧
      tree.walk left (startOf target location) (moves target ++ rest) = .ok place := by
  rw [walk_cons] at h
  split at h
  · cases h
  · next next hmove => exact .inl ⟨next, hmove, h⟩
  · next target hmove =>
    rcases links with _ | left
    · cases h
    · exact .inr ⟨target, left, rfl, hmove, h⟩

/-- What is true where a way ends, and is true of a way when it is of what is left behind its first
move, is true of all ways that lead to this end. -/
@[elab_as_elim]
lemma walk_ok_induct {place : Location}
    {motive : ∀ links location todo, tree.walk links location todo = .ok place → Prop}
    (done : ∀ links, motive links place [] (tree.walk_nil links place))
    (step : ∀ {links location next m rest} (h : tree.walk links location (m :: rest) = .ok place)
      (_ : tree.move location m = .ok (.reached next))
      (h' : tree.walk links next rest = .ok place), motive links next rest h' →
      motive links location (m :: rest) h)
    (follow : ∀ {links location m target rest}
      (h : tree.walk (links + 1) location (m :: rest) = .ok place)
      (_ : tree.move location m = .ok (.link target))
      (h' : tree.walk links (startOf target location) (moves target ++ rest) = .ok place),
      motive links (startOf target location) (moves target ++ rest) h' →
      motive (links + 1) location (m :: rest) h)
    {links : Nat} {location : Location} {todo : List Move}
    (h : tree.walk links location todo = .ok place) : motive links location todo h := by
  -- a link makes the moves more and the links less, any other move makes the moves less
  induction links using Nat.strongRecOn generalizing location todo with
  | ind links ihl =>
    induction todo generalizing location with
    | nil =>
      obtain rfl := Except.ok.inj ((tree.walk_nil links location).symm.trans h)
      exact done links
    | cons m rest ih =>
      obtain ⟨next, hmove, h'⟩ | ⟨target, left, rfl, hmove, h'⟩ := walk_cons_cases h
      · exact step h hmove h' (ih h')
      · exact follow h hmove h' (ihl left (Nat.lt_succ_self left) h')

/-! ### Names in a directory -/

lemma has_iff : tree.Has location ↔ ∃ entry, (location, entry) ∈ tree.entries := by
  constructor
  · rintro ⟨entry, hentry⟩
    exact ⟨entry, Entries.mem_of_at? hentry⟩
  · rintro ⟨entry, hmem⟩
    cases hfound : tree.entries.find? (·.1 = location) with
    | none => simpa using List.find?_eq_none.1 hfound _ hmem
    | some found => exact ⟨found.2, by simp only [hfound, entry?, Entries.at?, Option.map_some]⟩

/-- The names in a directory are those under which something is at a location in it. -/
lemma mem_childNames : name ∈ tree.childNames location ↔ tree.Has (name :: location) := by
  rw [has_iff, childNames, List.mem_filterMap]
  constructor
  · rintro ⟨⟨_ | ⟨first, parent⟩, entry⟩, hmem, hname⟩
    · cases hname
    · by_cases hparent : parent = location
      · subst hparent
        obtain rfl : first = name := by simpa using hname
        exact ⟨entry, hmem⟩
      · simp [hparent] at hname
  · rintro ⟨entry, hmem⟩
    exact ⟨_, hmem, by simp⟩

lemma isName_of_has (h : tree.Has (name :: location)) : IsName name := by
  obtain ⟨entry, hentry⟩ := h
  exact tree.hierarchical.isName_of_mem hentry List.mem_cons_self

/-- No name comes twice, since no location has two entries. -/
lemma nodup_childNames (tree : Tree) (location : Location) : (tree.childNames location).Nodup := by
  refine List.Pairwise.filterMap _ (fun a b hne name ha name' hb => ?_)
    (List.pairwise_map.1 tree.hierarchical.distinct)
  rintro rfl
  obtain ⟨_ | ⟨first, parent⟩, entry⟩ := a
  · cases ha
  obtain ⟨_ | ⟨first', parent'⟩, entry'⟩ := b
  · cases hb
  simp only [Option.ite_none_right_eq_some, Option.some.injEq] at ha hb
  obtain ⟨rfl, rfl⟩ := ha
  obtain ⟨rfl, rfl⟩ := hb
  exact hne rfl

/-- What is listed in a directory has a proper name. -/
lemma isName_of_list {names : List Text} (hlist : tree.list path = .ok names)
    (hmem : name ∈ names) : IsName name := by
  unfold list at hlist
  split at hlist
  · cases hlist
  split at hlist
  · cases hlist
  split at hlist
  · obtain rfl := Except.ok.inj hlist
    exact isName_of_has (mem_childNames.1 hmem)
  · cases hlist

end SiteServer.Tree
