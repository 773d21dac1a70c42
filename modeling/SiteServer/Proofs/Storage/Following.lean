import SiteServer.Proofs.Site.Confinement

/-!
# Entries seen from their directory

A path with a name joined onto it is looked up by looking up the path and then the name in the
directory it leads to (`exists_locate_join`).  Where the name is a link, the way goes on from there:
`Leads` says to which location moves lead when every link is followed, however many there are.
-/

namespace SiteServer.Tree

open SiteServer.Path (IsName)

variable {tree : Tree} {location place : Location} {links : Nat} {todo tail : List Move}
  {path name : Text} {info : Info} {entry : Entry}

/-! ### What is at the end of a path -/

/-- What can be known of a node without opening it.  A link has nothing of its own to be known. -/
def kind? (tree : Tree) : Node → Option Kind
  | .directory => some .directory
  | .file inode => some (.file inode (tree.content inode).size)
  | .special => some .special
  | .link _ => none

lemma kind?_cases {node : Node} {kind : Kind} (h : tree.kind? node = some kind) :
    node = .directory ∧ kind = .directory ∨
      (∃ inode, node = .file inode ∧ kind = .file inode (tree.content inode).size) ∨
      node = .special ∧ kind = .special := by
  cases node <;> simp_all [kind?]

/-- The metadata at the end of a path are those of the entry that it leads to. -/
lemma stat_eq_ok_iff : tree.stat path = .ok info ↔
    tree.locate path = .ok info.location ∧ ∃ entry, tree.entry? info.location = some entry ∧
      tree.kind? entry.node = some info.kind ∧ info.modified = entry.modified ∧
      info.readable = entry.readable := by
  unfold stat
  constructor
  · intro h
    split at h
    · cases h
    next location hlocate =>
    split at h
    · cases h
    next entry hentry =>
    cases hnode : entry.node
    case link => simp [hnode] at h
    all_goals
      simp only [hnode] at h
      obtain rfl := Except.ok.inj h
      exact ⟨hlocate, entry, hentry, by simp [kind?, hnode], rfl, rfl⟩
  · rintro ⟨hlocate, entry, hentry, hkind, hmodified, hreadable⟩
    obtain ⟨kind, modified, readable, location⟩ := info
    dsimp only at hlocate hentry hkind hmodified hreadable
    subst hmodified hreadable
    simp only [hlocate, hentry]
    cases hnode : entry.node <;> simp_all [kind?]

/-! ### Moves that lead somewhere -/

/-- Moves lead from one location to another, with every link on the way followed. -/
inductive Leads (tree : Tree) : Location → List Move → Location → Prop where
  | done {location : Location} : Leads tree location [] location
  | step {location next place : Location} {m : Move} {rest : List Move}
      (moved : tree.move location m = .ok (.reached next)) (leads : Leads tree next rest place) :
      Leads tree location (m :: rest) place
  | follow {location place : Location} {m : Move} {target : Text} {rest : List Move}
      (moved : tree.move location m = .ok (.link target))
      (leads : Leads tree (startOf target location) (moves target ++ rest) place) :
      Leads tree location (m :: rest) place

lemma leads_of_walk (h : tree.walk links location todo = .ok place) :
    Leads tree location todo place := by
  induction h using walk_ok_induct with
  | done => exact .done
  | step _ hmove _ ih => exact .step hmove ih
  | follow _ hmove _ ih => exact .follow hmove ih

/-- A way that leads somewhere leads over its beginning, whatever comes behind. -/
lemma exists_walk_append (front : List Move)
    (h : tree.walk links location (front ++ tail) = .ok place) :
    ∃ middle left, ∀ back,
      tree.walk links location (front ++ back) = tree.walk left middle back := by
  generalize htodo : front ++ tail = todo at h
  induction h using walk_ok_induct generalizing front with
  | done links =>
    obtain ⟨rfl, -⟩ := List.append_eq_nil_iff.1 htodo
    exact ⟨place, links, fun back => rfl⟩
  | @step links location next m rest _ hmove _ ih =>
    rcases front with _ | ⟨first, front⟩
    · exact ⟨location, links, fun back => rfl⟩
    · obtain ⟨rfl, rfl⟩ := List.cons.inj htodo
      obtain ⟨middle, left, hback⟩ := ih _ rfl
      refine ⟨middle, left, fun back => ?_⟩
      rw [List.cons_append, walk_cons, hmove]
      exact hback back
  | @follow links location m target rest _ hmove _ ih =>
    rcases front with _ | ⟨first, front⟩
    · exact ⟨location, links + 1, fun back => rfl⟩
    · obtain ⟨rfl, rfl⟩ := List.cons.inj htodo
      obtain ⟨middle, left, hback⟩ := ih _ (List.append_assoc _ _ _)
      refine ⟨middle, left, fun back => ?_⟩
      rw [List.cons_append, walk_cons, hmove]
      simpa only [List.append_assoc] using hback back

/-! ### Names joined onto a path -/

/-- The moves between the directories of a path. -/
def way (path : Text) : List Move :=
  ((Text.pieces '/' path).filter (· ≠ [])).map Move.ofComponent

lemma way_append_slash (path : Text) : way (path ++ ['/']) = way path := by
  have hpieces : Text.pieces '/' (path ++ ['/']) = Text.pieces '/' path ++ [[]] :=
    Text.pieces_append_sep '/' path []
  simp [way, hpieces]

/-- A name joined onto a path is looked up behind everything else. -/
lemma moves_join (hname : IsName name) (path : Text) :
    moves (Path.join path name) = way path ++ [.enter name] := by
  have hpiece := Text.pieces_of_not_mem hname.slash_not_mem
  have hmove : Move.ofComponent name = .enter name := by
    simp [Move.ofComponent, hname.ne_here, hname.ne_above]
  have hbehind : ∀ front : Text, moves (front ++ '/' :: name) = way front ++ [.enter name] := by
    intro front
    have hlast : (front ++ '/' :: name).getLast? ≠ some '/' := by
      simpa using hname.getLast?_append_ne_slash (front ++ ['/'])
    rw [moves, if_neg hlast, Text.pieces_append_sep, hpiece]
    simp [way, hname.ne_nil, hmove]
  rw [Path.join_name hname]
  rcases path.eq_nil_or_concat' with rfl | ⟨front, c, rfl⟩
  · rw [moves, if_neg (by simpa [Path.gap] using hname.getLast?_ne_slash)]
    simp [Path.gap, hpiece, way, Text.pieces, hname.ne_nil, hmove]
  · by_cases hc : c = '/'
    · subst hc
      have hgap : Path.gap (front ++ ['/']) = [] := by simp [Path.gap]
      rw [hgap, List.append_nil, List.append_assoc, List.singleton_append, hbehind,
        way_append_slash]
    · have hgap : Path.gap (front ++ [c]) = ['/'] := by simp [Path.gap, hc]
      rw [hgap, List.append_assoc, List.singleton_append, hbehind]

lemma startOf_top (path : Text) : startOf path [] = [] := by
  simp [startOf]

/-- A slash at the end of a path leads no further. -/
lemma eq_of_walk_close {closes : List Move} (hcloses : closes = [] ∨ closes = [.close])
    (h : tree.walk links location closes = .ok place) : location = place := by
  rcases hcloses with rfl | rfl
  · rw [walk_nil] at h
    exact Except.ok.inj h
  · rw [walk_cons] at h
    split at h
    · cases h
    · next next hmove =>
      obtain ⟨-, ⟨⟩⟩ := arrives_of_move hmove
      rw [walk_nil] at h
      exact Except.ok.inj h
    · next hmove => cases (arrives_of_move hmove).2

/-- A name behind a path is looked up where the path leads, with the links that are left. -/
lemma exists_locate_join (hlocate : tree.locate path = .ok location) :
    ∃ links, ∀ name, IsName name → pathFault? (Path.join path name) = none →
      tree.locate (Path.join path name) = tree.walk links location [.enter name] := by
  unfold locate at hlocate
  split at hlocate
  · cases hlocate
  rw [startOf_top, moves] at hlocate
  obtain ⟨middle, links, hback⟩ := exists_walk_append (way path) hlocate
  have hmiddle : middle = location :=
    eq_of_walk_close (by split <;> simp) ((hback _).symm.trans hlocate)
  refine ⟨links, fun name hname hfault => ?_⟩
  rw [locate, hfault, moves_join hname, startOf_top, ← hmiddle, ← hback]

/-- What is known of an entry is known of where its name leads from the directory. -/
lemma leads_of_stat_join {found : Info} (hname : IsName name)
    (hstat : tree.stat path = .ok info) (hfound : tree.stat (Path.join path name) = .ok found) :
    Leads tree info.location [.enter name] found.location := by
  obtain ⟨hlocate, -⟩ := stat_eq_ok_iff.1 hfound
  have hfault : pathFault? (Path.join path name) = none := by
    unfold locate at hlocate
    split at hlocate
    · cases hlocate
    · assumption
  obtain ⟨links, hjoin⟩ := exists_locate_join (stat_eq_ok_iff.1 hstat).1
  rw [hjoin name hname hfault] at hlocate
  exact leads_of_walk hlocate

/-! ### A name in a directory -/

/-- What a name in a directory stands for. -/
def arrival (entry : Entry) (location : Location) : Arrival :=
  match entry.node with
  | .link target => .link target
  | _ => .reached location

/-- A name is found in a directory that may be entered and has an entry with it. -/
lemma move_enter_iff {found : Arrival} : tree.move location (.enter name) = .ok found ↔
    (∃ directory, tree.entry? location = some directory ∧ directory.node = .directory ∧
      directory.enterable = true) ∧ Utf8.size name ≤ nameLimit ∧
      ∃ entry, tree.entry? (name :: location) = some entry ∧
        arrival entry (name :: location) = found := by
  cases hdirectory : tree.entry? location with
  | none => simp [move, hdirectory]
  | some directory =>
    by_cases hnode : directory.node = .directory
    · by_cases henter : directory.enterable = true
      · by_cases hsize : nameLimit < Utf8.size name
        · simp [move, hdirectory, hnode, henter, hsize, Nat.not_le.2 hsize]
        · cases hentry : tree.entry? (name :: location) with
          | none => simp [move, hdirectory, hnode, henter, hsize, hentry]
          | some entry =>
            obtain ⟨node, modified, readable, enterable⟩ := entry
            have hle := Nat.le_of_not_lt hsize
            cases node <;>
              simp [move, hdirectory, hnode, henter, hsize, hentry, arrival, hle]
      · simp [move, hdirectory, hnode, henter]
    · simp [move, hdirectory, hnode]

/-- A name leads somewhere only from a directory that may be entered and has an entry with it: to
this entry, or where the entry leads as a link. -/
lemma Leads.of_name (h : Leads tree location [.enter name] place) :
    (∃ directory, tree.entry? location = some directory ∧ directory.enterable = true) ∧
      ∃ entry, tree.entry? (name :: location) = some entry ∧
        ∀ target, entry.node = .link target →
          Leads tree (startOf target location) (moves target) place := by
  cases h with
  | step moved leads =>
    obtain ⟨⟨directory, hdirectory, -, henter⟩, -, entry, hentry, hfound⟩ := move_enter_iff.1 moved
    refine ⟨⟨directory, hdirectory, henter⟩, entry, hentry, fun target hnode => ?_⟩
    rw [arrival, hnode] at hfound
    cases hfound
  | follow moved leads =>
    obtain ⟨⟨directory, hdirectory, -, henter⟩, -, entry, hentry, hfound⟩ := move_enter_iff.1 moved
    refine ⟨⟨directory, hdirectory, henter⟩, entry, hentry, fun target hnode => ?_⟩
    rw [arrival, hnode] at hfound
    obtain rfl := Arrival.link.inj hfound
    simpa using leads

/-- An entry that is no link is looked at itself in a directory that may be entered, as long as its
name and its path are not too long. -/
lemma exists_stat_join {directory : Entry} (hname : IsName name) (hstat : tree.stat path = .ok info)
    (hkind : info.kind = .directory) (hdirectory : tree.entry? info.location = some directory)
    (henter : directory.enterable = true)
    (hentry : tree.entry? (name :: info.location) = some entry)
    (hlink : ∀ target, entry.node ≠ .link target) (hsize : Utf8.size name ≤ nameLimit)
    (hfault : pathFault? (Path.join path name) = none) :
    ∃ found, tree.stat (Path.join path name) = .ok found ∧
      found.location = name :: info.location := by
  obtain ⟨hbase, _, hdirectory', hnode, -⟩ := stat_eq_ok_iff.1 hstat
  obtain rfl := Option.some.inj (hdirectory.symm.trans hdirectory')
  have hnode : directory.node = .directory := by
    rcases kind?_cases hnode with ⟨hnode, -⟩ | ⟨_, -, hfile⟩ | ⟨-, hspecial⟩
    · exact hnode
    · rw [hkind] at hfile
      cases hfile
    · rw [hkind] at hspecial
      cases hspecial
  obtain ⟨links, hjoin⟩ := exists_locate_join hbase
  have harrival : arrival entry (name :: info.location) = .reached (name :: info.location) := by
    unfold arrival
    split
    · next target htarget => exact absurd htarget (hlink target)
    · rfl
  have hmove : tree.move info.location (.enter name) = .ok (.reached (name :: info.location)) :=
    move_enter_iff.2 ⟨⟨directory, hdirectory, hnode, henter⟩, hsize, entry, hentry, harrival⟩
  have hlocate : tree.locate (Path.join path name) = .ok (name :: info.location) := by
    rw [hjoin name hname hfault, walk_cons, hmove]
    exact tree.walk_nil links _
  obtain ⟨kind, hkind⟩ : ∃ kind, tree.kind? entry.node = some kind := by
    cases hentry : entry.node with
    | link target => exact absurd hentry (hlink target)
    | _ => exact ⟨_, rfl⟩
  exact ⟨⟨kind, entry.modified, entry.readable, _⟩,
    stat_eq_ok_iff.2 ⟨hlocate, entry, hentry, hkind, rfl, rfl⟩, rfl⟩

end SiteServer.Tree
