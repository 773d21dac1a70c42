import SiteServer.Storage.Tree

/-!
# Changes to a tree

Directories, files, links and special files are made at the end of a path, and what is there is
written, resized, dated, restricted or removed.  A path is looked up as for reading, so whatever is
done below a link is done where the link leads.  The name at the end of the path is taken in one of
two ways: what makes or removes an entry means that name itself, and what changes an entry follows
the link that has the name.  Writing a file does both, for a link that leads to nothing makes the
file where it leads.
-/

namespace SiteServer

/-- The rights that an entry gives. -/
structure Access where
  read : Bool
  enter : Bool
  deriving DecidableEq, Repr

namespace Tree

/-- The tree with nothing but its top directory. -/
def empty (clock : Int) : Tree where
  entries := [([], { node := .directory, modified := clock })]
  contents := []
  hierarchical :=
    { top := rfl
      names := by simp
      parents := by simp [Entries.hasDirectory, Entries.at?]
      distinct := by simp }

/-- The tree with a new entry of that kind at a location, if there is a place for it. -/
def putNew (tree : Tree) (clock : Int) (location : Location) (node : Node) : Except Fault Tree :=
  if free : tree.entries.Free location then
    .ok { tree with
      entries := tree.entries.put location { node, modified := clock }
      hierarchical := tree.hierarchical.put_new free }
  else
    .error .notFound

/-- The tree without the entry at a location and without what is below; only its top stays. -/
def without (tree : Tree) (location : Location) : Tree :=
  { tree with
    entries := tree.entries.keep fun place => place = [] ∨ ¬ location <:+ place
    hierarchical := by
      refine tree.hierarchical.keep (by simp) fun place hplace => ?_
      simp only [decide_eq_true_eq] at hplace ⊢
      rcases hplace with rfl | hplace
      · exact .inl rfl
      · exact .inr fun hbelow => hplace (hbelow.trans (List.tail_suffix place)) }

/-! ## Directories -/

/-- The moves of a path that lead from one directory to another. -/
def steps (path : Text) : List Move :=
  (moves path).filter fun m => m ≠ .stay ∧ m ≠ .close

/-- The tree with directories all along a list of moves.  One is made for every name that nothing
has; a link has to lead to a directory already, and nothing is made behind it. -/
def makeWay (tree : Tree) (clock : Int) (location : Location) : List Move → Except Fault Tree
  | [] => if tree.entries.hasDirectory location then .ok tree else .error .occupied
  | m :: rest =>
    match m, tree.move location m with
    | .enter name, .error .notFound =>
      match tree.putNew clock (name :: location) .directory with
      | .ok tree => tree.makeWay clock (name :: location) rest
      | .error fault => .error fault
    | _, .error fault => .error fault
    | _, .ok (.reached next) => tree.makeWay clock next rest
    | _, .ok (.link target) =>
      match tree.walk (linkLimit - 1) (startOf target location) (moves target) with
      | .ok next => tree.makeWay clock next rest
      | .error fault => .error (if rest = [] ∨ fault = .notFound then .occupied else fault)

/-- The tree with a directory at the end of a path, and with the directories on the way to it.  A
path that ends in a single dot names a directory which has to be there. -/
def makeDirectories (tree : Tree) (clock : Int) (path : Text) : Except Fault Tree :=
  match pathFault? path with
  | some fault => .error fault
  | none =>
    if ((moves path).filter (· ≠ .close)).getLast? = some .stay then
      (tree.locate path).map fun _ => tree
    else
      tree.makeWay clock [] (steps path)

/-- The tree with the directories on the way to the end of a path. -/
def makeParents (tree : Tree) (clock : Int) (path : Text) : Except Fault Tree :=
  match pathFault? path with
  | some fault => .error fault
  | none => tree.makeWay clock [] (steps path).dropLast

/-! ## Names -/

/-- The location of the name at the end of a path, whether or not anything has that name.  A path
that ends in dots ends at a directory which is there. -/
def locateName (tree : Tree) (path : Text) : Except Fault Location :=
  let way := (moves path).filter (· ≠ .close)
  match pathFault? path, tree.walk linkLimit (startOf path []) way.dropLast with
  | some fault, _ => .error fault
  | none, .error fault => .error fault
  | none, .ok directory =>
    match way.getLast? with
    | none => .error .occupied
    | some m =>
      match m, tree.move directory m with
      | .enter name, .ok _ | .enter name, .error .notFound => .ok (name :: directory)
      | _, .ok _ => .error .occupied
      | _, .error fault => .error fault

/-- The tree with a new entry at the end of a path, where nothing has that name yet.  Only a
directory's path may end in a slash. -/
def make (tree : Tree) (clock : Int) (path : Text) (node : Node) : Except Fault Tree :=
  match tree.locateName path with
  | .error fault => .error fault
  | .ok location =>
    if (tree.entry? location).isSome then .error .occupied
    else if path.getLast? = some '/' then .error .notFound
    else tree.putNew clock location node

/-- The tree with a new link at the end of a path. -/
def makeLink (tree : Tree) (clock : Int) (path target : Text) : Except Fault Tree :=
  match pathFault? target with
  | some fault => .error fault
  | none => tree.make clock path (.link target)

/-- The tree without the entry that has the name at the end of a path, and without what is below. -/
def remove (tree : Tree) (path : Text) : Except Fault Tree :=
  match tree.locateName path with
  | .error fault => .error fault
  | .ok location =>
    if (tree.entry? location).isSome then .ok (tree.without location) else .error .notFound

/-! ## Files -/

/-- The location that a list of moves leads to for writing a file, with at most `links` links on the
way.  The last move may enter a name that nothing has; no file is where a directory has to be. -/
def walkToWrite (tree : Tree) (links : Nat) (location : Location) (todo : List Move) :
    Except Fault Location :=
  match todo with
  | [] => .ok location
  | m :: rest =>
    if rest = [.close] then .error .isDirectory
    else match m, tree.move location m with
    | .enter name, .error .notFound =>
      if rest = [] then .ok (name :: location) else .error .notFound
    | _, .error fault => .error fault
    | _, .ok (.reached next) => tree.walkToWrite links next rest
    | _, .ok (.link target) =>
      match links with
      | 0 => .error .tooManyLinks
      | links + 1 => tree.walkToWrite links (startOf target location) (moves target ++ rest)
termination_by (links, todo.length)

/-- The tree with a file of that content at the end of a path.  A file that is there keeps its
number, so whoever has it open reads the new content. -/
def writeFile (tree : Tree) (clock : Int) (path : Text) (content : Content) : Except Fault Tree :=
  match pathFault? path, tree.walkToWrite linkLimit (startOf path []) (moves path) with
  | some fault, _ => .error fault
  | none, .error fault => .error fault
  | none, .ok location =>
    match (tree.entry? location).map Entry.node with
    | none =>
      { tree with contents := tree.contents ++ [content] }.putNew clock location
        (.file tree.contents.length)
    | some (.file inode) => .ok { tree with contents := tree.contents.set inode content }
    | some .directory => .error .isDirectory
    | some _ => .error .notFile

/-- The tree with the file at the end of a path cut or filled up with zero bytes. -/
def resizeFile (tree : Tree) (path : Text) (size : Nat) : Except Fault Tree :=
  match tree.stat path with
  | .error fault => .error fault
  | .ok info =>
    match info.kind with
    | .file inode _ =>
      .ok { tree with contents := tree.contents.set inode ((tree.content inode).resize size) }
    | .directory => .error .isDirectory
    | .special => .error .notFile

/-! ## Times and rights -/

/-- The tree with another entry of the same kind where a path leads. -/
def revise (tree : Tree) (path : Text) (change : Entry → Entry)
    (same : ∀ entry, (change entry).node = entry.node) : Except Fault Tree :=
  match tree.locate path with
  | .error fault => .error fault
  | .ok location =>
    match found : tree.entries.at? location with
    | none => .error .notFound
    | some entry =>
      .ok { tree with
        entries := tree.entries.put location (change entry)
        hierarchical := tree.hierarchical.put_same found (same entry) }

/-- The tree after what a path leads to has got that time of its last change. -/
def date (tree : Tree) (path : Text) (modified : Int) : Except Fault Tree :=
  tree.revise path (fun entry => { entry with modified }) fun _ => rfl

/-- The tree after what a path leads to has got those rights. -/
def restrict (tree : Tree) (path : Text) (access : Access) : Except Fault Tree :=
  tree.revise path (fun entry => { entry with readable := access.read, enterable := access.enter })
    fun _ => rfl

end Tree

end SiteServer
