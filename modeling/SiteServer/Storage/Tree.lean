import SiteServer.Storage.Content
import SiteServer.Storage.Entries
import SiteServer.Text.Utf8

/-!
# The file tree

The files a server sees: a hierarchy of entries, and the contents of its regular files.  A regular
file is an entry that refers to a content by number, so a file that has been opened keeps its
content when the entry is removed.

A path is looked up component by component.  Each component needs the right to enter the directory
it is looked up in; a link is followed wherever it stands; a path that ends in a slash has to end at
a directory.
-/

namespace SiteServer

/-- Why a path leads nowhere, or why nothing can be done where it leads. -/
inductive Fault where
  | notFound
  | denied
  | notDirectory
  | tooLong
  | tooManyLinks
  /-- The path holds a character that no path can have. -/
  | invalidPath
  /-- The entry has no content as a file has. -/
  | notFile
  /-- A directory stands where a file is to be written. -/
  | isDirectory
  /-- Something stands where a new entry is to be made. -/
  | occupied
  deriving DecidableEq, Repr

/-- What entries there are, and the contents that they and open files refer to. -/
structure Tree where
  entries : Entries
  contents : List Content
  hierarchical : entries.Hierarchical

/-- What can be known of an entry without opening it; links have been followed. -/
inductive Kind where
  | file (inode size : Nat)
  | directory
  | special
  deriving DecidableEq, Repr

/-- The answer to a question about a path. -/
structure Info where
  kind : Kind
  modified : Int
  readable : Bool
  location : Location
  deriving DecidableEq, Repr

/-- The size of what is not a directory; special files have none. -/
def Info.size? (info : Info) : Option Nat :=
  match info.kind with
  | .file _ size => some size
  | .directory => none
  | .special => some 0

namespace Tree

/-- The most bytes of a name and of a path, and the most links of one lookup. -/
def nameLimit : Nat := 255

def pathLimit : Nat := 4095

def linkLimit : Nat := 40

/-- The entry at a location. -/
def entry? (tree : Tree) (location : Location) : Option Entry :=
  tree.entries.at? location

/-! ## Lookup -/

/-- One step of a lookup. -/
inductive Move where
  /-- Into the entry of that name. -/
  | enter (name : Text)
  /-- To the directory itself. -/
  | stay
  /-- To the directory above. -/
  | up
  /-- What has been reached has to be a directory. -/
  | close
  deriving DecidableEq, Repr

/-- The move that a component asks for. -/
def Move.ofComponent (part : Text) : Move :=
  if part = Path.here then .stay else if part = Path.above then .up else .enter part

/-- The moves that a path asks for. -/
def moves (path : Text) : List Move :=
  ((Text.pieces '/' path).filter (· ≠ [])).map Move.ofComponent
    ++ if path.getLast? = some '/' then [.close] else []

/-- Where a path starts that is looked up in a directory. -/
def startOf (path : Text) (directory : Location) : Location :=
  if Path.isAbsolute path then [] else directory

/-- What a single move comes to: a location, or a link that has to be followed first. -/
inductive Arrival where
  | reached (location : Location)
  | link (target : Text)
  deriving DecidableEq, Repr

/-- One move from a location. -/
def move (tree : Tree) (location : Location) (m : Move) : Except Fault Arrival :=
  match tree.entry? location with
  | none => .error .notFound
  | some entry =>
    if entry.node ≠ .directory then .error .notDirectory
    else match m with
    | .close => .ok (.reached location)
    | m =>
      if entry.enterable = false then .error .denied
      else match m with
      | .stay | .close => .ok (.reached location)
      | .up => .ok (.reached location.tail)
      | .enter name =>
        if nameLimit < Utf8.size name then .error .tooLong
        else match tree.entry? (name :: location) with
        | none => .error .notFound
        | some ⟨.link target, _, _, _⟩ => .ok (.link target)
        | some _ => .ok (.reached (name :: location))

/-- The location that a list of moves leads to; at the first link `follow` goes on, from where the
link starts with the moves that it asks for and those that are left. -/
def walkUntil (tree : Tree) (follow : Location → List Move → Except Fault Location)
    (location : Location) : List Move → Except Fault Location
  | [] => .ok location
  | m :: rest =>
    match tree.move location m with
    | .error fault => .error fault
    | .ok (.reached next) => tree.walkUntil follow next rest
    | .ok (.link target) => follow (startOf target location) (moves target ++ rest)

/-- The location that a list of moves leads to, with at most `links` links on the way. -/
def walk (tree : Tree) : Nat → Location → List Move → Except Fault Location
  | 0 => tree.walkUntil fun _ _ => .error .tooManyLinks
  | links + 1 => tree.walkUntil (tree.walk links)

@[simp] theorem walk_nil (tree : Tree) (links : Nat) (location : Location) :
    tree.walk links location [] = .ok location := by
  cases links <;> rfl

theorem walk_cons (tree : Tree) (links : Nat) (location : Location) (m : Move)
    (rest : List Move) :
    tree.walk links location (m :: rest) =
      match tree.move location m with
      | .error fault => .error fault
      | .ok (.reached next) => tree.walk links next rest
      | .ok (.link target) =>
        match links with
        | 0 => .error .tooManyLinks
        | links + 1 => tree.walk links (startOf target location) (moves target ++ rest) := by
  cases links <;> rfl

/-- What is wrong with a text that can be no path. -/
def pathFault? (path : Text) : Option Fault :=
  if '\x00' ∈ path then some .invalidPath
  else if path = [] then some .notFound
  else if pathLimit < Utf8.size path then some .tooLong
  else none

/-- The location that a path leads to. -/
def locate (tree : Tree) (path : Text) : Except Fault Location :=
  match pathFault? path with
  | some fault => .error fault
  | none => tree.walk linkLimit (startOf path []) (moves path)

/-- The content with a given number; there is none for a number never handed out. -/
def content (tree : Tree) (inode : Nat) : Content :=
  tree.contents[inode]?.getD (.zeros 0)

/-- What is at the end of a path. -/
def stat (tree : Tree) (path : Text) : Except Fault Info :=
  match tree.locate path with
  | .error fault => .error fault
  | .ok location =>
    match tree.entry? location with
    | none => .error .notFound
    | some entry =>
      let info kind := Except.ok
        { kind, modified := entry.modified, readable := entry.readable, location }
      match entry.node with
      | .file inode => info (.file inode (tree.content inode).size)
      | .directory => info .directory
      | .special => info .special
      | .link _ => .error .tooManyLinks

/-- Whether the path leads to a directory. -/
def isDirectory (tree : Tree) (path : Text) : Bool :=
  match tree.stat path with
  | .ok info => info.kind = .directory
  | .error _ => false

/-- The number of the content that a file gives when it is opened for reading.  A path that leads to
something else gives nothing to be read, and why is not told apart: a directory can be opened, and
then reading from it fails; opening a pipe waits until somebody writes to it. -/
def open? (tree : Tree) (path : Text) : Except Fault Nat :=
  match tree.stat path with
  | .error fault => .error fault
  | .ok info =>
    match info.kind with
    | .file inode _ => if info.readable then .ok inode else .error .denied
    | _ => .error .notFile

/-- The names in the directory at a location, in the order of the tree. -/
def childNames (tree : Tree) (location : Location) : List Text :=
  tree.entries.filterMap fun (place, _) =>
    match place with
    | name :: parent => if parent = location then some name else none
    | [] => none

/-- The names in the directory that a path leads to. -/
def list (tree : Tree) (path : Text) : Except Fault (List Text) :=
  match tree.stat path with
  | .error fault => .error fault
  | .ok info =>
    if info.kind ≠ .directory then .error .notDirectory
    else if info.readable then .ok (tree.childNames info.location)
    else .error .denied

end Tree

end SiteServer
