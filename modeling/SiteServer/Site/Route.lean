import SiteServer.Text.Utf8
import SiteServer.Text.Pieces

/-!
# Routes

A table says which handler answers which requested path.  A handler is mounted on one path, on a
directory with all that lies below it, or on a file extension; a later registration on the same
route replaces the earlier one.  A path is looked up as itself first, then below the longest
directory that begins it, and last by its extension.
-/

namespace SiteServer

/-- Where a handler is mounted. -/
inductive Route where
  /-- Exactly this path. -/
  | path (path : Text)
  /-- Every path below this directory. -/
  | dir (dir : Text)
  /-- Every path whose last segment has this extension. -/
  | extension (extension : Text)
  deriving DecidableEq, Repr

/-- A handler with the name and the route it was registered under. -/
structure Mount (H : Type) where
  name : Text
  route : Route
  handler : H
  deriving Repr

/-- The mounts of a site, each list under the keys it is searched by. -/
structure RouteTable (H : Type) where
  paths : List (Text × Mount H) := []
  /-- Directories with their closing slash, longer ones first. -/
  dirs : List (Text × Mount H) := []
  /-- Extensions without leading dots. -/
  extensions : List (Text × Mount H) := []

namespace RouteTable

variable {H : Type}

/-- A directory with one slash at its end. -/
def closed (dir : Text) : Text :=
  if dir.getLast? = some '/' then dir else dir ++ ['/']

/-- An extension without its leading dots. -/
def undotted (extension : Text) : Text :=
  extension.dropWhile (· = '.')

/-- An association list after `key` has been set. -/
def set (key : Text) (mount : Mount H) (list : List (Text × Mount H)) : List (Text × Mount H) :=
  (key, mount) :: list.filter (·.1 ≠ key)

/-- A list with longer keys first after `key` has been added behind those of its length. -/
def insertByLength (key : Text) (mount : Mount H) :
    List (Text × Mount H) → List (Text × Mount H)
  | [] => [(key, mount)]
  | first :: rest =>
    if Utf8.size first.1 < Utf8.size key then (key, mount) :: first :: rest
    else first :: insertByLength key mount rest

/-- The table with one more handler. -/
def register (table : RouteTable H) (name : Text) (route : Route) (handler : H) : RouteTable H :=
  let mount : Mount H := ⟨name, route, handler⟩
  match route with
  | .path path => { table with paths := set path mount table.paths }
  | .dir dir =>
    let key := closed dir
    { table with dirs := insertByLength key mount (table.dirs.filter (·.1 ≠ key)) }
  | .extension extension =>
    { table with extensions := set (undotted extension) mount table.extensions }

/-- The mount under a key. -/
def get? (key : Text) (list : List (Text × Mount H)) : Option (Mount H) :=
  (list.find? (·.1 = key)).map Prod.snd

/-- The extension of the last segment of a path. -/
def extension? (path : Text) : Option Text :=
  (Text.splitLast? '.' (Text.afterLast '/' path)).map Prod.snd

/-- The mount that answers a path. -/
def lookup (table : RouteTable H) (path : Text) : Option (Mount H) :=
  (get? path table.paths).or <|
    ((table.dirs.find? (·.1.isPrefixOf path)).map Prod.snd).or <|
      (extension? path).bind fun extension => get? extension table.extensions

/-- The number of mounts. -/
def size (table : RouteTable H) : Nat :=
  table.paths.length + table.dirs.length + table.extensions.length

@[simp] theorem size_empty : ({} : RouteTable H).size = 0 := rfl

@[simp] theorem lookup_empty (path : Text) : ({} : RouteTable H).lookup path = none := by
  simp [lookup, get?]

/-- A handler mounted on a path answers it. -/
theorem lookup_register_path (table : RouteTable H) (name path : Text) (handler : H) :
    (table.register name (.path path) handler).lookup path
      = some ⟨name, .path path, handler⟩ := by
  simp [register, lookup, set, get?]

end RouteTable

end SiteServer
