import SiteServer.Storage.Edit

/-!
# Building a tree

A tree is laid out from a list of items below a base directory, each with its missing parents.
Every item is made at the end of its path, so a later item may go through the link that an earlier
one has made.  The times come when everything is there, and the rights come last, from the last item
to the first.  Whoever lays the tree out has no more rights than the server, and an item that lies
in a directory which has become closed by then cannot be reached any more.
-/

namespace SiteServer

/-- What an item lays out. -/
inductive Item.Kind where
  | directory
  | file (content : Content)
  | link (target : Text)
  | special

/-- One entry to be laid out, at a path below the base directory. -/
structure Item where
  path : Text
  kind : Item.Kind
  /-- The time of its last change, when it is not the time of the layout. -/
  modified : Option Int := none
  /-- Its rights, when they are not those of every new entry. -/
  access : Option Access := none

namespace Tree

/-- The tree with one more item, which has the time and the rights of every new entry. -/
def place (tree : Tree) (clock : Int) (base : Text) (item : Item) : Except Fault Tree :=
  let path := Path.join base item.path
  match tree.makeParents clock path with
  | .error fault => .error fault
  | .ok tree =>
    match item.kind with
    | .directory => tree.makeDirectories clock path
    | .file content => tree.writeFile clock path content
    | .link target => tree.makeLink clock path target
    | .special => tree.make clock path .special

/-- The tree after an item has got its time. -/
def dateItem (tree : Tree) (base : Text) (item : Item) : Except Fault Tree :=
  match item.modified with
  | none => .ok tree
  | some modified => tree.date (Path.join base item.path) modified

/-- The tree after an item has got its rights. -/
def restrictItem (tree : Tree) (base : Text) (item : Item) : Except Fault Tree :=
  match item.access with
  | none => .ok tree
  | some access => tree.restrict (Path.join base item.path) access

/-- The tree that a list of items lays out below the directory at `base`. -/
def build (clock : Int) (base : Text) (items : List Item) : Except Fault Tree := do
  let bare ← (empty clock).makeDirectories clock base
  let placed ← items.foldlM (fun tree item => tree.place clock base item) bare
  let dated ← items.foldlM (fun tree item => tree.dateItem base item) placed
  items.reverse.foldlM (fun tree item => tree.restrictItem base item) dated

end Tree

end SiteServer
