import SiteServer.Text.Pieces

/-!
# File paths

A path is a text whose names stand between slashes.  Joining puts one slash between the two parts
where it is missing, and an absolute second part replaces the first.
-/

namespace SiteServer.Path

/-- The directory itself, as a component. -/
def here : Text := ['.']

/-- The directory above, as a component. -/
def above : Text := ['.', '.']

/-- Whether the path starts at the top of the file system. -/
def isAbsolute (path : Text) : Bool :=
  path.head? = some '/'

/-- The path of `child` seen from `base`. -/
def join (base child : Text) : Text :=
  if isAbsolute child then child
  else if base = [] ∨ base.getLast? = some '/' then base ++ child
  else base ++ '/' :: child

/-- The path with a list of names joined on, one after the other. -/
def joinAll (base : Text) (names : List Text) : Text :=
  names.foldl join base

/-- The components of a path that count when two paths are compared: everything between slashes
but empty parts and single dots, after a single dot that opens a relative path. -/
def components (path : Text) : List Text :=
  let parts := Text.pieces '/' path
  let kept := parts.filter fun part => part ≠ [] ∧ part ≠ here
  if parts.head? = some here then here :: kept else kept

/-- A component that names an entry of the directory it is looked up in. -/
structure IsName (name : Text) : Prop where
  ne_nil : name ≠ []
  slash_not_mem : '/' ∉ name
  ne_here : name ≠ here
  ne_above : name ≠ above

instance (name : Text) : Decidable (IsName name) :=
  decidable_of_iff (name ≠ [] ∧ '/' ∉ name ∧ name ≠ here ∧ name ≠ above)
    ⟨fun ⟨hnil, hslash, hhere, habove⟩ => ⟨hnil, hslash, hhere, habove⟩,
      fun ⟨hnil, hslash, hhere, habove⟩ => ⟨hnil, hslash, hhere, habove⟩⟩

/-- The name of the entry that a path ends with; a path that ends above a directory has none. -/
def fileName? (path : Text) : Option Text :=
  (components path).getLast?.filter fun name => name ≠ above ∧ name ≠ here

@[simp] theorem joinAll_nil (base : Text) : joinAll base [] = base := rfl

theorem joinAll_append (base : Text) (a b : List Text) :
    joinAll base (a ++ b) = joinAll (joinAll base a) b := by
  simp [joinAll]

end SiteServer.Path
