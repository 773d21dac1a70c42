import SiteServer.Proofs.Site.Lookups

/-!
# Mounts on extensions

The extension of a path is what stands behind the last dot of its last segment, so no path has one
with a dot in it.  A mount on an extension without a dot serves every path that ends in a dot and
this extension, as long as nothing is mounted on the path itself or on a directory that begins it;
a mount on any other extension, such as `tar.gz`, is kept and is never found
(`lookup_register_extension`).
-/

namespace SiteServer.RouteTable

variable {H : Type} {table : RouteTable H} {path key key' : Text} {mount : Mount H}
  {list : List (Text × Mount H)}

lemma get?_set_self : get? key (set key mount list) = some mount := by
  simp [get?, set]

lemma get?_set_of_ne (h : key ≠ key') : get? key' (set key mount list) = get? key' list := by
  have hother : ∀ entry : Text × Mount H, entry.1 ≠ key ∧ entry.1 = key' ↔ entry.1 = key' :=
    fun entry => ⟨And.right, fun heq => ⟨fun hkey => h (hkey.symm.trans heq), heq⟩⟩
  rw [get?, get?, set, List.find?_cons_of_neg (by simpa using h), List.find?_filter]
  simp only [decide_eq_true_eq, hother]

/-- A path on which nothing is mounted, nor on a directory that begins it, is looked up by its
extension. -/
lemma lookup_of_extension? (no_path : get? path table.paths = none)
    (no_dir : ∀ entry ∈ table.dirs, ¬ entry.1 <+: path) (h : extension? path = some key) :
    table.lookup path = get? key table.extensions := by
  have hdir : table.dirs.find? (·.1.isPrefixOf path) = none :=
    List.find?_eq_none.2 fun entry hmem hbegins =>
      no_dir entry hmem (List.isPrefixOf_iff_prefix.1 hbegins)
  rw [lookup, no_path, hdir, h]
  rfl

/-- A mount on an extension changes nothing for a path with another one. -/
lemma lookup_register_of_extension?_ne (name : Text) {extension : Text} (handler : H)
    (h : extension? path ≠ some (undotted extension)) :
    (table.register name (.extension extension) handler).lookup path = table.lookup path := by
  rcases hpath : extension? path with _ | key
  · simp only [register, lookup, hpath, Option.bind_none]
  · have hne : undotted extension ≠ key := fun heq => h (heq ▸ hpath)
    simp only [register, lookup, hpath, Option.bind_some, get?_set_of_ne hne]

/-- **Extensions.**  Right after a handler has been mounted on an extension in which no dot is left,
it is found for every path whose last segment ends in a dot and the extension, unless the path has a
mount of its own or lies below a directory that has one.  Where a dot is left in the extension, the
handler is found for no path. -/
theorem lookup_register_extension (table : RouteTable H) (name extension : Text) (handler : H) :
    let mounted := table.register name (.extension extension) handler
    ('.' ∉ undotted extension → ∀ path front, path = front ++ '.' :: undotted extension →
        '/' ∉ undotted extension → get? path mounted.paths = none →
        (∀ entry ∈ mounted.dirs, ¬ entry.1 <+: path) →
        mounted.lookup path = some ⟨name, .extension extension, handler⟩) ∧
      ('.' ∈ undotted extension → ∀ path, mounted.lookup path = table.lookup path) := by
  refine ⟨fun no_dot path front ends no_slash no_path no_dir => ?_, fun dot path => ?_⟩
  · rw [lookup_of_extension? no_path no_dir
      (extension?_eq_some_iff.2 ⟨front, ends, no_dot, no_slash⟩)]
    exact get?_set_self
  · refine lookup_register_of_extension?_ne name handler fun heq => ?_
    obtain ⟨front, -, no_dot, -⟩ := extension?_eq_some_iff.1 heq
    exact no_dot dot

/-- A table with a directory to which scripts are added. -/
def cgiTable : RouteTable Nat :=
  ofMounts [⟨"cgi".toList, .dir "/cgi".toList, 0⟩]

theorem lookup_register_extension_cgi :
    '.' ∉ undotted "..php".toList ∧ '/' ∉ undotted "..php".toList ∧
      (cgiTable.register "php".toList (.extension "..php".toList) 1).lookup "/a.b/c.php".toList
        = some ⟨"php".toList, .extension "..php".toList, 1⟩ ∧
      '.' ∈ undotted ".tar.gz".toList ∧
      (cgiTable.register "tgz".toList (.extension ".tar.gz".toList) 1).lookup "/a.tar.gz".toList
        = cgiTable.lookup "/a.tar.gz".toList := by
  obtain ⟨hserves, -⟩ := lookup_register_extension cgiTable "php".toList "..php".toList 1
  obtain ⟨-, hignored⟩ := lookup_register_extension cgiTable "tgz".toList ".tar.gz".toList 1
  refine ⟨by decide, by decide, ?_, by decide, hignored (by decide) _⟩
  exact hserves (by decide) _ "/a.b/c".toList rfl (by decide) rfl (by decide)

/-- A handler that is mounted on an extension with a dot is not found for a path that ends in it,
although nothing else is mounted anywhere. -/
theorem double_extension_unreachable :
    let mounted := RouteTable.register {} "tgz".toList (.extension "tar.gz".toList) ()
    let path := "/a.tar.gz".toList
    '/' ∉ "tar.gz".toList ∧ undotted "tar.gz".toList ≠ [] ∧
      Text.afterLast '/' path = "a".toList ++ '.' :: undotted "tar.gz".toList ∧
      get? path mounted.paths = none ∧ mounted.dirs = [] ∧ mounted.size = 1 ∧
      mounted.lookup path = none := by
  exact ⟨by decide, by decide, by decide, rfl, rfl, rfl, rfl⟩

end SiteServer.RouteTable
