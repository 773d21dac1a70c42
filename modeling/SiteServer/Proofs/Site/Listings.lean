import SiteServer.Proofs.Storage.Following
import SiteServer.Proofs.Storage.Hierarchy
import SiteServer.Proofs.Text.ByteOrder
import SiteServer.Site.Calendar

/-!
# Complete listings

A listing is made from the names in a directory, in whatever order they come.  Since no name comes
twice, sorting leaves only one order of the rows, that of the bytes of their names, so the order in
which the names came makes no difference (`rowsOf_congr`).  `IsListing` says which entries have a
row and what the row says, and every directory that can be read has such a listing
(`rows_complete`).
-/

namespace SiteServer

namespace Listing

open SiteServer.Tree (Leads)
open scoped List

variable {zone : Zone} {tree : Tree} {path name : Text} {names others : List Text} {row : Row}

/-! ### Rows in their order -/

lemma name_of_row? (h : row? zone tree path name = some row) : row.name = name := by
  unfold row? at h
  split at h
  · obtain rfl := Option.some.inj h
    rfl
  · cases h

lemma mem_rowsOf : row ∈ rowsOf zone tree path names ↔
    row.name ∈ names ∧ isHidden row.name = false ∧ row? zone tree path row.name = some row := by
  rw [rowsOf, List.mem_mergeSort, List.mem_filterMap]
  constructor
  · rintro ⟨name, hmem, hrow⟩
    obtain rfl := name_of_row? hrow
    obtain ⟨hname, hvisible⟩ := List.mem_filter.1 hmem
    exact ⟨hname, by simpa using hvisible, hrow⟩
  · rintro ⟨hname, hvisible, hrow⟩
    exact ⟨row.name, List.mem_filter.2 ⟨hname, by simpa using hvisible⟩, hrow⟩

lemma rows_eq_ok_iff {rows : List Row} : Listing.rows zone tree path = .ok rows ↔
    ∃ names, tree.list path = .ok names ∧ rowsOf zone tree path names = rows := by
  unfold Listing.rows
  cases tree.list path <;> simp [Except.map]

/-- Names that come once each give rows with names that ascend. -/
lemma pairwise_rowsOf (h : names.Nodup) :
    (rowsOf zone tree path names).Pairwise fun a b => a.name < b.name := by
  have hsorted : (rowsOf zone tree path names).Pairwise
      fun a b => precedes a.name b.name = true := by
    refine List.pairwise_mergeSort (fun a b c hab hbc => ?_) (fun a b => ?_) _
    · simp only [precedes, Bool.not_eq_true', decide_eq_false_iff_not] at hab hbc ⊢
      exact List.le_trans hab hbc
    · simp only [precedes, Bool.or_eq_true, Bool.not_eq_true', decide_eq_false_iff_not]
      exact List.le_total a.name b.name
  have hnames : ((names.filter (!isHidden ·)).filterMap (row? zone tree path)).Pairwise
      fun a b => a.name ≠ b.name := by
    refine List.Pairwise.filterMap _ (fun a b hne row hrow row' hrow' => ?_) (h.filter _)
    rwa [name_of_row? hrow, name_of_row? hrow']
  have hdistinct : (rowsOf zone tree path names).Pairwise fun a b => a.name ≠ b.name :=
    ((List.mergeSort_perm _ _).pairwise_iff fun h => h.symm).2 hnames
  refine hsorted.imp₂ (fun a b hle hne => ?_) hdistinct
  simp only [precedes, Bool.not_eq_true', decide_eq_false_iff_not] at hle
  by_contra hlt
  exact hne (List.le_antisymm hle hlt)

/-- Rows that are in their order already stay in it. -/
lemma rowsOf_of_pairwise
    (h : ((names.filter (!isHidden ·)).filterMap (row? zone tree path)).Pairwise
      fun a b => precedes a.name b.name = true) :
    rowsOf zone tree path names = (names.filter (!isHidden ·)).filterMap (row? zone tree path) :=
  List.mergeSort_of_pairwise h

/-- The order in which the names come makes no difference. -/
lemma rowsOf_congr (h : names.Nodup) (hperm : names ~ others) :
    rowsOf zone tree path names = rowsOf zone tree path others := by
  have hrows : rowsOf zone tree path names ~ rowsOf zone tree path others :=
    (List.mergeSort_perm _ _).trans <|
      ((hperm.filter _).filterMap _).trans (List.mergeSort_perm _ _).symm
  exact List.Perm.eq_of_pairwise (fun a b _ _ hab hba => absurd hba (List.lt_asymm hab))
    (pairwise_rowsOf h) (pairwise_rowsOf (hperm.nodup h)) hrows

/-! ### What a listing says -/

/-- A row says of an entry what is known of it without opening it. -/
structure Tells (zone : Zone) (tree : Tree) (entry : Entry) (row : Row) : Prop where
  modified : row.modified = zone.text entry.modified
  directory : row.size = none ↔ entry.node = .directory
  file : ∀ inode, entry.node = .file inode → row.size = some (tree.content inode).size
  special : entry.node = .special → row.size = some 0

/-- The rows are a listing of the directory at a location, whose entries are looked up by joining
their names onto a path. -/
structure IsListing (zone : Zone) (tree : Tree) (path : Text) (location : Location)
    (rows : List Row) : Prop where
  /-- No name has two rows, and the names ascend by their bytes. -/
  ascending : rows.Pairwise fun a b => Utf8.encode a.name < Utf8.encode b.name
  /-- Each entry that is not hidden and can be looked at has a row, and nothing else has one. -/
  shown_iff : ∀ name, (∃ row ∈ rows, row.name = name) ↔
    tree.Has (name :: location) ∧ name.head? ≠ some '.' ∧
      ∃ info, tree.stat (Path.join path name) = .ok info
  /-- A row tells of what its name leads to when links are followed. -/
  tells : ∀ row ∈ rows, ∃ place entry, Leads tree location [.enter row.name] place ∧
    tree.entry? place = some entry ∧ Tells zone tree entry row
  /-- An entry that is no link is left out only when it cannot be reached. -/
  plain : ∀ name directory entry, tree.entry? location = some directory →
    directory.enterable = true → tree.entry? (name :: location) = some entry →
    (∀ target, entry.node ≠ .link target) → name.head? ≠ some '.' →
    Utf8.size name ≤ Tree.nameLimit → Tree.pathFault? (Path.join path name) = none →
    ∃ row ∈ rows, row.name = name ∧ Tells zone tree entry row
  /-- A link that leads to nothing is left out. -/
  dangling : ∀ name entry target, tree.entry? (name :: location) = some entry →
    entry.node = .link target →
    (∀ place, ¬ Leads tree (Tree.startOf target location) (Tree.moves target) place) →
    ∀ row ∈ rows, row.name ≠ name
  /-- Of a directory that may not be entered nothing is shown. -/
  closed : ∀ directory, tree.entry? location = some directory → directory.enterable = false →
    rows = []

lemma isHidden_eq_false_iff : isHidden name = false ↔ name.head? ≠ some '.' := by
  simp [isHidden]

/-- The row of an entry that can be looked at. -/
def rowOf (zone : Zone) (name : Text) (info : Info) : Row :=
  ⟨name, zone.text info.modified, info.size?⟩

lemma row?_eq_some_iff : row? zone tree path name = some row ↔
    ∃ info, tree.stat (Path.join path name) = .ok info ∧ rowOf zone name info = row := by
  unfold row?
  cases tree.stat (Path.join path name) <;> simp [rowOf]

lemma tells_rowOf {info : Info} (h : tree.stat (Path.join path name) = .ok info) :
    ∃ entry, tree.entry? info.location = some entry ∧
      Tells zone tree entry (rowOf zone name info) := by
  obtain ⟨-, entry, hentry, hkind, hmodified, -⟩ := Tree.stat_eq_ok_iff.1 h
  have hshown : (rowOf zone name info).modified = zone.text entry.modified := by
    rw [rowOf, hmodified]
  rcases Tree.kind?_cases hkind with ⟨hnode, hkind⟩ | ⟨inode, hnode, hkind⟩ | ⟨hnode, hkind⟩ <;>
    exact ⟨entry, hentry, hshown, by simp [rowOf, Info.size?, hkind, hnode],
      by simp [rowOf, Info.size?, hkind, hnode], by simp [rowOf, Info.size?, hkind, hnode]⟩

/-- A row of a listing is that of an entry in the directory, wherever its name leads. -/
lemma leads_of_mem {info : Info} (hstat : tree.stat path = .ok info)
    (hmem : row ∈ rowsOf zone tree path (tree.childNames info.location)) :
    ∃ place entry, Leads tree info.location [.enter row.name] place ∧
      tree.entry? place = some entry ∧ Tells zone tree entry row := by
  obtain ⟨hname, -, hrow⟩ := mem_rowsOf.1 hmem
  obtain ⟨found, hfound, hrow⟩ := row?_eq_some_iff.1 hrow
  have hproper : Path.IsName row.name := Tree.isName_of_has (Tree.mem_childNames.1 hname)
  obtain ⟨entry, hentry, htells⟩ := tells_rowOf hfound
  exact ⟨found.location, entry, Tree.leads_of_stat_join hproper hstat hfound, hentry, hrow ▸ htells⟩

/-- The rows for the names in a directory are a listing of it. -/
lemma isListing_rowsOf {info : Info} (hstat : tree.stat path = .ok info)
    (hkind : info.kind = .directory) :
    IsListing zone tree path info.location
      (rowsOf zone tree path (tree.childNames info.location)) where
  ascending := (pairwise_rowsOf (tree.nodup_childNames _)).imp Utf8.encode_lt_encode
  shown_iff name := by
    constructor
    · rintro ⟨row, hmem, rfl⟩
      obtain ⟨hname, hvisible, hrow⟩ := mem_rowsOf.1 hmem
      obtain ⟨found, hfound, -⟩ := row?_eq_some_iff.1 hrow
      exact ⟨Tree.mem_childNames.1 hname, isHidden_eq_false_iff.1 hvisible, found, hfound⟩
    · rintro ⟨hhas, hvisible, found, hfound⟩
      refine ⟨rowOf zone name found, mem_rowsOf.2 ⟨Tree.mem_childNames.2 hhas, ?_, ?_⟩, rfl⟩
      · exact isHidden_eq_false_iff.2 hvisible
      · exact row?_eq_some_iff.2 ⟨found, hfound, rfl⟩
  tells row hmem := leads_of_mem hstat hmem
  plain name directory entry hdirectory henter hentry hlink hvisible hsize hfault := by
    have hhas : tree.Has (name :: info.location) := ⟨entry, hentry⟩
    have hproper : Path.IsName name := Tree.isName_of_has hhas
    obtain ⟨found, hfound, hlocation⟩ :=
      Tree.exists_stat_join hproper hstat hkind hdirectory henter hentry hlink hsize hfault
    obtain ⟨entry', hentry', htells⟩ := tells_rowOf hfound
    rw [hlocation] at hentry'
    obtain rfl := Option.some.inj (hentry.symm.trans hentry')
    refine ⟨rowOf zone name found, mem_rowsOf.2 ⟨Tree.mem_childNames.2 hhas, ?_, ?_⟩, rfl, htells⟩
    · exact isHidden_eq_false_iff.2 hvisible
    · exact row?_eq_some_iff.2 ⟨found, hfound, rfl⟩
  dangling name entry target hentry hnode hnowhere row hmem := by
    rintro rfl
    obtain ⟨place, -, hleads, -⟩ := leads_of_mem hstat hmem
    obtain ⟨-, entry', hentry', hlink⟩ := hleads.of_name
    obtain rfl := Option.some.inj (hentry.symm.trans hentry')
    exact hnowhere place (hlink target hnode)
  closed directory hdirectory henter := by
    rw [List.eq_nil_iff_forall_not_mem]
    intro row hmem
    obtain ⟨place, -, hleads, -⟩ := leads_of_mem hstat hmem
    obtain ⟨⟨directory', hdirectory', henter'⟩, -⟩ := hleads.of_name
    obtain rfl := Option.some.inj (hdirectory.symm.trans hdirectory')
    rw [henter] at henter'
    cases henter'

/-- **Complete listings.**  A directory that can be read has a listing, and only one: whatever the
order in which its names come, the rows are the same. -/
theorem rows_complete (zone : Zone) {info : Info} (hstat : tree.stat path = .ok info)
    (hkind : info.kind = .directory) (hreadable : info.readable = true) :
    ∃ rows, Listing.rows zone tree path = .ok rows ∧ IsListing zone tree path info.location rows ∧
      ∀ names : List Text, names.Nodup →
        (∀ name, name ∈ names ↔ tree.Has (name :: info.location)) →
        rowsOf zone tree path names = rows := by
  have hlist : tree.list path = .ok (tree.childNames info.location) := by
    simp only [Tree.list, hstat, hkind, hreadable, ne_eq, not_true_eq_false, if_false, if_true]
  refine ⟨_, rows_eq_ok_iff.2 ⟨_, hlist, rfl⟩, isListing_rowsOf hstat hkind, ?_⟩
  intro names hnodup hnames
  have hperm : names ~ tree.childNames info.location :=
    (List.perm_ext_iff_of_nodup hnodup (tree.nodup_childNames _)).2 fun name =>
      (hnames name).trans Tree.mem_childNames.symm
  exact rowsOf_congr hnodup hperm

/-- A directory with entries of every kind, its names in no order. -/
def mixedTree : Tree where
  entries := [([], { node := .directory, modified := 0 }),
    (["www".toList], { node := .directory, modified := 0 }),
    (["zoo".toList, "www".toList], { node := .link "gone".toList, modified := 0 }),
    (["é".toList, "www".toList], { node := .link "../www/a.txt".toList, modified := 0 }),
    ([".htaccess".toList, "www".toList], { node := .file 0, modified := 0 }),
    (["up".toList, "www".toList], { node := .link "..".toList, modified := 0 }),
    (["pipe".toList, "www".toList], { node := .special, modified := 0 }),
    (["a.txt".toList, "www".toList], { node := .file 0, modified := 86400 })]
  contents := [.ofBytes [1, 2]]
  hierarchical := by decide +kernel

/-- The rows of its directory. -/
def mixedRows : List Row :=
  [⟨"a.txt".toList, "01/02/1970 00:00:00".toList, some 2⟩,
    ⟨"pipe".toList, "01/01/1970 00:00:00".toList, some 0⟩,
    ⟨"up".toList, "01/01/1970 00:00:00".toList, none⟩,
    ⟨"é".toList, "01/02/1970 00:00:00".toList, some 2⟩]

theorem rows_complete_mixedTree :
    mixedTree.stat "/www".toList = .ok ⟨.directory, 0, true, ["www".toList]⟩ ∧
      Listing.rows .universal mixedTree "/www".toList = .ok mixedRows ∧
      IsListing .universal mixedTree "/www".toList ["www".toList] mixedRows := by
  have hstat : mixedTree.stat "/www".toList = .ok ⟨.directory, 0, true, ["www".toList]⟩ := by
    decide +kernel
  obtain ⟨rows, hrows, hlisting, hnames⟩ := rows_complete .universal hstat rfl rfl
  let names := ["a.txt".toList, "pipe".toList, "up".toList, "zoo".toList, "é".toList,
    ".htaccess".toList]
  have hperm : names ~ mixedTree.childNames ["www".toList] := by decide +kernel
  have hfound : (names.filter (!isHidden ·)).filterMap (row? .universal mixedTree "/www".toList)
      = mixedRows := by
    decide +kernel
  obtain rfl : mixedRows = rows := by
    rw [← hnames names (by decide +kernel) fun name => hperm.mem_iff.trans Tree.mem_childNames,
      ← hfound]
    exact (rowsOf_of_pairwise (hfound ▸ by decide +kernel)).symm
  exact ⟨hstat, hrows, hlisting⟩

end Listing

end SiteServer
