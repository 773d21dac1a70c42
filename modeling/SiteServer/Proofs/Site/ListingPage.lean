import SiteServer.Proofs.Site.Listings
import SiteServer.Proofs.Text.ReadBack
import SiteServer.Proofs.Text.References

/-!
# Reading a listing page

The names and the requested path stand in the page of a listing several times, in text and inside
quotes.  Escaped they hold no mark, so the marks of the page are those of the template
(`marks_page`), and a field ends where the next mark stands.  That is enough to read the page back
without knowing what is in it (`read?_page`), hence two pages are the same only when they show the
same (`page_reads_back`).
-/

namespace SiteServer

open SiteServer.Markup (marks IsPlain)

namespace Decimal

lemma isPlain_write (n : Nat) : IsPlain (write n) :=
  Markup.isPlain_of_digits fun _ => isDigit_of_mem_write

end Decimal

namespace Listing

variable {zone : Zone} {tree : Tree} {path directory base : Text} {names : List Text} {row : Row}
  {rows : List Row}

/-! ### Fields without marks -/

/-- The characters of a time mean nothing in markup, in whatever zone it is written. -/
lemma isPlain_zone (zone : Zone) (seconds : Int) : IsPlain (zone.text seconds) := by
  have hnone : ∀ c ∈ '&' :: marks, c.isDigit = false ∧ c ∉ ['/', ' ', ':', '+', '-'] :=
    Text.forall_of_all (by decide)
  intro c hmem hspecial
  obtain ⟨hdigit, hseparator⟩ := hnone c hspecial
  rcases zone.plain seconds c hmem with h | h
  · simp [hdigit] at h
  · exact hseparator h

/-- The rows of a directory show their times in plain characters. -/
lemma isPlain_modified (h : row ∈ rowsOf zone tree path names) : IsPlain row.modified := by
  obtain ⟨-, -, hrow⟩ := mem_rowsOf.1 h
  obtain ⟨info, -, hinfo⟩ := row?_eq_some_iff.1 hrow
  rw [← hinfo]
  exact isPlain_zone zone _

lemma isPlain_sizeText (size : Option Nat) : IsPlain (sizeText size) := by
  have htenths : ∀ n, IsPlain (Size.writeTenths n) := fun n =>
    (Decimal.isPlain_write _).append_cons (by decide) (Decimal.isPlain_write _)
  unfold sizeText
  split
  · decide +kernel
  · unfold Size.text
    split
    · exact (Decimal.isPlain_write _).append (by decide +kernel)
    split
    · exact (htenths _).append (by decide +kernel)
    · exact (htenths _).append (by decide +kernel)

/-! ### The marks of a page -/

/-- The row of the template, with nothing put in. -/
def blank : Row := ⟨[], [], none⟩

lemma marks_rowText (base : Text) (h : IsPlain row.modified) :
    (rowText (Markup.escape base) row).filter (· ∈ marks) =
      (rowText [] blank).filter (· ∈ marks) := by
  have hescape := fun text => (Markup.unmarked_escape text).filter_marks
  have hsize := (isPlain_sizeText row.size).unmarked.filter_marks
  unfold rowText link
  simp only [List.filter_append, List.filter_cons, hescape, h.unmarked.filter_marks, hsize]
  rfl

/-- Nothing that is put into a page brings a mark into it. -/
lemma marks_page (directory : Text) (h : ∀ row ∈ rows, IsPlain row.modified) :
    (page directory rows).filter (· ∈ marks) =
      (page [] (List.replicate rows.length blank)).filter (· ∈ marks) := by
  have hopening : (opening (Markup.escape directory)).filter (· ∈ marks)
      = (opening []).filter (· ∈ marks) := by
    unfold opening
    simp only [List.filter_append, (Markup.unmarked_escape _).filter_marks, List.filter_nil]
  have hrows : ∀ base, (rows.flatMap (rowText (Markup.escape base))).filter (· ∈ marks) =
      ((List.replicate rows.length blank).flatMap (rowText [])).filter (· ∈ marks) := by
    intro base
    induction rows with
    | nil => rfl
    | cons row rest ih =>
      simp only [List.flatMap_cons, List.length_cons, List.replicate_succ, List.filter_append]
      rw [marks_rowText base (h row List.mem_cons_self),
        ih fun row hmem => h row (List.mem_cons_of_mem _ hmem)]
  simp only [page, List.filter_append, hopening, hrows]
  rfl

/-- How many there are of a mark: a number that is always the same, and another for each row. -/
lemma count_page {c : Char} (hmark : c ∈ marks) (directory : Text)
    (h : ∀ row ∈ rows, IsPlain row.modified) :
    (page directory rows).count c =
      (page [] []).count c + rows.length * (rowText [] blank).count c := by
  have hmarks := congrArg (List.count c) (marks_page directory h)
  have hblank : ((List.replicate rows.length blank).flatMap (rowText [])).count c =
      rows.length * (rowText [] blank).count c := by
    rw [List.count_flatMap, List.map_replicate, List.sum_replicate_nat, Function.comp]
  have hpage : ∀ rows, (page [] rows).count c =
      (opening []).count c + (rows.flatMap (rowText [])).count c + closing.count c := by
    intro rows
    rw [← List.count_append, ← List.count_append]
    rfl
  rw [List.count_filter (by simpa using hmark), List.count_filter (by simpa using hmark)] at hmarks
  rw [hmarks, hpage, hpage, hblank, List.flatMap_nil, List.count_nil, Nat.add_right_comm,
    Nat.add_zero]

/-! ### Reading a page -/

/-- What a page shows of an entry. -/
structure Shown where
  link : Text
  name : Text
  modified : Text
  size : Text
  deriving DecidableEq, Repr

/-- What a page shows. -/
structure Reading where
  directory : Text
  rows : List Shown
  deriving DecidableEq, Repr

/-- The row that a text begins with, and the rest of the text. -/
def readRow? (page : Text) : Option (Shown × Text) := do
  let page ← page.dropPrefix? "   <tr>\n    <td><a href=\"".toList
  let (link, page) ← Markup.fieldTo? "\">".toList page
  let (name, page) ← Markup.fieldTo? "</a></td>\n    <td>".toList page
  let (modified, page) ← Markup.fieldTo? "</td>\n    <td>".toList page
  let (size, page) ← Markup.fieldTo? "</td>\n   </tr>\n".toList page
  return (⟨Markup.unescape link, Markup.unescape name, modified, size⟩, page)

/-- Reading a row takes something off the text. -/
lemma length_readRow? {page rest : Text} {shown : Shown}
    (h : readRow? page = some (shown, rest)) : rest.length < page.length := by
  simp only [readRow?, Option.bind_eq_bind, Option.bind_eq_some_iff, Prod.exists, Option.pure_def,
    Option.some.injEq, Prod.mk.injEq] at h
  obtain ⟨page₁, hstart, _, page₂, hlink, _, page₃, hname, _, page₄, hmodified, _, page₅, hsize,
    -, rfl⟩ := h
  obtain ⟨start, rfl, hbeq⟩ := List.dropPrefix?_eq_some_iff.1 hstart
  have hpos : 0 < "   <tr>\n    <td><a href=\"".toList.length := by decide
  have hlink := Markup.length_fieldTo? hlink
  have hname := Markup.length_fieldTo? hname
  have hmodified := Markup.length_fieldTo? hmodified
  have hsize := Markup.length_fieldTo? hsize
  rw [eq_of_beq hbeq, List.length_append]
  omega

/-- The rows that a text consists of, up to the end of the page. -/
def readRows? (page : Text) : Option (List Shown) :=
  if page = closing then some []
  else
    match _hrow : readRow? page with
    | none => none
    | some (row, rest) => (readRows? rest).map (row :: ·)
termination_by page.length
decreasing_by exact length_readRow? _hrow

/-- The beginning of a page, up to its title. -/
def head : Text :=
  "<!DOCTYPE HTML PUBLIC \"-//W3C//DTD HTML 3.2 Final//EN\">\n".toList
    ++ "<html>\n <head>\n  <title>index of ".toList

/-- The whole page, whose title says which directory it is about. -/
def read? (page : Text) : Option Reading := do
  let headed ← page.dropPrefix? head
  let (title, _) ← Markup.fieldTo? "</title>\n".toList headed
  let body ← page.dropPrefix? (opening title)
  let rows ← readRows? body
  return ⟨Markup.unescape title, rows⟩

/-- What the links of a page begin with. -/
def stem (directory : Text) : Text :=
  Text.dropEndWhile (· = '/') directory

/-- What the page of a directory shows of a row. -/
def shown (directory : Text) (row : Row) : Shown where
  link := link (stem directory) row.name
  name := row.name
  modified := row.modified
  size := sizeText row.size

/-- A row is read off the text that it begins. -/
lemma readRow?_rowText (directory : Text) (h : IsPlain row.modified) (rest : Text) :
    readRow? (rowText (Markup.escape (stem directory)) row ++ rest) =
      some (shown directory row, rest) := by
  have hlink : ∀ base, link (Markup.escape base) (Markup.escape row.name) =
      Markup.escape (link base row.name) := by
    intro base
    rw [link, link, Markup.escape_append, Markup.escape_cons]
    rfl
  unfold rowText
  simp only [hlink, List.append_assoc]
  rw [readRow?, List.dropPrefix?_append_of_beq _ BEq.rfl]
  simp only [Option.bind_eq_bind, Option.bind_some]
  rw [Markup.fieldTo?_append rfl (Markup.unmarked_escape _)]
  simp only [Option.bind_some]
  rw [Markup.fieldTo?_append rfl (Markup.unmarked_escape _)]
  simp only [Option.bind_some]
  rw [Markup.fieldTo?_append rfl h.unmarked]
  simp only [Option.bind_some]
  rw [Markup.fieldTo?_append rfl (isPlain_sizeText _).unmarked]
  simp only [Option.bind_some, Markup.unescape_escape]
  rfl

/-- All the rows above the end of a page are read. -/
lemma readRows?_flatMap (directory : Text) (h : ∀ row ∈ rows, IsPlain row.modified) :
    readRows? (rows.flatMap (rowText (Markup.escape (stem directory))) ++ closing)
      = some (rows.map (shown directory)) := by
  induction rows with
  | nil =>
    rw [List.flatMap_nil, List.nil_append, readRows?, if_pos rfl]
    rfl
  | cons row rest ih =>
    have ih := ih fun row hmem => h row (List.mem_cons_of_mem _ hmem)
    have hread := readRow?_rowText directory (h row List.mem_cons_self)
      (rest.flatMap (rowText (Markup.escape (stem directory))) ++ closing)
    rw [List.flatMap_cons, List.append_assoc, readRows?]
    split
    · next heq =>
      -- a row is not nothing, so a page with a row left is not at its end
      have hlength := length_readRow? hread
      rw [heq, List.length_append] at hlength
      omega
    · split
      · next hnone => cases hread.symm.trans hnone
      · next row' rest' hsome =>
        cases hread.symm.trans hsome
        rw [ih]
        rfl

/-- What is put into a page is read back from it. -/
lemma read?_page (directory : Text) (h : ∀ row ∈ rows, IsPlain row.modified) :
    read? (page directory rows) = some ⟨directory, rows.map (shown directory)⟩ := by
  obtain ⟨more, hopening⟩ : ∃ more, opening (Markup.escape directory) =
      head ++ (Markup.escape directory ++ ("</title>\n".toList ++ more)) := by
    unfold opening head
    simp only [List.append_assoc]
    exact ⟨_, rfl⟩
  have hpage : page directory rows = opening (Markup.escape directory) ++
      (rows.flatMap (rowText (Markup.escape (stem directory))) ++ closing) :=
    List.append_assoc _ _ _
  have hhead : (page directory rows).dropPrefix? head = some (Markup.escape directory ++
      ("</title>\n".toList ++ (more ++ (rows.flatMap
        (rowText (Markup.escape (stem directory))) ++ closing)))) := by
    rw [hpage, hopening]
    simp only [List.append_assoc]
    exact List.dropPrefix?_append_of_beq _ BEq.rfl
  rw [read?, hhead]
  simp only [Option.bind_eq_bind, Option.bind_some]
  rw [Markup.fieldTo?_append rfl (Markup.unmarked_escape _)]
  simp only [Option.bind_some]
  rw [hpage, List.dropPrefix?_append_of_beq _ BEq.rfl]
  simp only [Option.bind_some]
  rw [readRows?_flatMap directory h, Markup.unescape_escape]
  rfl

/-- **A page keeps what is put into it apart from its own tags.**  Its marks are those of a page of
blank rows, a fixed number of each and a fixed number for each row; the requested path and what is
shown of each entry are read back from the page; and so two pages, even as bytes, are the same only
when they are about the same path and show the same. -/
theorem page_reads_back (directory : Text) (rows : List Row)
    (h : ∀ row ∈ rows, IsPlain row.modified) :
    (page directory rows).filter (· ∈ marks)
        = (page [] (List.replicate rows.length blank)).filter (· ∈ marks) ∧
      (page directory rows).count '<' = 35 + rows.length * 10 ∧
      (page directory rows).count '>' = 35 + rows.length * 10 ∧
      (page directory rows).count '"' = 18 + rows.length * 2 ∧
      read? (page directory rows) = some ⟨directory, rows.map (shown directory)⟩ ∧
      ∀ (directory' : Text) (rows' : List Row), (∀ row ∈ rows', IsPlain row.modified) →
        Utf8.encode (page directory rows) = Utf8.encode (page directory' rows') →
        directory = directory' ∧ rows.map (shown directory) = rows'.map (shown directory') := by
  have hpage : (page [] []).count '<' = 35 ∧ (page [] []).count '>' = 35 ∧
      (page [] []).count '"' = 18 := by decide +kernel
  have hrow : (rowText [] blank).count '<' = 10 ∧ (rowText [] blank).count '>' = 10 ∧
      (rowText [] blank).count '"' = 2 := by decide +kernel
  refine ⟨marks_page directory h, ?_, ?_, ?_, read?_page directory h, ?_⟩
  · rw [count_page (by decide) directory h, hpage.1, hrow.1]
  · rw [count_page (by decide) directory h, hpage.2.1, hrow.2.1]
  · rw [count_page (by decide) directory h, hpage.2.2, hrow.2.2]
  · intro directory' rows' h' hbytes
    have hsame := congrArg read? (Utf8.encode_injective hbytes)
    rw [read?_page directory h, read?_page directory' h'] at hsame
    simpa only [Option.some.injEq, Reading.mk.injEq] using hsame

/-- Entries whose names look like parts of a page and of an escape. -/
def oddRows : List Row :=
  [⟨"<b>&lt;\"x".toList, "01/01/1970 00:00:00".toList, some 7⟩,
    ⟨"</a></td>".toList, "12/31/1969 23:59:59".toList, none⟩]

theorem page_reads_back_oddRows :
    (∀ row ∈ oddRows, IsPlain row.modified) ∧
      (page "/<i>/".toList oddRows).count '<' = 55 ∧
      read? (page "/<i>/".toList oddRows) = some ⟨"/<i>/".toList,
        [⟨"/<i>/<b>&lt;\"x".toList, "<b>&lt;\"x".toList, "01/01/1970 00:00:00".toList,
            "7b".toList⟩,
          ⟨"/<i>/</a></td>".toList, "</a></td>".toList, "12/31/1969 23:59:59".toList,
            "dir".toList⟩]⟩ := by
  have hplain : ∀ row ∈ oddRows, IsPlain row.modified := by decide +kernel
  obtain ⟨-, hcount, -, -, hread, -⟩ := page_reads_back "/<i>/".toList oddRows hplain
  exact ⟨hplain, hcount, hread.trans rfl⟩

end Listing

end SiteServer
