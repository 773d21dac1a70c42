import SiteServer.Site.ErrorPage
import SiteServer.Site.Size
import SiteServer.Storage.Tree
import SiteServer.Text.Markup

/-!
# Directory listings

A listing has a row for every entry of a directory whose name does not begin with a dot and whose
metadata can be read, in the order of the names.  The page shows the rows with links to the entries.
Times are shown as the clock on the wall of the server shows them, so what is written for a moment
depends on its zone.
-/

namespace SiteServer

/-- How moments are written at a place: month, day and year between slashes, and the hours, minutes
and seconds of the day between colons. -/
structure Zone where
  /-- The text for the moment so many seconds after the beginning of 1970. -/
  text : Int → Text
  /-- Beside its digits and what separates them there is only the sign of a year that does not have
  four digits. -/
  plain : ∀ seconds, ∀ c ∈ text seconds, c.isDigit = true ∨ c ∈ ['/', ' ', ':', '+', '-']

/-- One row of a listing. -/
structure Row where
  name : Text
  /-- The time of the last change, as it is shown. -/
  modified : Text
  /-- The size in bytes; a directory has none. -/
  size : Option Nat
  deriving DecidableEq, Repr

namespace Listing

/-- Whether a name is left out of listings. -/
def isHidden (name : Text) : Bool :=
  name.head? = some '.'

/-- The row of an entry; there is none when its metadata cannot be read. -/
def row? (zone : Zone) (tree : Tree) (directory name : Text) : Option Row :=
  match tree.stat (Path.join directory name) with
  | .ok info => some ⟨name, zone.text info.modified, info.size?⟩
  | .error _ => none

/-- Whether a name stands before another one or is the same, character by character. -/
def precedes (a b : Text) : Bool :=
  !decide (b < a)

/-- The rows of the entries with some names, in whatever order the names come. -/
def rowsOf (zone : Zone) (tree : Tree) (directory : Text) (names : List Text) : List Row :=
  ((names.filter (!isHidden ·)).filterMap (row? zone tree directory)).mergeSort
    fun a b => precedes a.name b.name

/-- The rows of the directory at a path. -/
def rows (zone : Zone) (tree : Tree) (directory : Text) : Except Fault (List Row) :=
  (tree.list directory).map (rowsOf zone tree directory)

/-! ## The page -/

/-- The part of the page above the rows. -/
def opening (title : Text) : Text :=
  "<!DOCTYPE HTML PUBLIC \"-//W3C//DTD HTML 3.2 Final//EN\">\n".toList
    ++ "<html>\n <head>\n  <title>index of ".toList ++ title ++ "</title>\n".toList
    ++ "  <style>\n".toList
    ++ "   body \x7b\n    font-family: courier new;\n    font-size: 12;\n   \x7d\n".toList
    ++ "   table \x7b\n    font-family: courier;\n    font-size: 12;\n   \x7d\n".toList
    ++ "  </style>\n </head>\n <body>\n  <h2>index of ".toList ++ title ++ "</h2>\n".toList
    ++ "  <table>\n   <tr>\n".toList
    ++ "    <th align=\"left\" width=\"200\">name</th>\n".toList
    ++ "    <th align=\"left\" width=\"150\">last modified</th>\n".toList
    ++ "    <th align=\"left\" width=\"35\">size</th>\n".toList
    ++ "   </tr>\n   <tr><th colspan=\"5\"><hr></th></tr>\n".toList

/-- The part of the page below the rows. -/
def closing : Text :=
  "   <tr>\n    <th colspan=\"5\"><hr></th>\n   </tr>\n  </table>\n".toList
    ++ "  <address>server powered by ".toList ++ ErrorPage.signature
    ++ "</address>\n </body>\n</html>\n".toList

/-- The size of a row as it is shown. -/
def sizeText : Option Nat → Text
  | none => "dir".toList
  | some size => Size.text size

/-- The address that a row links to, inside its quotes. -/
def link (base name : Text) : Text :=
  base ++ '/' :: name

/-- A row of the page; `base` begins its link and is written as markup already. -/
def rowText (base : Text) (row : Row) : Text :=
  let name := Markup.escape row.name
  "   <tr>\n    <td><a href=\"".toList ++ link base name ++ "\">".toList ++ name
    ++ "</a></td>\n    <td>".toList ++ row.modified ++ "</td>\n    <td>".toList
    ++ sizeText row.size ++ "</td>\n   </tr>\n".toList

/-- The page that shows the rows of the directory that was requested as `directory`. -/
def page (directory : Text) (rows : List Row) : Text :=
  let base := Markup.escape (Text.dropEndWhile (· = '/') directory)
  opening (Markup.escape directory) ++ rows.flatMap (rowText base) ++ closing

end Listing

end SiteServer
