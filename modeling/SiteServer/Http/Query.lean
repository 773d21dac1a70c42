import SiteServer.Text.Pieces

/-!
# Query parameters

The part of a target after its question mark: segments between `&`, each a key and a value around
its first `=`.  A segment without `=`, or with an empty key or value, is no parameter.
-/

namespace SiteServer

/-- A key with its value. -/
structure Param where
  key : Text
  value : Text
  deriving DecidableEq, Repr

namespace Param

/-- The parameter that a segment of a query writes. -/
def ofSegment? (segment : Text) : Option Param :=
  match Text.splitFirst? '=' segment with
  | some (key, value) => if key = [] ∨ value = [] then none else some ⟨key, value⟩
  | none => none

/-- The segment that writes a parameter. -/
def segment (param : Param) : Text :=
  param.key ++ '=' :: param.value

end Param

namespace Query

/-- How many parameters of one query are kept. -/
def limit : Nat := 64

/-- The first parameters of a query, in their order. -/
def parse (query : Text) : List Param :=
  ((Text.pieces '&' query).filterMap Param.ofSegment?).take limit

/-- The query that writes a list of parameters. -/
def write (params : List Param) : Text :=
  ['&'].intercalate (params.map Param.segment)

theorem length_parse_le (query : Text) : (parse query).length ≤ limit :=
  List.length_take_le _ _

end Query

end SiteServer
