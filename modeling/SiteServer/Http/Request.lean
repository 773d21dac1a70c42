import SiteServer.Http.Escape
import SiteServer.Http.Header
import SiteServer.Http.Method
import SiteServer.Http.Query
import SiteServer.Http.Version

/-!
# Requests

A request is read from one buffer.  Its first line has three words, the method, the target and the
version; the target is decoded as a whole and then cut at its first question mark.  Every further
line that is not empty is read as a header line.
-/

namespace SiteServer

/-- A request that is going to be answered.  Its method is always `GET`. -/
structure Request where
  version : Version
  /-- The decoded target up to its first question mark. -/
  path : Text
  params : List Param
  headers : Headers
  deriving DecidableEq, Repr

/-- Why a buffer is not a request. -/
inductive RequestError where
  /-- There is no request line. -/
  | empty
  /-- The request line has a byte above 127. -/
  | notAscii
  /-- The request line does not have three words. -/
  | malformedLine
  | unsupportedMethod (method : Method)
  | unsupportedVersion (error : VersionError)
  deriving DecidableEq, Repr

/-- The text that reports the error. -/
def RequestError.message : RequestError → Text
  | .empty => "empty request".toList
  | .notAscii => "request line is not ascii".toList
  | .malformedLine => "malformed request line".toList
  | .unsupportedMethod method => "unsupported method ".toList ++ method.text
  | .unsupportedVersion error => error.message

namespace Request

/-- The lines of a buffer: what stands between line feeds, less one carriage return at the end. -/
def lines (raw : Bytes) : List Bytes :=
  (Text.pieces 10 raw).map (Text.stripLast 13)

/-- The words of a line: its parts between spaces that are not empty. -/
def words (line : Text) : List Text :=
  (Text.pieces ' ' line).filter (· ≠ [])

/-- The version and the target of a request line. -/
def parseLine (line : Bytes) : Except RequestError (Version × Text) :=
  if line = [] then
    .error .empty
  else if line.any (128 ≤ ·.toNat) then
    .error .notAscii
  else
    match words (Text.ofBytes line) with
    | [] => .error .empty
    | word :: more =>
      if (Method.ofText word).isSupported then
        match more with
        | [target, version] =>
          match Version.parse version with
          | .ok version => .ok (version, target)
          | .error error => .error (.unsupportedVersion error)
        | _ => .error .malformedLine
      else
        .error (.unsupportedMethod (Method.ofText word))

/-- The path and the parameters of a target. -/
def splitTarget (target : Text) : Text × List Param :=
  let decoded := Escape.decode target
  match Text.splitFirst? '?' decoded with
  | some (path, query) => (path, Query.parse query)
  | none => (decoded, [])

/-- The request that a buffer holds. -/
def parse (raw : Bytes) : Except RequestError Request :=
  match lines raw with
  | [] => .error .empty
  | first :: rest =>
    match parseLine first with
    | .error error => .error error
    | .ok (version, target) =>
      let (path, params) := splitTarget target
      .ok { version, path, params, headers := Headers.ofLines (rest.filter (· ≠ [])) }

theorem lines_ne_nil (raw : Bytes) : lines raw ≠ [] := by
  simp [lines, Text.pieces_ne_nil]

end Request

end SiteServer
