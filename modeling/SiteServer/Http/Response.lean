import SiteServer.Http.MediaType
import SiteServer.Http.Status
import SiteServer.Text.Utf8

/-!
# Responses

A response is a status, a media type and a body.  The body is either at hand or lies in a file, of
which only the path and the length are known.  The header block follows from these, and its
`Content-Length` is always the length of the body.
-/

namespace SiteServer

/-- Where the bytes after the header block come from. -/
inductive Body where
  /-- Bytes at hand. -/
  | data (bytes : Bytes)
  /-- The first `length` bytes of the file at `path`. -/
  | file (path : Text) (length : Nat)
  deriving DecidableEq, Repr

/-- The number of bytes of a body. -/
def Body.length : Body → Nat
  | .data bytes => bytes.length
  | .file _ length => length

/-- A response that is ready to be sent. -/
structure Response where
  status : Status
  mediaType : MediaType
  body : Body
  /-- The value of the `Date` line. -/
  date : Text
  deriving DecidableEq, Repr

namespace Response

/-- The value of the `Server` line. -/
def serverToken : Text := "srv/0.1.1".toList

/-- The number of bytes that follow the header block. -/
def contentLength (response : Response) : Nat :=
  response.body.length

/-- A line end. -/
def lineEnd : Text := ['\r', '\n']

/-- The lines of the header block. -/
def headerLines (response : Response) : List Text :=
  [response.status.line,
   "Connection: close".toList,
   "Date: ".toList ++ response.date,
   "Server: ".toList ++ serverToken,
   "Content-Length: ".toList ++ Decimal.write response.contentLength,
   "Content-Type: ".toList ++ response.mediaType.mime]

/-- The header block: its lines and an empty one, each with its line end. -/
def headerText (response : Response) : Text :=
  response.headerLines.flatMap (· ++ lineEnd) ++ lineEnd

/-- The header block as it is sent. -/
def header (response : Response) : Bytes :=
  Utf8.encode response.headerText

/-- The path of a body that lies in a file. -/
def filePath? (response : Response) : Option Text :=
  match response.body with
  | .data _ => none
  | .file path _ => some path

end Response

end SiteServer
