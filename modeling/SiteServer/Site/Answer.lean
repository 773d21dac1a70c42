import SiteServer.Http.Query
import SiteServer.Site.Listing
import SiteServer.Site.Route
import SiteServer.Site.Target

/-!
# The answer to a request

A site is a document root with an index name, a policy for requested paths and a table of handlers.
A path that has a handler is answered by it alone.  Any other path is looked up in the file tree: a
regular file is the body, a directory answers with its index file or with a listing, and what is
missing, closed or special answers with an error page.
-/

namespace SiteServer

/-- What a handler says beside the bytes of its answer. -/
structure Transaction where
  /-- Whether the answer is what was asked for. -/
  found : Bool := true
  /-- How many bytes of the answer are sent, all of them when nothing is said. -/
  length : Option Nat := none
  mediaType : MediaType := .octetStream
  deriving DecidableEq, Repr

/-- How a handler reacts to a request. -/
inductive Reply where
  | answered (transaction : Transaction) (data : Bytes)
  /-- The handler has no answer. -/
  | declined
  /-- The handler broke down. -/
  | panicked
  deriving DecidableEq, Repr

/-- A handler sees the resolved file path and the parameters of a request. -/
abbrev Handler := Text → List Param → Reply

/-- What requests are answered from. -/
structure Site (H : Type) where
  root : Text
  index : Text
  policy : Policy
  routes : RouteTable H
  /-- Where the server stands, for the times in listings. -/
  zone : Zone

/-- Why a request is left without an answer. -/
inductive Failure where
  /-- The directory cannot be listed. -/
  | listing (fault : Fault)
  /-- The handler broke down. -/
  | panic
  deriving DecidableEq, Repr

namespace Site

variable {H : Type}

/-- The handler for a requested path. -/
def mount? (site : Site H) (requested : Text) : Option (Mount H) :=
  site.routes.lookup (Target.route site.policy requested)

/-- The response that a handler's answer makes. -/
def handled (date : Text) (transaction : Transaction) (data : Bytes) : Response :=
  { status := if transaction.found then .ok else .notFound
    mediaType := transaction.mediaType
    body := .data (data.take (transaction.length.getD data.length))
    date }

/-- The media type of the file at a path. -/
def mediaTypeOf (path : Text) : MediaType :=
  match Path.fileName? path with
  | some name => .ofFileName name
  | none => .octetStream

/-- The response whose body is the regular file at a path. -/
def served (date path : Text) (size : Nat) : Response :=
  { status := .ok, mediaType := mediaTypeOf path, body := .file path size, date }

/-- The page for a path that leads nowhere. -/
def errorPage (date : Text) (fault : Fault) : Response :=
  if fault = .denied then ErrorPage.forbidden date else ErrorPage.notFound date

/-- The answer for a path that leads to a directory. -/
def directoryAnswer (site : Site H) (date : Text) (tree : Tree) (path requested : Text) :
    Except Failure Response :=
  let indexPath := Path.join path site.index
  match tree.stat indexPath with
  | .ok ⟨.file _ size, _, _, _⟩ => .ok (served date indexPath size)
  | _ =>
    match Listing.rows site.zone tree path with
    | .ok rows =>
      .ok { status := .ok, mediaType := .html
            body := .data (Utf8.encode (Listing.page requested rows)), date }
    | .error .denied => .ok (ErrorPage.forbidden date)
    | .error fault => .error (.listing fault)

/-- The answer for a path without a handler. -/
def fileAnswer (site : Site H) (date : Text) (tree : Tree) (path requested : Text) :
    Except Failure Response :=
  match tree.stat path with
  | .error fault => .ok (errorPage date fault)
  | .ok info =>
    match info.kind with
    | .file _ size => .ok (served date path size)
    | .special => .ok (ErrorPage.forbidden date)
    | .directory => site.directoryAnswer date tree path requested

/-- The answer to a requested path with its parameters; `ask` runs a handler. -/
def answer (site : Site H) (ask : H → Handler) (date : Text) (tree : Tree) (requested : Text)
    (params : List Param) : Except Failure Response :=
  let path := Target.filePath site.policy site.root requested
  match site.mount? requested with
  | some mount =>
    match ask mount.handler path params with
    | .answered transaction data => .ok (handled date transaction data)
    | .declined => .ok (ErrorPage.notFound date)
    | .panicked => .error .panic
  | none => site.fileAnswer date tree path requested

end Site

end SiteServer
