import SiteServer.Site.Answer

/-!
# Sample handlers

Small handlers to try a site out: one always says the same, one shows what it was asked, one counts
its calls, one has no answer and one breaks down.  Since a handler may count, the answers to a list
of requests are computed one after the other, with the calls so far.
-/

namespace SiteServer

/-- What a sample handler does. -/
inductive Sample.Kind where
  /-- Always answers these bytes. -/
  | fixed (bytes : Bytes)
  /-- Answers the path it was asked for and the parameters; the beginning `root` of the path is
  shown as `label`. -/
  | echo (root label : Text)
  /-- Answers the number of its calls. -/
  | counter
  /-- Has no answer. -/
  | silent
  /-- Breaks down. -/
  | broken
  deriving DecidableEq, Repr

/-- A sample handler; `key` tells it apart from the others of its site. -/
structure Sample where
  key : Nat
  kind : Sample.Kind
  found : Bool := true
  length : Option Nat := none
  code : Option Nat := none
  deriving DecidableEq, Repr

/-- How often each handler has been called, by its key. -/
abbrev Calls := Nat → Nat

namespace Calls

/-- No calls yet. -/
def none : Calls := fun _ => 0

/-- The calls after one more of the handler with that key. -/
def add (calls : Calls) (key : Nat) : Calls :=
  fun k => if k = key then calls k + 1 else calls k

end Calls

namespace Sample

/-- The path with its beginning `root` replaced by `label`. -/
def relabel (root label path : Text) : Text :=
  if root.isPrefixOf path then label ++ path.drop root.length else path

/-- The reaction of a handler that has been called `calls` times before. -/
def reply (calls : Nat) (sample : Sample) : Handler := fun path params =>
  let transaction : Transaction :=
    { found := sample.found, length := sample.length
      mediaType := MediaType.ofCode (sample.code.getD 0) }
  match sample.kind with
  | .fixed bytes => .answered transaction bytes
  | .echo root label =>
    let shown := relabel root label path
      ++ params.flatMap fun p => '|' :: p.key ++ '=' :: p.value
    .answered transaction (Utf8.encode shown)
  | .counter => .answered transaction (Utf8.encode ('#' :: Decimal.write (calls + 1)))
  | .silent => .declined
  | .broken => .panicked

/-- The calls after a requested path has been answered. -/
def callsAfter (site : Site Sample) (calls : Calls) (requested : Text) : Calls :=
  match site.mount? requested with
  | some mount => calls.add mount.handler.key
  | none => calls

/-- The answers to requested paths with their parameters, one after the other. -/
def answers (site : Site Sample) (date : Text) (tree : Tree) (calls : Calls) :
    List (Text × List Param) → List (Except Failure Response)
  | [] => []
  | (requested, params) :: rest =>
    site.answer (fun sample => sample.reply (calls sample.key)) date tree requested params
      :: answers site date tree (callsAfter site calls requested) rest

end Sample

end SiteServer
