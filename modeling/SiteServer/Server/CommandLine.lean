import SiteServer.Server.Config

/-!
# The command line

The options that a server can be started with.  An option is a name, followed by a value unless the
option is a switch; a value that is left out has its default, so that without arguments the server
listens on port 80 of every address.
-/

namespace SiteServer

/-- The options that have a value. -/
inductive CommandLine.Key where
  | port
  | bind
  | root
  | index
  | workers
  | connections
  deriving DecidableEq, Repr

/-- Why a command line cannot be read. -/
inductive CommandLine.Error where
  | unknownArgument (argument : Text)
  | missingValue (argument : Text)
  | badValue (argument value : Text)
  deriving DecidableEq, Repr

/-- What a command line asks for. -/
structure CommandLine where
  /-- One listener for each of them, and one on the default port when there is none. -/
  ports : List Nat := []
  host : Text := "0.0.0.0".toList
  root : Text := "/var/www".toList
  index : Text := "index.html".toList
  workers : Nat := 16
  connections : Nat := 128
  policy : Policy := .contained
  deriving DecidableEq, Repr

namespace CommandLine

/-- The text that reports the error. -/
def Error.message : Error → Text
  | .unknownArgument argument => "unexpected argument ".toList ++ argument
  | .missingValue argument => "a value is required for ".toList ++ argument
  | .badValue argument value =>
    "invalid value ".toList ++ value ++ " for ".toList ++ argument

/-- The option that an argument names. -/
def key? (argument : Text) : Option Key :=
  if argument = "-p".toList ∨ argument = "--port".toList then some .port
  else if argument = "--bind".toList then some .bind
  else if argument = "-r".toList ∨ argument = "--root".toList then some .root
  else if argument = "--index".toList then some .index
  else if argument = "--workers".toList then some .workers
  else if argument = "--connections".toList then some .connections
  else none

/-- The command line with one more value, unless the value does not fit the option. -/
def put? (line : CommandLine) (key : Key) (value : Text) : Option CommandLine :=
  match key with
  | .port =>
    ((Decimal.read? value).filter (· < 65536)).map fun port =>
      { line with ports := line.ports ++ [port] }
  | .bind => if value = [] then none else some { line with host := value }
  | .root => some { line with root := value }
  | .index => some { line with index := value }
  | .workers => (Decimal.read? value).map fun workers => { line with workers }
  | .connections => (Decimal.read? value).map fun connections => { line with connections }

/-- The argument that is a switch. -/
def compatPaths : Text := "--compat-paths".toList

/-- The command line with some more arguments. -/
def read (line : CommandLine) : List Text → Except Error CommandLine
  | [] => .ok line
  | [argument] =>
    if argument = compatPaths then .ok { line with policy := .compatible }
    else if (key? argument).isSome then .error (.missingValue argument)
    else .error (.unknownArgument argument)
  | argument :: value :: rest =>
    if argument = compatPaths then read { line with policy := .compatible } (value :: rest)
    else
      match key? argument with
      | none => .error (.unknownArgument argument)
      | some key =>
        match line.put? key value with
        | none => .error (.badValue argument value)
        | some line => read line rest

/-- The command line that some arguments make up. -/
def parse (arguments : List Text) : Except Error CommandLine :=
  read {} arguments

/-- The configuration that a command line asks for. -/
def config {H : Type} (line : CommandLine) : Config H :=
  { endpoints := (if line.ports = [] then [80] else line.ports).map (⟨line.host, ·⟩)
    root := line.root
    index := line.index
    workers := line.workers
    connectionLimit := line.connections
    policy := line.policy }

/-- The endpoints of a configuration and the root that is served there, as a user reads them. -/
def announcement {H : Type} (config : Config H) : Text :=
  "serving ".toList ++ config.root ++ " on ".toList
    ++ ", ".toList.intercalate (config.endpoints.map Endpoint.text)

end CommandLine

end SiteServer
