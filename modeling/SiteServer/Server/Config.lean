import SiteServer.Site.Answer
import SiteServer.Site.Calendar

/-!
# Configuration

What a server is started with, its defaults, and the checks that it has to pass.
-/

namespace SiteServer

/-- An address with a port to listen on. -/
structure Endpoint where
  host : Text
  port : Nat
  deriving DecidableEq, Repr

namespace Endpoint

/-- The endpoint as it is written. -/
def text (endpoint : Endpoint) : Text :=
  endpoint.host ++ ':' :: Decimal.write endpoint.port

/-- The endpoint that a text writes: what stands around its last colon. -/
def parse? (text : Text) : Option Endpoint :=
  match Text.splitLast? ':' text with
  | some (host, port) => ((Decimal.read? port).filter (· < 65536)).map fun port => ⟨host, port⟩
  | none => none

end Endpoint

/-- What a server is started with. -/
structure Config (H : Type) where
  /-- One socket listens on each of them. -/
  endpoints : List Endpoint := [⟨"127.0.0.1".toList, 0⟩]
  root : Text := "/var/www".toList
  index : Text := "index.html".toList
  workers : Nat := 16
  connectionLimit : Nat := 128
  policy : Policy := .contained
  routes : RouteTable H := {}
  /-- How many connections may wait to be accepted. -/
  backlog : Nat := 2147483647
  /-- Whether small writes are sent at once. -/
  noDelay : Bool := true

/-- Why a server cannot be started. -/
inductive ConfigError where
  | noEndpoint
  | noWorker
  | noConnection
  /-- The index is not the name of a file. -/
  | badIndex
  | rootNotDirectory (root : Text)
  deriving DecidableEq, Repr

/-- The text that reports the error. -/
def ConfigError.message : ConfigError → Text
  | .noEndpoint => "no listen address".toList
  | .noWorker => "workers must be at least 1".toList
  | .noConnection => "connection_limit must be at least 1".toList
  | .badIndex => "index must be a plain file name".toList
  | .rootNotDirectory root => "document root ".toList ++ root ++ " is not a directory".toList

namespace Config

variable {H : Type}

/-- The configuration that listens on one port of every address. -/
def withPort (port : Nat) : Config H :=
  { endpoints := [⟨"0.0.0.0".toList, port⟩] }

/-- The first reason that the values alone give why a server cannot be started. -/
def valueProblem? (config : Config H) : Option ConfigError :=
  if config.endpoints = [] then some .noEndpoint
  else if config.workers = 0 then some .noWorker
  else if config.connectionLimit = 0 then some .noConnection
  else if config.index = [] ∨ '/' ∈ config.index then some .badIndex
  else none

/-- The first reason why a server cannot be started, if there is one. -/
def problem? (config : Config H) (tree : Tree) : Option ConfigError :=
  match config.valueProblem? with
  | some error => some error
  | none =>
    if tree.isDirectory config.root then none else some (.rootNotDirectory config.root)

/-- The checks that a configuration has to pass. -/
def validate (config : Config H) (tree : Tree) : Except ConfigError Unit :=
  match config.problem? tree with
  | some error => .error error
  | none => .ok ()

/-- The site that a configuration describes, in a zone. -/
def siteIn (config : Config H) (zone : Zone) : Site H :=
  { root := config.root, index := config.index, policy := config.policy, routes := config.routes
    zone }

/-- The site that a configuration describes where the clocks show universal time. -/
def site (config : Config H) : Site H :=
  config.siteIn .universal

/-- Values without a problem have a single name as index. -/
theorem index_of_valueProblem? {config : Config H} (h : config.valueProblem? = none) :
    config.index ≠ [] ∧ '/' ∉ config.index := by
  unfold valueProblem? at h
  repeat' split at h
  all_goals simp_all

/-- A configuration that passes has values without a problem, and its root is a directory. -/
theorem validate_eq_ok_iff {config : Config H} {tree : Tree} :
    config.validate tree = .ok () ↔
      config.valueProblem? = none ∧ tree.isDirectory config.root = true := by
  unfold validate problem?
  cases config.valueProblem? with
  | some error => simp
  | none => cases tree.isDirectory config.root <;> simp

end Config

end SiteServer
