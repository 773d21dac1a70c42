import SiteServer.Server.CommandLine

/-!
# The program

Reads the command line, checks the configuration that it asks for, and announces it, or reports why
there is none.
-/

open SiteServer in
/-- The program's entry; it ends with 0 when the configuration can be served. -/
def main (arguments : List String) : IO UInt32 := do
  let report (message : Text) : IO Unit := IO.eprintln (String.ofList ("srv: ".toList ++ message))
  match CommandLine.parse (arguments.map String.toList) with
  | .error error =>
    report error.message
    return 2
  | .ok line =>
    let config : Config Unit := line.config
    match config.valueProblem? with
    | some problem =>
      report problem.message
      return 1
    | none =>
      IO.println (String.ofList (CommandLine.announcement config))
      return 0
