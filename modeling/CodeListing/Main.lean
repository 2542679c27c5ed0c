import CodeListing.CommandLine

/-!
# The program

Reads what an invocation needs and writes the response to it.
-/

namespace CodeListing.CommandLine

/-- The result of an action, or its failure in words. -/
def attempt (action : IO String) : IO (Except String String) := do
  try
    return .ok (← action)
  catch e =>
    return .error (toString e)

/-- The rest of a stream, behind what has been read of it. -/
partial def readRest (stream : IO.FS.Stream) (before : String) : IO String := do
  let line ← stream.getLine
  if line.isEmpty then
    return before
  else
    readRest stream (before ++ line)

/-- Carries out an invocation. -/
def perform (invocation : Invocation) : IO Response := do
  let files ← invocation.paths.mapM fun (path : String) => do
    return (path, ← attempt (IO.FS.readFile path))
  let input ← match invocation with
    | .listing .. => attempt (do readRest (← IO.getStdin) "")
    | _ => pure (.ok "")
  return invocation.respond (fun path => (files.lookup path).getD (.error path)) input

/-- Writes a response; its exit code is left. -/
def write (response : Response) : IO UInt32 := do
  IO.print response.stdout
  IO.eprint response.stderr
  return response.code.toUInt32

end CodeListing.CommandLine

open CodeListing.CommandLine in
/-- Does what the arguments ask for. -/
def main (arguments : List String) : IO UInt32 := do
  match parse arguments with
  | .error e => write e.response
  | .ok invocation => write (← perform invocation)
