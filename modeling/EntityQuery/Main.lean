import EntityQuery.CommandLine.Run

/-! # The program

Reads the files and environment variables that the arguments call for, and prints the outcome. -/
namespace EntityQuery.CommandLine

/-- The text of a file. -/
def readFile (file : String) : IO (Except FileFault String) := do
  try
    let bytes ← IO.FS.readBinFile file
    match String.fromUTF8? bytes with
    | some text => return .ok text
    | none => return .error .notText
  catch e =>
    match e with
    | .noFileOrDirectory .. => return .error .missing
    | .permissionDenied .. => return .error .forbidden
    | .inappropriateType _ code _ =>
      return .error (if code = 20 then .notDirectory else .directory)
    | _ => return .error .directory

/-- The variables that the program looks at. -/
def variableNames : List String :=
  ["DATABASE_URL", "SIFT_DEFAULT_PAGE_SIZE", "SIFT_MAX_PAGE_SIZE", "SIFT_MAX_FETCH_DEPTH",
    "SIFT_MAX_FETCHES", "SIFT_COUNT_BY_DEFAULT", "SIFT_ZERO_BASED_PAGES",
    "SIFT_NULL_SAFE_PROPERTY_EQ"]

/-- The variables that are set. -/
def readVariables : IO Environment :=
  variableNames.filterMapM fun name => do
    return (← IO.getEnv name).map fun value => (name, value)

end EntityQuery.CommandLine

open EntityQuery EntityQuery.CommandLine in
/-- Runs the program on the arguments. -/
def main (words : List String) : IO UInt32 := do
  let environment ← readVariables
  let additions ← readFile Environment.fileName
  let names := match Invocation.ofArguments (environment.inDirectory fun _ => additions) words with
    | .ok invocation => invocation.files
    | .error _ => []
  let texts ← names.mapM fun name => return (name, ← readFile name)
  let files := (Environment.fileName, additions) :: texts
  let read (name : String) : Except FileFault String := (files.lookup name).getD (.error .missing)
  let outcome := run read environment words
  if !outcome.output.isEmpty then IO.println outcome.output
  if !outcome.complaint.isEmpty then IO.eprintln outcome.complaint
  return outcome.status
