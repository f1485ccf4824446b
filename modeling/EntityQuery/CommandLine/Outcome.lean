import EntityQuery.CommandLine.Arguments
import EntityQuery.Error

/-! # Outcomes of the command line

A command ends in a text on standard output, or in a failure on standard error with the chain of
its causes. -/
namespace EntityQuery.CommandLine

/-- A failure and what caused it, the nearest cause first. -/
structure Failure where
  message : String
  causes : List String

namespace Failure

/-- A failure without a cause. -/
def of (message : String) : Failure := ⟨message, []⟩

/-- The failure that comes of an error. -/
def ofError (e : Error) : Failure :=
  match e with
  | .config fault => ⟨e.message, [fault.message]⟩
  | e => of e.message

/-- A failure of which another one is the cause. -/
def wrap (message : String) (f : Failure) : Failure := ⟨message, f.message :: f.causes⟩

/-- A cause, its lines after the first one indented as far as the text of the first. -/
def causeLines (start : String) (cause : String) : String :=
  let indentation := String.ofList (List.replicate start.length ' ')
  start ++ String.intercalate ("\n" ++ indentation)
    ((cause.toList.splitOn '\n').map String.ofList)

/-- A cause with its number among several. -/
def numbered (p : String × Nat) : String :=
  let digits := Decimal.text p.2
  let start := List.replicate (5 - digits.length) ' ' ++ digits ++ [':', ' ']
  causeLines (String.ofList start) p.1

/-- The text of a failure. -/
def text (f : Failure) : String :=
  let causes := match f.causes with
    | [] => []
    | [cause] => [causeLines "    " cause]
    | causes => causes.zipIdx.map numbered
  "Error: " ++ f.message ++
    (if causes.isEmpty then "" else "\n\nCaused by:\n" ++ String.intercalate "\n" causes)

end Failure

/-- How a run of the program ends. -/
inductive Outcome where
  | printed (text : String)
  | failed (failure : Failure)
  | misused (fault : UsageFault)

namespace Outcome

/-- What the program says of itself. -/
def usage : String :=
  "Filter, sort and fetch-plan query tool

Usage: entity-query [OPTIONS] <COMMAND>

Commands:
  explain      Print the SQL, bind values and fetch plan a request compiles to
  query        Run a request against PostgreSQL and print the page as JSON
  check-fetch  Parse a fetch plan and print its join and query paths

Options:
      --config <CONFIG>        Query limits file (TOML); SIFT_* environment variables override it
      --json                   Emit logs as JSON
      --log-level <LOG_LEVEL>  Default log level
  -h, --help                   Print help
  -V, --version                Print version"

/-- The outcome of arguments that name nothing to do. -/
def ofInterruption : Interruption → Outcome
  | .help => printed usage
  | .version => printed "entity-query 0.1.10"
  | .misuse fault => misused fault

/-- The status with which the program ends. -/
def status : Outcome → UInt32
  | printed _ => 0
  | failed _ => 1
  | misused _ => 2

/-- The text on standard output. -/
def output : Outcome → String
  | printed text => text
  | _ => ""

/-- The text on standard error. -/
def complaint : Outcome → String
  | printed _ => ""
  | failed failure => failure.text
  | misused fault => "error: " ++ fault.message ++ "\n\n" ++ usage

end Outcome

end EntityQuery.CommandLine
