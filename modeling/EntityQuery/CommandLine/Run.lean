import EntityQuery.CommandLine.Outcome
import EntityQuery.Environment.File
import EntityQuery.Request
import EntityQuery.Schema.Document
import EntityQuery.Settings.Loading
import EntityQuery.Sql.Statement
import EntityQuery.Text.Percent

/-! # Commands

What each command prints. The files that a command reads come through a `FileReader`, so that a run
is a function of its arguments, the files and the environment variables. -/
namespace EntityQuery.CommandLine

/-- The schema in a file. -/
def readSchema (read : FileReader) (file : String) : Except Failure Schema := do
  let source ← (read file).mapError fun fault =>
    ⟨"Failed to read schema " ++ file, [fault.message]⟩
  (Schema.ofDocument source).mapError fun fault =>
    (Failure.ofError (.schema fault)).wrap ("Invalid schema " ++ file)

/-- The pager that parameters ask for. -/
def readPager (params : String) (c : Settings) : Except Failure Pager := do
  let items ← (Text.parameters params).mapError fun f =>
    ⟨"Invalid parameter '" ++ f.pair ++ "'", [f.fault.message]⟩
  (Pager.ofItems items c).mapError .ofError

/-- A statement as its text and the description of its bind values. -/
def statementJson (q : Sql.Statement) : Json :=
  .object [("sql", .text q.text), ("binds", .text (Sql.Bind.describeList q.binds))]

/-- A fetch plan and the paths under which it fetches by join and by query. -/
def planJson (p : FetchPlan) : Json :=
  .object [("join_paths", .texts p.joinPaths), ("query_paths", .texts p.queryPaths),
    ("plan", p.json)]

/-- The statements and the fetch plan of a request. -/
def explain (read : FileReader) (c : Settings) (r : RequestTexts) : Except Failure Json := do
  let schema ← readSchema read r.schema
  let pager ← readPager r.params c
  let request : Request := ⟨r.entity, r.filter, pager, r.fetch⟩
  let prepared ← (request.prepare schema c).mapError .ofError
  let select ← (Sql.Statement.select schema prepared.select).mapError .ofError
  let count ← (prepared.count.mapM (Sql.Statement.count schema)).mapError .ofError
  return .object [("select", statementJson select), ("count", .ofOption statementJson count),
    ("fetch", planJson prepared.plan)]

/-- Answers a request from a database. No connection to one is part of this program, so it fails
once the schema and the parameters are read. -/
def query (read : FileReader) (c : Settings) (r : RequestTexts) : Except Failure Json := do
  let _ ← readSchema read r.schema
  let _ ← readPager r.params c
  .error (.of "Failed to connect to database")

/-- What a fetch plan names, which must be something. -/
def checkFetch (plan : String) : Except Failure Json := do
  let p ← (FetchPlan.parse plan).mapError .ofError
  if p.isEmpty then .error (.of ("Fetch plan '" ++ plan ++ "' names no associations"))
  return planJson p

/-- What a command prints under the settings. -/
def Command.answer (read : FileReader) (c : Settings) : Command → Except Failure Json
  | .explain r => CommandLine.explain read c r
  | .query r _ _ => CommandLine.query read c r
  | .checkFetch plan => CommandLine.checkFetch plan

/-- What an invocation prints. -/
def Invocation.answer (read : FileReader) (environment : Environment) (i : Invocation) :
    Except Failure Json := do
  let c ← (Settings.load read i.settings environment).mapError fun e =>
    (Failure.ofError e).wrap "Failed to load configuration"
  i.command.answer read c

/-- The files that an invocation may read. -/
def Invocation.files (i : Invocation) : List String :=
  let schema := match i.command with
    | .explain r => [r.schema]
    | .query r _ _ => [r.schema]
    | .checkFetch _ => []
  match i.settings with
  | some name => name :: (Settings.fileNames name).map (·.1) ++ schema
  | none => schema

/-- How a run of the program ends. The directory of the run may hold further variables. -/
def run (read : FileReader) (environment : Environment) (words : List String) : Outcome :=
  let environment := environment.inDirectory read
  match Invocation.ofArguments environment words with
  | .error interruption => .ofInterruption interruption
  | .ok invocation =>
    match invocation.answer read environment with
    | .ok j => .printed j.render
    | .error failure => .failed failure

end EntityQuery.CommandLine
