import EntityQuery.Decimal.Numeral
import EntityQuery.Environment.Basic
import EntityQuery.Text.Cut

/-! # Arguments of the command line

A command is named by one word. Options stand before or after it: those that every command takes
on either side, the others after it. An option takes the next word as its value, or what follows an
equals sign in its own word; a word that begins with a dash is never taken for a value. -/
namespace EntityQuery.CommandLine

/-- An option. -/
inductive OptionName where
  | config
  | json
  | logLevel
  | schema
  | entity
  | filter
  | fetch
  | params
  | databaseUrl
  | maxConnections
  | plan
deriving DecidableEq

namespace OptionName

/-- The name after the dashes. -/
def text : OptionName → String
  | config => "config"
  | json => "json"
  | logLevel => "log-level"
  | schema => "schema"
  | entity => "entity"
  | filter => "filter"
  | fetch => "fetch"
  | params => "params"
  | databaseUrl => "database-url"
  | maxConnections => "max-connections"
  | plan => "plan"

/-- Whether the option comes with a value. -/
def takesValue : OptionName → Bool
  | json => false
  | _ => true

/-- The options that every command takes, among them those of logs, of which there are none. -/
def common : List OptionName := [config, json, logLevel]

/-- The options that make up a request. -/
def ofRequest : List OptionName := [schema, entity, filter, fetch, params]

end OptionName

/-- The name of a command. -/
inductive CommandName where
  | explain
  | query
  | checkFetch
deriving DecidableEq

namespace CommandName

/-- The word that names a command. -/
def text : CommandName → String
  | explain => "explain"
  | query => "query"
  | checkFetch => "check-fetch"

/-- All commands. -/
def all : List CommandName := [explain, query, checkFetch]

/-- The command that a word names. -/
def ofText? (word : String) : Option CommandName := all.find? fun c => c.text = word

/-- The options of a command. -/
def options : CommandName → List OptionName
  | explain => OptionName.common ++ OptionName.ofRequest
  | query => OptionName.common ++ OptionName.ofRequest ++ [.databaseUrl, .maxConnections]
  | checkFetch => OptionName.common ++ [.plan]

end CommandName

/-- What is wrong with the arguments. -/
inductive UsageFault where
  | unknownArgument (word : String)
  | noValue (name : OptionName)
  | needlessValue (name : String)
  | repeated (name : OptionName)
  | invalidValue (name : OptionName) (value : String)
  | required (name : OptionName)
  | noCommand
  | unknownCommand (word : String)
deriving DecidableEq

/-- The text of a fault. -/
def UsageFault.message : UsageFault → String
  | unknownArgument word => s!"unexpected argument '{word}' found"
  | noValue name =>
    let option := name.text
    s!"a value is required for '--{option}' but none was supplied"
  | needlessValue name => s!"unexpected value for '--{name}' found"
  | repeated name =>
    let option := name.text
    s!"the argument '--{option}' cannot be used multiple times"
  | invalidValue name value =>
    let option := name.text
    s!"invalid value '{value}' for '--{option}'"
  | required name =>
    let option := name.text
    s!"the required argument '--{option}' was not provided"
  | noCommand => "a command is required"
  | unknownCommand word => s!"unrecognized command '{word}'"

/-- Why the arguments name nothing to do. -/
inductive Interruption where
  | help
  | version
  | misuse (fault : UsageFault)
deriving DecidableEq

/-! ## Words -/

/-- What a word is by its dashes. -/
inductive Word where
  /-- Two dashes and nothing else: no options follow. -/
  | stop
  | long (name : String) (value : Option String)
  | short (letter : Char)
  | plain

/-- What a word is. A single dash is a plain word. -/
def Word.of (word : String) : Word :=
  match word.toList with
  | ['-', '-'] => stop
  | '-' :: '-' :: s =>
    match Text.cut '=' s with
    | some (name, value) => long (String.ofList name) (some (String.ofList value))
    | none => long (String.ofList s) none
  | '-' :: c :: _ => short c
  | _ => plain

/-- Options with their values, an empty one for those that take none. -/
abbrev Values := List (OptionName × String)

/-- The options before the first plain word, after those of `given`, and the words from there on. -/
def readOptions (allowed : List OptionName) (versioned : Bool) (given : Values) :
    List String → Except Interruption (Values × List String)
  | [] => .ok (given, [])
  | word :: words =>
    match Word.of word with
    | .plain | .stop => .ok (given, word :: words)
    | .short letter =>
      if letter = 'h' then .error .help
      else if letter = 'V' && versioned then .error .version
      else .error (.misuse (.unknownArgument word))
    | .long name value =>
      if name = "help" || (name = "version" && versioned) then
        if value.isSome then .error (.misuse (.needlessValue name))
        else .error (if name = "help" then .help else .version)
      else
        match allowed.find? fun o => o.text = name with
        | none => .error (.misuse (.unknownArgument word))
        | some option =>
          if (given.lookup option).isSome then .error (.misuse (.repeated option))
          else if option.takesValue then
            match value, words with
            | some value, words => readOptions allowed versioned (given ++ [(option, value)]) words
            | none, next :: words =>
              match Word.of next with
              | .plain => readOptions allowed versioned (given ++ [(option, next)]) words
              | _ => .error (.misuse (.noValue option))
            | none, [] => .error (.misuse (.noValue option))
          else if value.isSome then .error (.misuse (.needlessValue name))
          else readOptions allowed versioned (given ++ [(option, "")]) words

/-! ## Invocations -/

/-- The texts of a request. -/
structure RequestTexts where
  /-- The file that holds the schema. -/
  schema : String
  entity : String
  filter : String
  fetch : String
  /-- The parameters of the pager. -/
  params : String

/-- What is to be done. -/
inductive Command where
  /-- Shows the statements and the fetch plan of a request. -/
  | explain (request : RequestTexts)
  /-- Answers a request from a database. -/
  | query (request : RequestTexts) (databaseUrl : String) (maxConnections : Nat)
  /-- Shows what a fetch plan names. -/
  | checkFetch (plan : String)

/-- A command and the file of the settings under which it runs. -/
structure Invocation where
  settings : Option String
  command : Command

/-- The value of an option that cannot be left out. -/
def Values.required (values : Values) (name : OptionName) : Except Interruption String :=
  match values.lookup name with
  | some value => .ok value
  | none => .error (.misuse (.required name))

/-- The value of an option, empty if it is left out. -/
def Values.orEmpty (values : Values) (name : OptionName) : String := (values.lookup name).getD ""

/-- Refuses the empty path. -/
def path (name : OptionName) (value : String) : Except Interruption String :=
  if value.isEmpty then .error (.misuse (.invalidValue name value)) else .ok value

/-- The request that options make up. -/
def RequestTexts.ofValues (values : Values) : Except Interruption RequestTexts := do
  return {
    schema := ← path .schema (← values.required .schema)
    entity := ← values.required .entity
    filter := values.orEmpty .filter
    fetch := values.orEmpty .fetch
    params := values.orEmpty .params }

/-- How many connections are asked for: a number of 32 bits, five if nothing is said. -/
def connections (values : Values) : Except Interruption Nat :=
  match values.lookup .maxConnections with
  | none => .ok 5
  | some value =>
    match Decimal.integer? value.toList with
    | some i =>
      if 0 ≤ i.toInt ∧ i.toInt < 0x100000000 then .ok i.toInt.toNat
      else .error (.misuse (.invalidValue .maxConnections value))
    | none => .error (.misuse (.invalidValue .maxConnections value))

/-- The command that options make up. The address of the database may come from the variable
`DATABASE_URL`. -/
def Command.ofValues (environment : Environment) (values : Values) :
    CommandName → Except Interruption Command
  | .explain => do return explain (← RequestTexts.ofValues values)
  | .query => do
    let request ← RequestTexts.ofValues values
    let url ← match values.lookup .databaseUrl <|> environment.get? "DATABASE_URL" with
      | some url => pure url
      | none => .error (.misuse (.required .databaseUrl))
    return query request url (← connections values)
  | .checkFetch => do return checkFetch (← values.required .plan)

/-- Help for commands named by words. -/
def helpFor : List String → Interruption
  | [] => .help
  | word :: _ => if word = "help" || (CommandName.ofText? word).isSome then .help
    else .misuse (.unknownCommand word)

/-- What the arguments ask for. An option of the command stands in place of the same option before
the command. -/
def Invocation.ofArguments (environment : Environment) (words : List String) :
    Except Interruption Invocation := do
  let (outer, words) ← readOptions OptionName.common true [] words
  match words with
  | [] => .error (.misuse .noCommand)
  | word :: words =>
    if word = "--" then .error (.misuse .noCommand)
    else if word = "help" then .error (helpFor words)
    else
      match CommandName.ofText? word with
      | none => .error (.misuse (.unknownCommand word))
      | some name =>
        let (inner, rest) ← readOptions name.options false [] words
        match rest with
        | [] | ["--"] => pure ()
        | "--" :: word :: _ => .error (.misuse (.unknownArgument word))
        | word :: _ => .error (.misuse (.unknownArgument word))
        let settings ← (inner.lookup .config <|> outer.lookup .config).mapM (path .config)
        return ⟨settings, ← Command.ofValues environment inner name⟩

end EntityQuery.CommandLine
