import EntityQuery.Environment.Basic
import EntityQuery.Files
import EntityQuery.Json.Reader
import EntityQuery.Settings.Layer
import EntityQuery.Text.Lowercase
import EntityQuery.Toml.Reader

/-! # Loading settings

Settings are read from a file, in TOML or JSON by its extension, and after that from environment
variables: `SIFT_MAX_PAGE_SIZE=100` sets `max_page_size`. -/
namespace EntityQuery

/-! ## Files -/

/-- What a TOML value says of a setting. -/
def Setting.ofToml : Toml → Setting
  | .text s => text s
  | .int n => int n
  | .float f => float f
  | .bool b => bool b
  | .list _ => list true
  | .table _ members => table members.isEmpty
  | .tables _ => list true

/-- What a JSON value says of a setting. An integer that 64 bits cannot hold is a float. -/
def Setting.ofJson : Json → Setting
  | .null => null
  | .bool b => bool b
  | .int n => if Decimal.IsInt64 n then int n else float (Float.ofInt n)
  | .float f => float f
  | .text s => text s
  | .list _ => list true
  | .object members => table members.isEmpty

/-- The format of a settings file. -/
inductive SettingsFormat where
  | toml
  | json
deriving DecidableEq

/-- The format of files with this extension. -/
def SettingsFormat.ofExtension? : String → Option SettingsFormat
  | "toml" => some toml
  | "json" => some json
  | _ => none

/-- The values that the text of a settings file gives, under their keys. -/
def SettingsFormat.values (file source : String) :
    SettingsFormat → Except ConfigFault (List (String × Setting))
  | toml =>
    match Toml.read? source with
    | some t => .ok (t.map fun p => (p.1, Setting.ofToml p.2))
    | none => .error (.unreadable ("syntax error in " ++ file))
  | json =>
    match Json.read? source with
    | some (.object members) => .ok (members.map fun p => (p.1, Setting.ofJson p.2))
    | some j => .error (.notKeyed (Setting.ofJson j).describe file)
    | none => .error (.unreadable ("syntax error in " ++ file))

/-- The layer of a file whose name and format are known. A mark of the byte order does not belong to
what is read. -/
def Layer.ofFile (read : FileReader) (name : String) (format : SettingsFormat) :
    Except ConfigFault Layer :=
  match read name with
  | .error fault => .error (.unreadable fault.message)
  | .ok source =>
    let file := plainPath name
    (format.values file (String.ofList (Text.dropMark source.toList))).map (.ofValues file)

/-- The names under which a settings file is looked for if the name itself leads to none. -/
def Settings.fileNames (name : String) : List (String × SettingsFormat) :=
  let stem := plainPath name
  [(stem ++ ".toml", .toml), (stem ++ ".json", .json)]

/-- The layer of the file that a name leads to. -/
def Layer.locate (read : FileReader) (name : String) : Except ConfigFault Layer :=
  if read.hasFile name then
    match (fileExtension? name).bind SettingsFormat.ofExtension? with
    | some format => ofFile read name format
    | none => .error (.unknownFormat name)
  else
    match (Settings.fileNames name).find? fun p => read.hasFile p.1 with
    | some (name, format) => ofFile read name format
    | none => .error (.fileNotFound name)

/-! ## Environment variables -/

/-- What the value of a variable says: a truth value, a number, or else a text. -/
def Setting.ofVariable (value : String) : Setting :=
  let word := Text.asciiLower value.toList
  if word = "true".toList then bool true
  else if word = "false".toList then bool false
  else
    match Decimal.integer? value.toList with
    | some i => int i.toInt
    | none =>
      match Decimal.float? value.toList with
      | some f => float f
      | none => text value

/-- The key that a variable stands for: what follows `SIFT_` in either case. -/
def Settings.keyOfVariable? (name : String) : Option String :=
  (Text.dropStart? "sift_".toList (Text.lowercase name.toList)).map String.ofList

/-- The layer of environment variables. -/
def Layer.ofEnvironment (environment : Environment) : Layer :=
  .ofValues "the environment" <| environment.filterMap fun p =>
    (Settings.keyOfVariable? p.1).map fun key => (key, Setting.ofVariable p.2)

/-- Loads the settings from a file, if one is named, and from environment variables. -/
def Settings.load (read : FileReader) (file : Option String) (environment : Environment) :
    Except Error Settings := do
  let layer ← file.mapM fun name => (Layer.locate read name).mapError Error.config
  Settings.ofLayers (layer.toList ++ [Layer.ofEnvironment environment])

end EntityQuery
