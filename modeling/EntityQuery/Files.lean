/-! # Files

What is asked of a file is its text. A `FileReader` gives it, or says why there is none. -/
namespace EntityQuery

/-- Why a path gives no text. -/
inductive FileFault where
  | missing
  | directory
  /-- A step of the path leaves from a file. -/
  | notDirectory
  | forbidden
  /-- The bytes of the file are not UTF-8. -/
  | notText
deriving DecidableEq

/-- The text of a fault. -/
def FileFault.message : FileFault → String
  | missing => "No such file or directory (os error 2)"
  | directory => "Is a directory (os error 21)"
  | notDirectory => "Not a directory (os error 20)"
  | forbidden => "Permission denied (os error 13)"
  | notText => "stream did not contain valid UTF-8"

/-- The text of the file at a path. -/
abbrev FileReader := String → Except FileFault String

/-- Whether a path leads to a file, be it one that cannot be read. -/
def FileReader.hasFile (read : FileReader) (path : String) : Bool :=
  match read path with
  | .ok _ | .error .forbidden | .error .notText => true
  | .error _ => false

/-! ## Paths -/

/-- The steps of a path. -/
def pathSteps (path : String) : List (List Char) := path.toList.splitOn '/'

/-- Whether a step stays where it starts. -/
def staysInPlace (step : List Char) : Bool := step.isEmpty || step == ['.']

/-- The steps of a path that do not stay where they start. -/
def placeOf (path : String) : List (List Char) :=
  (pathSteps path).filter fun step => !staysInPlace step

/-- Whether a step goes to the directory above. -/
def climbs (step : List Char) : Bool := step == ['.', '.']

/-- Where steps lead from a place among files, all places being given by the steps to them. Above
the first place there are directories, and nothing is known of what else they hold. -/
def follow (files : List (List (List Char))) (place : List (List Char)) :
    List (List Char) → Except FileFault (List (List Char))
  | [] => .ok place
  | step :: steps =>
    if place ∈ files then .error .notDirectory
    else if staysInPlace step then follow files place steps
    else if climbs step then
      if !place.isEmpty then follow files place.dropLast steps
      else .error (if steps.all fun s => staysInPlace s || climbs s then .directory else .missing)
    else
      let next := place ++ [step]
      if files.any (next.isPrefixOf ·) then follow files next steps else .error .missing

/-- Reads in a directory that holds just these files, given by name and text. -/
def FileReader.ofFiles (files : List (String × String)) : FileReader := fun path => do
  if path.isEmpty || path.toList.head? = some '/' then .error .missing
  let place ← follow (files.map fun file => placeOf file.1) [] (pathSteps path)
  match files.find? fun file => placeOf file.1 = place with
  | some (_, source) => return source
  | none => .error .directory

/-- The path without steps that stay where they start. -/
def plainPath (path : String) : String :=
  let root := if path.toList.head? = some '/' then ['/'] else []
  String.ofList (root ++ List.intercalate ['/'] (placeOf path))

/-- What follows the last dot in the name of a file, if there is a dot after its first character. -/
def fileExtension? (path : String) : Option String :=
  let reversed := (path.toList.reverse).takeWhile (· != '/')
  let extension := reversed.takeWhile (· != '.')
  if extension.length + 1 < reversed.length then some (String.ofList extension.reverse) else none

end EntityQuery
