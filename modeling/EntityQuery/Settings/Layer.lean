import EntityQuery.Settings
import EntityQuery.Settings.Key

/-! # Layers of settings

Settings come from several sources. Each source is a `Layer`; what a later layer says of a setting
stands in place of what earlier ones say, and what no layer says keeps its default. Numbers and
truth values are taken from anything that can be read as one. -/
namespace EntityQuery

/-- What a source says of a setting. -/
inductive Setting where
  | bool (b : Bool)
  | int (n : Int)
  | float (f : Float)
  | text (s : String)
  | null
  /-- A list, given as a whole or item by item. -/
  | list (whole : Bool)
  | table (isEmpty : Bool)

namespace Setting

/-- The setting in a message. -/
def describe : Setting → String
  | bool b => s!"boolean `{b}`"
  | int n => s!"64-bit integer `{n}`"
  | float f =>
    let digits := String.ofList (Decimal.floatText .plain f)
    s!"floating point `{digits}`"
  | text s => "string " ++ quoteText s
  | null => "unit value"
  | list _ => "sequence"
  | table _ => "map"

/-- Whether the setting is a table without members, which says nothing. -/
def isEmptyTable : Setting → Bool
  | table isEmpty => isEmpty
  | _ => false

/-- Whether the source gives the setting as it is; a table is put together from its members. -/
def isGiven : Setting → Bool
  | list whole => whole
  | table _ => false
  | _ => true

/-- What was found in place of what was expected. -/
structure Mismatch where
  found : Setting
  expected : String

/-- The setting as a number: a text can be its digits, and a truth value counts as 0 or 1. -/
def natural (setting : Setting) : Except Mismatch Nat :=
  match setting with
  | bool b => .ok b.toNat
  | int n => if n < 0 then .error ⟨setting, "an unsigned 64 bit or less integer"⟩ else .ok n.toNat
  | float f => .ok (Decimal.nearestNatural f)
  | text s =>
    let word := Text.lowercase s.toList
    if word ∈ ["true".toList, "on".toList, "yes".toList] then .ok 1
    else if word ∈ ["false".toList, "off".toList, "no".toList] then .ok 0
    else
      match Decimal.natural? s.toList with
      | some n => .ok n
      | none => .error ⟨setting, "an integer"⟩
  | _ => .error ⟨setting, "an integer"⟩

/-- The setting as a truth value: a number is true unless it is zero. A text counts in lower case,
in which it also stands in a mismatch. -/
def truth (setting : Setting) : Except Mismatch Bool :=
  match setting with
  | bool b => .ok b
  | int n => .ok (n != 0)
  | float f => .ok (f != 0.0)
  | text s =>
    let word := Text.lowercase s.toList
    if word ∈ [['1'], "true".toList, "on".toList, "yes".toList] then .ok true
    else if word ∈ [['0'], "false".toList, "off".toList, "no".toList] then .ok false
    else .error ⟨text (String.ofList word), "a boolean"⟩
  | _ => .error ⟨setting, "a boolean"⟩

end Setting

/-- What a value says of the setting with whose name its key starts: one with members is a table,
one with items a list. -/
def SettingKey.setting (key : SettingKey) (value : Setting) : Setting :=
  match key.steps with
  | [] => value
  | .member _ :: _ => .table false
  | .item _ :: _ => .list false

/-- What one source says. -/
structure Layer where
  /-- The source in a message. -/
  source : String
  settings : List (String × Setting)

namespace Layer

/-- The layer of a source that gives values under keys. -/
def ofValues (source : String) (values : List (String × Setting)) : Layer :=
  ⟨source, values.filterMap fun p =>
    (SettingKey.read? p.1).map fun key => (key.name, key.setting p.2)⟩

/-- What a layer says of a setting: where it is said twice, the last counts, and an empty table
says nothing. -/
def get? (l : Layer) (name : String) : Option Setting :=
  (l.settings.filter (!·.2.isEmptyTable)).reverse.lookup name

/-- What the last layer that speaks of a setting says, and its source if the setting comes from
there as it is. -/
def last? (layers : List Layer) (name : String) : Option (Setting × Option String) :=
  layers.reverse.findSome? fun l =>
    (l.get? name).map fun s => (s, if s.isGiven then some l.source else none)

/-- A setting as `read` reads it, or its default. -/
def value {α : Type} (read : Setting → Except Setting.Mismatch α) (layers : List Layer)
    (name : String) (default : α) : Except ConfigFault α :=
  match last? layers name with
  | none => .ok default
  | some (s, source) =>
    (read s).mapError fun m => .wrongType m.found.describe m.expected name source

/-- A setting that is a number. -/
def natural (layers : List Layer) (name : String) (default : Nat) : Except ConfigFault Nat :=
  value Setting.natural layers name default

/-- A setting that is a truth value. -/
def truth (layers : List Layer) (name : String) (default : Bool) : Except ConfigFault Bool :=
  value Setting.truth layers name default

end Layer

/-- The settings of layers, not yet checked. -/
def Settings.read (layers : List Layer) : Except ConfigFault Settings := do
  let d := Settings.default
  return {
    defaultPageSize := ← Layer.natural layers "default_page_size" d.defaultPageSize
    maxPageSize := ← Layer.natural layers "max_page_size" d.maxPageSize
    maxFetchDepth := ← Layer.natural layers "max_fetch_depth" d.maxFetchDepth
    maxFetches := ← Layer.natural layers "max_fetches" d.maxFetches
    countByDefault := ← Layer.truth layers "count_by_default" d.countByDefault
    zeroBasedPages := ← Layer.truth layers "zero_based_pages" d.zeroBasedPages
    nullSafeEquality := ← Layer.truth layers "null_safe_property_eq" d.nullSafeEquality }

/-- The settings of layers, checked. -/
def Settings.ofLayers (layers : List Layer) : Except Error Settings := do
  let c ← (Settings.read layers).mapError .config
  c.validate
  return c

end EntityQuery
