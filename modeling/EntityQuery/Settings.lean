import EntityQuery.Error
import EntityQuery.Json.Basic

/-! # Settings

The limits that requests have to keep, and what is meant where a request says nothing. -/
namespace EntityQuery

/-- Limits and defaults of requests. -/
structure Settings where
  /-- The size of a page where the request gives none. -/
  defaultPageSize : Nat
  maxPageSize : Nat
  /-- How deep the paths of a fetch plan may go. -/
  maxFetchDepth : Nat
  /-- How many fetches a plan may hold. -/
  maxFetches : Nat
  countByDefault : Bool
  /-- Whether the first page is page zero. -/
  zeroBasedPages : Bool
  /-- Whether null equals null where two attributes are compared. -/
  nullSafeEquality : Bool
deriving DecidableEq

namespace Settings

/-- The settings where nothing else is said. -/
def default : Settings where
  defaultPageSize := 20
  maxPageSize := 500
  maxFetchDepth := 4
  maxFetches := 16
  countByDefault := true
  zeroBasedPages := false
  nullSafeEquality := true

/-- What is wrong with the settings, the first fault only. -/
def fault? (c : Settings) : Option ConfigFault :=
  if c.defaultPageSize = 0 then some .pageSizeZero
  else if c.defaultPageSize > c.maxPageSize then
    some (.pageSizeAboveMaximum c.defaultPageSize c.maxPageSize)
  else if c.maxFetchDepth = 0 then some .fetchDepthZero
  else none

/-- Refuses settings that contradict themselves. -/
def validate (c : Settings) : Except Error Unit :=
  match c.fault? with
  | some fault => .error (.config fault)
  | none => .ok ()

/-- The JSON form of settings. -/
def json (c : Settings) : Json :=
  .object [("default_page_size", .nat c.defaultPageSize), ("max_page_size", .nat c.maxPageSize),
    ("max_fetch_depth", .nat c.maxFetchDepth), ("max_fetches", .nat c.maxFetches),
    ("count_by_default", .bool c.countByDefault), ("zero_based_pages", .bool c.zeroBasedPages),
    ("null_safe_property_eq", .bool c.nullSafeEquality)]

end Settings

end EntityQuery
