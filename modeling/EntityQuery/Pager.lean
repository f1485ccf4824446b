import EntityQuery.Decimal.Numeral
import EntityQuery.Settings
import EntityQuery.Sort

/-! # Pagers

A pager says which page of the records is asked for: its number, its size, the offset of its first
record, and the sort order. Page number and offset are kept together: each is computed when the
other is set. A number that would need an offset beyond `Pager.maxOffset` is refused by the
setters; the constructors take the last page that can be reached instead. -/
namespace EntityQuery

/-- The page that is asked for. -/
structure Pager where
  page : Nat
  size : Nat
  zeroBased : Bool
  offset : Nat
  sort : List SortKey
  countEnabled : Bool
deriving DecidableEq

namespace Pager

/-- The largest offset that a store takes. -/
def maxOffset : Nat := 0x7FFFFFFFFFFFFFFF

/-- The number of the first page. -/
def firstPage (p : Pager) : Nat := if p.zeroBased then 0 else 1

/-- The offset of a page, if a store takes it. -/
def offsetFor? (p : Pager) (page size : Nat) : Option Nat :=
  let offset := (page - p.firstPage) * size
  if offset ≤ maxOffset then some offset else none

/-- Goes to a page, or to the first one if the number is smaller. -/
def setPage (p : Pager) (page : Nat) : Except Error Pager :=
  let page := max page p.firstPage
  match p.offsetFor? page p.size with
  | some offset => .ok { p with page := page, offset := offset }
  | none => .error (.invalidPager (.pageOutOfRange page p.size))

/-- Changes the size of the page and keeps its number. -/
def setSize (p : Pager) (size : Nat) : Except Error Pager :=
  match p.offsetFor? p.page size with
  | some offset => .ok { p with size := size, offset := offset }
  | none => .error (.invalidPager (.pageOutOfRange p.page size))

/-- Goes to an offset, and to the page in which it lies. -/
def setOffset (p : Pager) (offset : Nat) : Except Error Pager :=
  if offset > maxOffset then .error (.invalidPager (.offsetOutOfRange offset))
  else .ok { p with page := offset / p.size + p.firstPage, offset := offset }

/-- Goes to a page, or to the last one that can be reached. -/
def moveTo (p : Pager) (page : Nat) : Pager :=
  match p.setPage page with
  | .ok p => p
  | .error _ =>
    let last := p.firstPage + maxOffset / max p.size 1
    { p with page := last, offset := (p.offsetFor? last p.size).getD maxOffset }

/-- The first page, of a size. -/
def first (size : Nat) (zeroBased : Bool) : Pager :=
  ⟨if zeroBased then 0 else 1, size, zeroBased, 0, [], true⟩

/-- A page, counted from zero or from one. -/
def atPage (page size : Nat) (zeroBased : Bool) : Pager := (first size zeroBased).moveTo page

/-- The first page, as the settings have it. -/
def ofSettings (c : Settings) : Pager :=
  { first c.defaultPageSize c.zeroBasedPages with countEnabled := c.countByDefault }

/-- The pager with a sort order. -/
def withSort (p : Pager) (sort : List SortKey) : Pager := { p with sort := sort }

/-- The pager with counting of all records turned on or off. -/
def withCount (p : Pager) (enabled : Bool) : Pager := { p with countEnabled := enabled }

/-! ## Page requests -/

/-- A parameter of a page request. -/
inductive Parameter where
  | page
  | size
  | sort
  | count
deriving DecidableEq

/-- The parameter of this name. -/
def Parameter.ofName? : String → Option Parameter
  | "page" => some page
  | "size" => some size
  | "sort" => some sort
  | "count" => some count
  | _ => none

/-- A truth value in a page request. -/
def truth? (value : List Char) : Option Bool :=
  let lower := Text.asciiLower value
  if lower = "true".toList ∨ lower = ['1'] then some true
  else if lower = "false".toList ∨ lower = ['0'] then some false
  else none

/-- The pager after one more item of a request, and the page asked for so far. -/
def takeItem (p : Pager × Option Nat) (item : String × String) :
    Except Error (Pager × Option Nat) :=
  let (pager, page) := p
  let value := Text.trim item.2.toList
  let invalid (fault : String → PagerFault) : Except Error (Pager × Option Nat) :=
    .error (.invalidPager (fault (String.ofList value)))
  match Parameter.ofName? item.1 with
  | none => .ok p
  | some .page =>
    match Decimal.natural? value with
    | some n => .ok (pager, some n)
    | none => invalid .invalidPage
  | some .size =>
    match Decimal.natural? value with
    | none => invalid .invalidSize
    | some 0 => .error (.invalidPager .sizeZero)
    | some n => do return (← pager.setSize n, page)
  | some .sort => do
    let keys ← SortKey.parse (String.ofList value)
    return (pager.withSort (pager.sort ++ keys), page)
  | some .count =>
    match truth? value with
    | some b => .ok (pager.withCount b, page)
    | none => invalid .invalidCount

/-- The pager that a request asks for by its items; items with other names are left alone. -/
def ofItems (items : List (String × String)) (c : Settings) : Except Error Pager := do
  let (pager, page) ← items.foldlM takeItem (ofSettings c, none)
  match page with
  | none => return pager
  | some page =>
    if page < pager.firstPage then throw (.invalidPager (.pageBelow pager.firstPage))
    pager.setPage page

/-- Refuses a page that is larger than the settings allow, and one of size zero. -/
def validateLimits (p : Pager) (c : Settings) : Except Error Unit :=
  if p.size > c.maxPageSize then .error (.tooCostly (.pageSize p.size c.maxPageSize))
  else if p.size = 0 then .error (.invalidPager .sizeZero)
  else .ok ()

end Pager

end EntityQuery
