import EntityQuery.Decimal.Numeral
import EntityQuery.Fetch.Plan
import EntityQuery.Text.Character

/-! # The text of a fetch plan

A plan is written as the names of associations with blanks between them. A name may be followed by
`[n]`, `[from:to]`, `[from:]` or `[:to]`, positions counted from one, for a query fetch, or by `[]`
or `[:]` for a join fetch of several targets; then by `(field:direction, …)`, the order of a query
fetch; then by the fetches from the association, between braces. Offsets in errors count bytes from
the start of the text. `FetchPlan.items` cuts the text as far as it can be cut, and
`FetchPlan.parse` reports the first error in the order of the text. -/
namespace EntityQuery

namespace Fetch

/-! ## Positions and sort orders -/

/-- A position; blanks alone are none. -/
def position (s : List Char) : Except PlanFault (Option Nat) :=
  let s := Text.trim s
  if s.isEmpty then .ok none
  else
    match Decimal.natural? s with
    | some 0 => .error .positionZero
    | some n => .ok (some n)
    | none => .error (.invalidPosition (String.ofList s))

/-- The offset and the number of targets that the text between square brackets asks for, if it
asks for a part at all. -/
def bounds (body : List Char) : Except PlanFault (Option (Nat × Option Nat)) := do
  let body := Text.trim body
  match Text.cut ':' body with
  | none =>
    match ← position body with
    | none => return none
    | some n => return some (n - 1, some 1)
  | some (first, last) =>
    match ← position first, ← position last with
    | none, none => return none
    | first, some last =>
      let first := first.getD 1
      if last < first then throw (.emptyRange first last)
      return some (first - 1, some (last - first + 1))
    | some first, none => return some (first - 1, none)

/-- An entry of a sort order. -/
def sortEntry (item : List Char) : Except PlanFault SortKey :=
  let item := Text.trim item
  match Text.cut ':' item with
  | none => .error (.missingDirection (String.ofList item))
  | some (field, name) =>
    let name := Text.trim name
    match Direction.ofName? name with
    | none => .error (.invalidDirection (String.ofList name))
    | some direction =>
      let field := Text.trim field
      if field.isEmpty then .error (.emptySortField (String.ofList item))
      else .ok ⟨String.ofList field, direction⟩

/-- The sort order that the text between parentheses asks for. -/
def sortOrder (body : List Char) : Except PlanFault (List SortKey) :=
  (body.splitOn ',').mapM sortEntry

end Fetch

namespace FetchPlan

/-! ## Cutting the text -/

/-- A part of the text of a plan, with the offset at which it starts. -/
inductive Item where
  | opening (index : Nat)
  | closing (index : Nat)
  | fetch (index : Nat) (f : Fetch)
deriving DecidableEq

/-- The offset of the rest of a text of `size` bytes. -/
def offset (size : Nat) (rest : List Char) : Nat := size - Text.byteSize rest

/-- Whether the character can stand in the name of an association. -/
def isNameChar (c : Char) : Bool := Text.isAlphanumeric c || c == '_'

/-- The text between brackets at the start of `s`, if there is an opening bracket, and the rest. -/
def bracketed (size : Nat) (opener closer : Char) (s : List Char) :
    Except Error (Option (List Char) × List Char) :=
  match s with
  | [] => .ok (none, [])
  | c :: rest =>
    if c = opener then
      match Text.cut closer rest with
      | some (body, rest) => .ok (some body, rest)
      | none => .error (.malformedFetchPlan (offset size s) (.unterminated opener))
    else .ok (none, s)

/-- What the text at `rest` says, as an error of the plan. -/
def located {α : Type} (size : Nat) (rest : List Char) : Except PlanFault α → Except Error α
  | .ok a => .ok a
  | .error fault => .error (.malformedFetchPlan (offset size rest) fault)

/-- The fetch of an association with the text between square brackets after its name. -/
def bounded (name : String) : Option (Option (Nat × Option Nat)) → Fetch
  | none => .join name
  | some none => .joinCollection name
  | some (some (first, limit)) => ⟨name, .query first limit []⟩

/-- The fetch at the start of a text, and the rest. -/
def fetch (size : Nat) (s : List Char) : Except Error (Fetch × List Char) := do
  let name := s.takeWhile isNameChar
  let afterName := s.dropWhile isNameChar
  if name.isEmpty then
    throw (.malformedFetchPlan (offset size s) (.expectedName s.head?))
  let (body, afterBounds) ← bracketed size '[' ']' afterName
  let bounds ← located size afterName (body.mapM Fetch.bounds)
  let f := bounded (String.ofList name) bounds
  let (body, rest) ← bracketed size '(' ')' afterBounds
  match body with
  | none => return (f, rest)
  | some body =>
    let sorting ← located size afterBounds (Fetch.sortOrder body)
    return (← f.withSort sorting, rest)

theorem length_dropWhile_le (p : Char → Bool) (s : List Char) :
    (s.dropWhile p).length ≤ s.length := (List.dropWhile_sublist p).length_le

theorem length_bracketed {size : Nat} {opener closer : Char} {s rest : List Char}
    {body : Option (List Char)} (h : bracketed size opener closer s = .ok (body, rest)) :
    rest.length ≤ s.length := by
  unfold bracketed at h
  split at h
  · cases h
    simp
  · split at h
    · split at h
      · next hc =>
        obtain ⟨_, rfl⟩ := Text.cut_eq_some_iff.mp hc
        cases h
        simp only [List.length_cons, List.length_append]
        omega
      · cases h
    · cases h
      simp

/-- A fetch takes at least the first character of its name. -/
theorem length_fetch {size : Nat} {s rest : List Char} {f : Fetch}
    (h : fetch size s = .ok (f, rest)) : rest.length < s.length := by
  have name : (s.takeWhile isNameChar).isEmpty = false →
      (s.dropWhile isNameChar).length < s.length := by
    intro hn
    cases s with
    | nil => simp at hn
    | cons c s =>
      cases hc : isNameChar c with
      | false => simp [hc] at hn
      | true =>
        rw [List.dropWhile_cons_of_pos hc]
        have := length_dropWhile_le isNameChar s
        simp only [List.length_cons]
        omega
  unfold fetch at h
  simp only [bind, Except.bind, pure, Except.pure, throw, throwThe, MonadExceptOf.throw] at h
  split at h
  · cases h
  · next hn =>
    split at h
    · cases h
    · next p hp =>
      have h1 := length_bracketed hp
      have h0 := name (by simpa using hn)
      split at h
      · cases h
      · split at h
        · cases h
        · next q hq =>
          have h2 := length_bracketed hq
          split at h
          · cases h
            omega
          · split at h
            · cases h
            · split at h
              · cases h
              · cases h
                omega

/-- The items of a text of which `s` is left, up to the first that cannot be read, and the error
met there. -/
def itemsOf (size : Nat) (s : List Char) : List Item × Option Error :=
  match _h : Text.trimStart s with
  | [] => ([], none)
  | c :: rest =>
    if c = '\x7b' then
      let (items, e) := itemsOf size rest
      (.opening (offset size (c :: rest)) :: items, e)
    else if c = '\x7d' then
      let (items, e) := itemsOf size rest
      (.closing (offset size (c :: rest)) :: items, e)
    else
      match _hf : fetch size (c :: rest) with
      | .error e => ([], some e)
      | .ok (f, after) =>
        let (items, e) := itemsOf size after
        (.fetch (offset size (c :: rest)) f :: items, e)
termination_by s.length
decreasing_by
  all_goals
    have hs := length_dropWhile_le Text.isBlank s
    rw [show s.dropWhile Text.isBlank = c :: rest from _h, List.length_cons] at hs
  · omega
  · omega
  · have := length_fetch _hf
    simp only [List.length_cons] at this
    omega

/-- The items of a text, up to the first that cannot be read, and the error met there. -/
def items (text : List Char) : List Item × Option Error := itemsOf (Text.byteSize text) text

/-! ## Building the plan -/

/-- A plan of which a part has been read. -/
structure Builder where
  plan : FetchPlan
  /-- The paths between whose braces the next item stands, the innermost first, with the offsets of
  the braces. -/
  opened : List (String × Nat)
  /-- The path of the fetch just read. -/
  last : Option String
deriving DecidableEq

namespace Builder

/-- Before the first item. -/
def start : Builder := ⟨.empty, [], none⟩

/-- The path of the records that the next fetch belongs to. -/
def parent (b : Builder) : String := (b.opened.head?.map (·.1)).getD ""

/-- The builder after one more item. -/
def read (b : Builder) : Item → Except Error Builder
  | .opening index =>
    match b.last with
    | none => .error (.malformedFetchPlan index .braceWithoutField)
    | some path => .ok { b with opened := (path, index) :: b.opened, last := none }
  | .closing index =>
    match b.opened with
    | [] => .error (.malformedFetchPlan index .unmatchedBrace)
    | _ :: outer => .ok { b with opened := outer, last := none }
  | .fetch index f =>
    match b.plan.add b.parent f with
    | .ok plan => .ok { b with plan := plan, last := some (Path.extend b.parent f.name) }
    | .error (.malformedFetchPlan _ fault) => .error (.malformedFetchPlan index fault)
    | .error e => .error e

/-- The plan at the end of the text. -/
def finish (b : Builder) : Except Error FetchPlan :=
  match b.opened with
  | (_, index) :: _ => .error (.malformedFetchPlan index (.unterminated '\x7b'))
  | [] => .ok b.plan

end Builder

/-- Reads a plan. -/
def parse (text : String) : Except Error FetchPlan := do
  let (items, fault) := items text.toList
  let b ← items.foldlM Builder.read .start
  match fault with
  | some e => .error e
  | none => b.finish

end FetchPlan

end EntityQuery
