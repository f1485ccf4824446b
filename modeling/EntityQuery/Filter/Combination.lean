import EntityQuery.Filter.Formula
import EntityQuery.Filter.Token

/-! # Combining words

The words `and`, `or` and `not`, in any case of letters and without a quotation, join the others,
from left to right and without precedence; two terms with nothing between them are joined by
`and`. Parentheses group, an empty group is no term, and a second `not` before a term takes the
first one back. The tokens are read one by one; the leaf made of a word, and the errors met, come in
the order of the text. -/
namespace EntityQuery

/-- How the next term is joined with those before it. -/
inductive Connective where
  | and
  | or
deriving DecidableEq, Repr

/-- The name of a connective. -/
def Connective.name : Connective → String
  | and => "and"
  | or => "or"

/-- A word that joins others. -/
inductive LogicalWord where
  | connective (c : Connective)
  | not
deriving DecidableEq, Repr

/-- What the word joins, if it is one that does. -/
def Word.logical? (w : Word) : Option LogicalWord :=
  if w.quoted.isSome then none
  else
    let lower := Text.asciiLower w.bare
    if lower = "and".toList then some (.connective .and)
    else if lower = "or".toList then some (.connective .or)
    else if lower = "not".toList then some .not
    else none

namespace Formula

variable {α : Type}

/-- Two terms joined. -/
def join : Connective → Formula α → Formula α → Formula α
  | .and, a, b => and a b
  | .or, a, b => or a b

/-- A group, or the whole filter, of which a part has been read. -/
structure Level (α : Type) where
  /-- The terms read so far, joined. -/
  tree : Option (Formula α)
  /-- A connective that waits for its right term, with its offset. -/
  pending : Option (Connective × Nat)
  /-- The offset of a `not` that waits for its term. -/
  negation : Option Nat

namespace Level

/-- A level of which nothing has been read. -/
def empty : Level α := ⟨none, none, none⟩

/-- The level after one more term. -/
def term (l : Level α) (t : Formula α) : Level α :=
  let t := if l.negation.isSome then not t else t
  match l.tree with
  | none => ⟨some t, none, none⟩
  | some left => ⟨some (join ((l.pending.map (·.1)).getD .and) left t), none, none⟩

/-- The level after a `not`. -/
def negate (l : Level α) (index : Nat) : Level α :=
  { l with negation := if l.negation.isSome then none else some index }

/-- The level after a connective. -/
def connect (l : Level α) (c : Connective) (index : Nat) : Except Error (Level α) :=
  if l.tree.isNone || l.pending.isSome || l.negation.isSome then
    .error (.unknownOperator (.danglingConnective c.name index))
  else .ok { l with pending := some (c, index) }

/-- The terms of a level at its end. -/
def close (l : Level α) : Except Error (Option (Formula α)) :=
  match l.pending, l.negation with
  | some (_, index), _ => .error (.unknownOperator (.danglingOperator index))
  | none, some index => .error (.unknownOperator (.danglingNot index))
  | none, none => .ok l.tree

/-- The level after a group. -/
def group (l : Level α) : Option (Formula α) → Level α
  | none => l
  | some t => l.term t

end Level

/-- The innermost level, and the levels around it with the offsets at which the groups begin. -/
structure Nesting (α : Type) where
  level : Level α
  outer : List (Nat × Level α)

namespace Nesting

/-- Before the first token. -/
def start : Nesting α := ⟨.empty, []⟩

/-- The nesting after an opening parenthesis. -/
def opened (n : Nesting α) (index : Nat) : Nesting α := ⟨.empty, (index, n.level) :: n.outer⟩

/-- The nesting after a closing parenthesis. -/
def closed (n : Nesting α) (index : Nat) : Except Error (Nesting α) := do
  let inner ← n.level.close
  match n.outer with
  | [] => .error (.unbalancedGroup index)
  | (_, level) :: outer => .ok ⟨level.group inner, outer⟩

/-- The nesting after a word that joins others. -/
def joined (n : Nesting α) (index : Nat) : LogicalWord → Except Error (Nesting α)
  | .not => .ok { n with level := n.level.negate index }
  | .connective c => do return { n with level := ← n.level.connect c index }

/-- The nesting after a word that is a term. -/
def term (n : Nesting α) (t : Formula α) : Nesting α := { n with level := n.level.term t }

/-- The whole formula at the end of the filter. -/
def finish (n : Nesting α) : Except Error (Option (Formula α)) := do
  let tree ← n.level.close
  match n.outer with
  | [] => .ok tree
  | (index, _) :: _ => .error (.unbalancedGroup index)

end Nesting

variable {m : Type → Type} [Monad m] [MonadExceptOf Error m]

/-- The nesting after one more token, `leaf` making a leaf of a word. -/
def readToken (leaf : Word → m α) (n : Nesting α) : Token → m (Nesting α)
  | .opening index => pure (n.opened index)
  | .closing index => MonadExcept.ofExcept (n.closed index)
  | .word index w =>
    match w.logical? with
    | some word => MonadExcept.ofExcept (n.joined index word)
    | none => return n.term (.leaf (← leaf w))

/-- The formula that the tokens describe, if they describe any; `leaf` makes a leaf of a word. -/
def ofTokens (leaf : Word → m α) (tokens : List Token) : m (Option (Formula α)) := do
  let n ← tokens.foldlM (readToken leaf) Nesting.start
  MonadExcept.ofExcept n.finish

end Formula

end EntityQuery
