import EntityQuery.Text.Printable
import EntityQuery.Value

/-! # Errors

Everything that can go wrong in reading, compiling or running a request, by cause. `Error.message`
is the text shown to the caller, `Error.kind` a name for programs, and `Error.isClient` tells faults
of the request from faults of the schema, the configuration and the store. -/
namespace EntityQuery

/-- Why a path cannot be used where it stands. -/
inductive PathFault where
  /-- A segment of the path, or the name of a field, is empty. -/
  | malformed (path : String)
  | notAssociation (path segment : String)
  | mapNeedsKeyOrValue (path segment : String)
  | collectionHasNoAttributes (path segment : String)
  | attributeNotAssociation (entity attr : String)
  | attributeNotManyToMany (entity attr : String)
  | attributeNotMap (entity attr : String)
  | attributeNotCollection (entity attr : String)
  | unsortable (entity attr : String)
  | toOneNotBoundable (entity attr : String)
  /-- A map or collection column is read from the root. -/
  | elementOutsideJoin (column : String)
  /-- A column that the join of this path does not have. -/
  | columnNotInJoin (path : String)
deriving DecidableEq

/-- Why no operator can be made of a word. -/
inductive OperatorFault where
  | unknown (name : String)
  | danglingConnective (name : String) (index : Nat)
  | danglingOperator (index : Nat)
  | danglingNot (index : Nat)
deriving DecidableEq

/-- What is wrong in the text of a fetch plan. -/
inductive PlanFault where
  | fetchedTwice (path : String)
  | braceWithoutField
  | unmatchedBrace
  | unterminated (opener : Char)
  | expectedName (found : Option Char)
  | positionZero
  | invalidPosition (text : String)
  | emptyRange (first last : Nat)
  | missingDirection (entry : String)
  | invalidDirection (text : String)
  | emptySortField (entry : String)
deriving DecidableEq

/-- What is wrong in a page request. -/
inductive PagerFault where
  | pageOutOfRange (page size : Nat)
  | offsetOutOfRange (offset : Nat)
  | invalidPage (text : String)
  | invalidSize (text : String)
  | invalidCount (text : String)
  | sizeZero
  | pageBelow (first : Nat)
  | invalidDirection (entry : String)
  | emptySortField (entry : String)
deriving DecidableEq

/-- Which limit a request exceeds. -/
inductive CostFault where
  | pageSize (size limit : Nat)
  | fetches (count limit : Nat)
  | fetchDepth (path : String) (limit : Nat)
deriving DecidableEq

/-- What is wrong with a schema. -/
inductive SchemaFault where
  | invalidDocument (reason : String)
  | misplacedModifier (entity modifier : String)
  | modifierNeedsAssociation (entity attr modifier : String)
  | noId (entity : String)
  | duplicateEntity (entity : String)
  | duplicateAttribute (entity attr : String)
  | unknownTarget (entity attr target : String)
  | noTarget (entity attr : String)
  | noType (entity attr : String)
  | inverseElsewhere (target inverse owner attr : String)
  | noJoinTable (owner attr : String)
  | noJoinColumn (owner attr : String)
  | backReferenceWithoutColumn (target back owner attr : String)
deriving DecidableEq

/-- What is wrong with the configuration. -/
inductive ConfigFault where
  | pageSizeZero
  | pageSizeAboveMaximum (size maximum : Nat)
  | fetchDepthZero
  | fileNotFound (name : String)
  | unknownFormat (name : String)
  | unreadable (reason : String)
  /-- A file gives one value and no keys. -/
  | notKeyed (found file : String)
  /-- A source has something else where a number or a truth value is expected. -/
  | wrongType (found expected key : String) (source : Option String)
deriving DecidableEq

/-- What went wrong in the store. -/
inductive StoreFault where
  | failure (reason : String)
  | notMaterialized (entity id reason : String)
deriving DecidableEq

/-- An error of a request, by cause. -/
inductive Error where
  | unbalancedGroup (index : Nat)
  | unknownOperator (fault : OperatorFault)
  | unknownFunction (name : String)
  | typeCoercion (field value : String) (target : ScalarType)
  | unsupportedOperator (operator field : String)
  | malformedFetchPlan (index : Nat) (fault : PlanFault)
  | joinCannotBound (name : String)
  | ambiguousBackReference (entity attr : String) (candidates : List String)
  | missingBackReference (entity attr : String)
  | attributeNotFound (entity attr : String)
  | invalidPath (fault : PathFault)
  | unknownEntity (name : String)
  | invalidPager (fault : PagerFault)
  | tooCostly (fault : CostFault)
  | schema (fault : SchemaFault)
  | config (fault : ConfigFault)
  | store (fault : StoreFault)
deriving DecidableEq

/-! ## Quotation of names -/

/-- A character inside a quotation: quotes, backslashes and what does not show are escaped. -/
def quoteChar (c : Char) : List Char :=
  match c with
  | '\x00' => ['\\', '0']
  | '\t' => ['\\', 't']
  | '\n' => ['\\', 'n']
  | '\r' => ['\\', 'r']
  | '\\' => ['\\', '\\']
  | '"' => ['\\', '"']
  | c =>
    if Text.isPrintable c then [c]
    else ['\\', 'u', '\x7b'] ++ Nat.toDigits 16 c.toNat ++ ['\x7d']

/-- A text between double quotes. -/
def quoteText (s : String) : String :=
  String.ofList ('"' :: s.toList.flatMap quoteChar ++ ['"'])

/-- A list of texts between brackets, each in double quotes. -/
def quoteTexts (texts : List String) : String :=
  "[" ++ String.intercalate ", " (texts.map quoteText) ++ "]"

/-! ## Messages -/

/-- The text of a path fault. -/
def PathFault.message : PathFault → String
  | malformed path => path
  | notAssociation path segment => s!"{path}: '{segment}' is not an association"
  | mapNeedsKeyOrValue path segment =>
    s!"{path}: map '{segment}' must be followed by 'key' or 'value'"
  | collectionHasNoAttributes path segment =>
    s!"{path}: collection '{segment}' has no sub-attributes"
  | attributeNotAssociation entity attr => s!"{entity}.{attr} is not an association"
  | attributeNotManyToMany entity attr =>
    s!"{entity}.{attr} is not a many-to-many association"
  | attributeNotMap entity attr => s!"{entity}.{attr} is not a map attribute"
  | attributeNotCollection entity attr =>
    s!"{entity}.{attr} is not a collection attribute"
  | unsortable entity attr => s!"Cannot sort {entity} by non-scalar attribute '{attr}'"
  | toOneNotBoundable entity attr =>
    s!"{entity}.{attr} is a to-one association and cannot be bounded or sorted"
  | elementOutsideJoin column => s!"{column} outside a join"
  | columnNotInJoin path => path

/-- The text of an operator fault. -/
def OperatorFault.message : OperatorFault → String
  | unknown name => name
  | danglingConnective name index => s!"dangling '{name}' at index {index}"
  | danglingOperator index => s!"dangling operator at index {index}"
  | danglingNot index => s!"dangling 'not' at index {index}"

/-- The text of a plan fault. -/
def PlanFault.message : PlanFault → String
  | fetchedTwice path => s!"'{path}' is fetched twice"
  | braceWithoutField => "'\x7b' must follow a field name"
  | unmatchedBrace => "unmatched '\x7d'"
  | unterminated opener => s!"unterminated '{opener}'"
  | expectedName none => "expected field name, found ''"
  | expectedName (some c) => s!"expected field name, found '{c}'"
  | positionZero => "positions start at 1"
  | invalidPosition text => s!"invalid position '{text}'"
  | emptyRange first last => s!"empty range [{first}:{last}]"
  | missingDirection entry => s!"sort entry '{entry}' needs a direction"
  | invalidDirection text => s!"invalid sort direction '{text}'"
  | emptySortField entry => s!"empty sort field in '{entry}'"

/-- The text of a pager fault. -/
def PagerFault.message : PagerFault → String
  | pageOutOfRange page size => s!"page {page} of size {size} is out of range"
  | offsetOutOfRange offset => s!"offset {offset} is out of range"
  | invalidPage text => s!"Invalid page value: {text}"
  | invalidSize text => s!"Invalid size value: {text}"
  | invalidCount text => s!"Invalid count value: {text}"
  | sizeZero => "size must be at least 1"
  | pageBelow first => s!"page must be at least {first}"
  | invalidDirection entry => s!"Invalid sort direction in '{entry}'"
  | emptySortField entry => s!"Empty sort field in '{entry}'"

/-- The text of a cost fault. -/
def CostFault.message : CostFault → String
  | pageSize size limit => s!"size={size} exceeds maximum allowed page size of {limit}"
  | fetches count limit => s!"Fetch plan has {count} entries, maximum is {limit}"
  | fetchDepth path limit => s!"Fetch path '{path}' exceeds maximum depth of {limit}"

/-- The text of a schema fault. -/
def SchemaFault.message : SchemaFault → String
  | invalidDocument reason => s!"Invalid schema document: {reason}"
  | misplacedModifier entity modifier =>
    s!"{entity}: '{modifier}' used before any attribute was declared"
  | modifierNeedsAssociation entity attr modifier =>
    s!"{entity}.{attr}: '{modifier}' only applies to associations"
  | noId entity => s!"Entity '{entity}' declares no id"
  | duplicateEntity entity => s!"Duplicate entity '{entity}'"
  | duplicateAttribute entity attr => s!"Duplicate attribute '{entity}.{attr}'"
  | unknownTarget entity attr target =>
    s!"{entity}.{attr} targets unknown entity '{target}'"
  | noTarget entity attr => s!"{entity}.{attr} declares no target"
  | noType entity attr => s!"{entity}.{attr} declares no type"
  | inverseElsewhere target inverse owner attr =>
    s!"{target}.{inverse} is declared as inverse of {owner}.{attr} but does not reference {owner}"
  | noJoinTable owner attr => s!"Neither side of {owner}.{attr} declares a join table"
  | noJoinColumn owner attr => s!"{owner}.{attr} has no join column"
  | backReferenceWithoutColumn target back owner attr =>
    s!"Back-reference {target}.{back} of {owner}.{attr} does not own a join column"

/-- The text of a configuration fault. -/
def ConfigFault.message : ConfigFault → String
  | pageSizeZero => "default_page_size must be at least 1"
  | pageSizeAboveMaximum size maximum =>
    s!"default_page_size ({size}) exceeds max_page_size ({maximum})"
  | fetchDepthZero => "max_fetch_depth must be at least 1"
  | fileNotFound name => s!"configuration file \"{name}\" not found"
  | unknownFormat name => s!"configuration file \"{name}\" is not of a registered file format"
  | unreadable reason => reason
  | notKeyed found file => s!"invalid type: {found}, expected a map in {file} in {file}"
  | wrongType found expected key source =>
    s!"invalid type: {found}, expected {expected} for key `{key}`" ++
      ((source.map (" in " ++ ·)).getD "")

/-- The text of a store fault. -/
def StoreFault.message : StoreFault → String
  | failure reason => reason
  | notMaterialized entity id reason => s!"Cannot materialize {entity} {id}: {reason}"

namespace Error

/-- The text shown to the caller. -/
def message : Error → String
  | unbalancedGroup index => s!"Unbalanced group at index {index}"
  | unknownOperator fault => s!"Unknown operator: {fault.message}"
  | unknownFunction name => s!"Unknown function: {name}"
  | typeCoercion field value target =>
    s!"Cannot coerce '{value}' for field '{field}' to {target.name}"
  | unsupportedOperator operator field =>
    s!"Operator '{operator}' is not supported for field '{field}'"
  | malformedFetchPlan index fault => s!"Malformed fetch plan at index {index}: {fault.message}"
  | joinCannotBound name => s!"Join fetch '{name}' cannot carry a bound or a sort order"
  | ambiguousBackReference entity attr candidates =>
    let listed := quoteTexts candidates
    s!"Ambiguous back-reference for {entity}.{attr}: candidates {listed}"
  | missingBackReference entity attr => s!"No back-reference found for {entity}.{attr}"
  | attributeNotFound entity attr => s!"Attribute not found: {entity}.{attr}"
  | invalidPath fault => s!"Invalid path: {fault.message}"
  | unknownEntity name => s!"Unknown entity: {name}"
  | invalidPager fault => s!"Invalid pager: {fault.message}"
  | tooCostly fault => s!"Request too costly: {fault.message}"
  | schema fault => s!"Schema error: {fault.message}"
  | config fault => s!"Configuration error: {fault.message}"
  | store fault => s!"Store error: {fault.message}"

/-- The name of the kind of error. -/
def kind : Error → String
  | unbalancedGroup _ => "unbalanced_group"
  | unknownOperator _ => "unknown_operator"
  | unknownFunction _ => "unknown_function"
  | typeCoercion _ _ _ => "type_coercion_error"
  | unsupportedOperator _ _ => "unsupported_operator"
  | malformedFetchPlan _ _ => "malformed_fetch_plan"
  | joinCannotBound _ => "join_cannot_bound"
  | ambiguousBackReference _ _ _ => "ambiguous_back_reference"
  | missingBackReference _ _ => "missing_back_reference"
  | attributeNotFound _ _ => "attribute_not_found"
  | invalidPath _ => "invalid_path"
  | unknownEntity _ => "unknown_entity"
  | invalidPager _ => "invalid_pager"
  | tooCostly _ => "too_costly"
  | schema _ => "schema"
  | config _ => "config"
  | store _ => "store"

/-- Whether the request is at fault. -/
def isClient : Error → Bool
  | schema _ | config _ | store _ => false
  | _ => true

end Error

end EntityQuery
