/-!
# Errors

Everything that can go wrong while a statement is compiled or settings are loaded. An error is a
cause with the names it is about; its class, its kind and its text follow from the cause.

## Main definitions

* `SqlError` - the causes.
* `SqlError.category`, `ErrorCategory.kind` - the two levels of classification.
* `SqlError.message` - the text.
-/

namespace LambdaSql

/-- What a caller may want to tell apart. -/
inductive ErrorKind where
  | translation | resolution | type | usage | configuration
deriving DecidableEq, Repr

/-- The class of an error. -/
inductive ErrorCategory where
  | unsupportedTranslation | emptyCollection
  | ambiguousColumn | unknownEntity | unknownMember
  | typeMismatch
  | invalidExpression
  | configuration
deriving DecidableEq, Repr

/-- The kind a class belongs to. -/
def ErrorCategory.kind : ErrorCategory → ErrorKind
  | .unsupportedTranslation | .emptyCollection => .translation
  | .ambiguousColumn | .unknownEntity | .unknownMember => .resolution
  | .typeMismatch => .type
  | .invalidExpression => .usage
  | .configuration => .configuration

/-- The formats in which settings are written. -/
inductive SettingsFormat where
  | toml | json
deriving DecidableEq, Repr

/-- The name of a format. -/
def SettingsFormat.name : SettingsFormat → String
  | .toml => "TOML"
  | .json => "JSON"

/-- A cause of failure. -/
inductive SqlError where
  /-- No entry of the translation table fits a call or a member. -/
  | noTranslation (declaring member : String) (arity : Nat)
  /-- A membership test over nothing, under the policy that rejects it. -/
  | emptyMembership
  /-- A bulk update without rows. -/
  | noBulkRows (entity : String)
  /-- A parameter that no enclosing lambda binds. -/
  | unboundParameter (name : String)
  /-- A lambda parameter beyond the tables in scope. -/
  | surplusParameter (name : String)
  | unknownEntity (name : String)
  | unknownMember (entity member : String)
  /-- A comparison of enums of two families. -/
  | enumFamilies (left right : String)
  /-- Raw bytes inside a document. -/
  | binaryInDocument
  /-- An interval amount that is no number. -/
  | amountNotNumeric (text : String)
  /-- A membership test in a value that is no list. -/
  | notCollection (text : String)
  /-- A value without literal form. -/
  | noLiteral (text : String)
  /-- A list or a record where one value is needed. -/
  | notScalar (text : String)
  /-- A whole row where one value is needed. -/
  | wholeRow (parameter table : String)
  /-- Several grouping keys where one value is needed. -/
  | compositeKey
  /-- An object or an array where a value is needed. -/
  | constructionAsValue
  /-- A lambda where a value is needed. -/
  | lambdaAsValue
  /-- A call of nothing on nothing. -/
  | callWithoutTarget (method : String)
  /-- A test for rows of something that is no query. -/
  | subqueryExpected (declaring method : String)
  /-- An interval amount that leaves the integer range when scaled. -/
  | intervalOverflow (amount scale : Int)
  /-- A text position that leaves the integer range. -/
  | indexOverflow (index : Int)
  /-- A membership test in something the database would have to compute. -/
  | collectionFromSql
  /-- A membership collection without a value. -/
  | collectionNotEvaluable
  /-- A self reference outside the recursive member. -/
  | selfRefOutside (cte : String)
  /-- A common table expression that reads itself by name. -/
  | cteDependsOnItself (cte : String)
  /-- Another number of declared columns than the anchor selects. -/
  | cteColumnCount (cte : String) (declared selected : Nat)
  /-- Another number of columns in the union member than declared. -/
  | cteUnionCount (cte : String) (selected expected : Nat)
  /-- A flattening projection that returns no object. -/
  | flattenNotObject
  /-- An assigning lambda that returns no object. -/
  | setNotObject
  /-- An update that assigns nothing. -/
  | nothingAssigned (entity : String)
  /-- A row of a bulk update that assigns nothing. -/
  | nothingAssignedInRow (index : Nat) (entity : String)
  | bulkWithoutKey (entity : String)
  | objectWithoutKey (entity : String)
  | rowsWithoutKey (entity : String)
  | bulkFiltered
  | bulkJoined
  | bulkWithObject
  /-- A row that lacks a key member. -/
  | keyMissing (member : String)
  /-- A placeholder that would need two values. -/
  | placeholderConflict (token : String)
  /-- A batch without statements. -/
  | emptyBatch
  /-- A column that a fetched row lacks. -/
  | columnNotFound (column : String)
  /-- A deferred projection without value on a fetched row. -/
  | projectionNotEvaluable (member : String)
  /-- A first table alias that is no lower-case letter. -/
  | aliasNotLetter (letter : Char)
  /-- A placeholder stem that is no identifier. -/
  | stemNotIdentifier (stem : String)
  | unknownDialect (name : String)
  /-- A settings file that cannot be read. -/
  | unreadableFile (format : SettingsFormat) (path : String)
  /-- A settings text that is not well formed. -/
  | malformedSettings (format : SettingsFormat)
  /-- A settings document of the wrong shape. -/
  | unfitSettings (format : SettingsFormat)
deriving DecidableEq, Repr

namespace SqlError

/-- The class of a cause. -/
def category : SqlError → ErrorCategory
  | noTranslation .. => .unsupportedTranslation
  | emptyMembership | noBulkRows _ => .emptyCollection
  | unboundParameter _ | surplusParameter _ => .ambiguousColumn
  | unknownEntity _ => .unknownEntity
  | unknownMember .. => .unknownMember
  | enumFamilies .. | binaryInDocument | amountNotNumeric _ | notCollection _ => .typeMismatch
  | aliasNotLetter _ | stemNotIdentifier _ | unknownDialect _ | unreadableFile ..
  | malformedSettings _ | unfitSettings _ => .configuration
  | _ => .invalidExpression

/-- The kind of a cause. -/
def kind (e : SqlError) : ErrorKind := e.category.kind

/-- What happened, without the words that name the class. -/
def detail : SqlError → String
  | noTranslation declaring member arity => s!"{declaring}.{member}({arity})"
  | emptyMembership => "Membership test over an empty collection"
  | noBulkRows entity => s!"Bulk update of '{entity}' has no rows"
  | unboundParameter name => s!"Parameter '{name}' is not bound to any table"
  | surplusParameter name => s!"Lambda parameter '{name}' matches no table"
  | unknownEntity name => name
  | unknownMember entity member => s!"'{member}' on entity '{entity}'"
  | enumFamilies left right => s!"Cannot compare enum '{left}' with enum '{right}'"
  | binaryInDocument => "Binary values cannot be stored as JSON"
  | amountNotNumeric text => s!"'{text}' is not a numeric interval"
  | notCollection text => s!"'{text}' is not a collection"
  | noLiteral text => s!"Value has no SQL literal form: {text}"
  | notScalar text => s!"'{text}' cannot be used as a scalar value"
  | wholeRow parameter table =>
    s!"Parameter '{parameter}' is a whole '{table}' row and cannot be used as a value"
  | compositeKey => "A composite grouping key can only be projected, not used as a value"
  | constructionAsValue =>
    "Object and array construction is only valid in a projection or membership test"
  | lambdaAsValue => "A lambda cannot be used as a value"
  | callWithoutTarget method =>
    s!"Call to '{method}' has neither a target nor a declaring type"
  | subqueryExpected declaring method => s!"{declaring}.{method} expects a subquery"
  | intervalOverflow amount scale => s!"Interval {amount} x {scale} overflows"
  | indexOverflow index => s!"String index {index} is out of range"
  | collectionFromSql =>
    "A membership collection must be a constant, a captured value, an array or a subquery"
  | collectionNotEvaluable => "Membership collection cannot be evaluated"
  | selfRefOutside cte => s!"CTE '{cte}' is referenced outside its recursive member"
  | cteDependsOnItself cte => s!"CTE '{cte}' depends on itself; reference it through self_ref()"
  | cteColumnCount cte declared selected =>
    s!"CTE '{cte}' declares {declared} columns but its anchor selects {selected}"
  | cteUnionCount cte selected expected =>
    s!"UNION ALL member of CTE '{cte}' selects {selected} columns, expected {expected}"
  | flattenNotObject => "A flatten projection must return new \x7b ... \x7d"
  | setNotObject => "Set expects a lambda returning new \x7b ... \x7d"
  | nothingAssigned entity => s!"UPDATE of '{entity}' assigns no columns"
  | nothingAssignedInRow index entity => s!"Bulk row {index} of '{entity}' assigns no columns"
  | bulkWithoutKey entity => s!"Entity '{entity}' has no key; a bulk update needs one"
  | objectWithoutKey entity => s!"Entity '{entity}' has no key; an object update needs one"
  | rowsWithoutKey entity => s!"Entity '{entity}' has no key to match rows by"
  | bulkFiltered => "A bulk update is keyed by its rows and cannot be filtered"
  | bulkJoined => "A bulk update cannot join other tables"
  | bulkWithObject => "A bulk update cannot also take an object assignment"
  | keyMissing member => s!"Key member '{member}' is missing or null"
  | placeholderConflict token => s!"Placeholder '{token}' is bound to two different values"
  | emptyBatch => "MultipleQuery has no statements"
  | columnNotFound column => s!"Column '{column}' not found in row"
  | projectionNotEvaluable member =>
    s!"Projection '{member}' could not be evaluated on the fetched row"
  | aliasNotLetter letter => s!"first_table_alias must be a lowercase ASCII letter, got '{letter}'"
  | stemNotIdentifier stem =>
    s!"anonymous_parameter_name must be a non-empty identifier, got '{stem}'"
  | unknownDialect name => s!"Unsupported SQL dialect: '{name}'"
  | unreadableFile format path =>
    s!"Failed to read {format.name} file '{path}': No such file or directory (os error 2)"
  | malformedSettings format => s!"Failed to parse {format.name}"
  | unfitSettings format => s!"Failed to deserialize settings from {format.name}"

/-- The words that open the text of a class. -/
def opening : ErrorCategory → String
  | .unsupportedTranslation => "No translation for member: "
  | .emptyCollection => "Empty collection: "
  | .ambiguousColumn => "Ambiguous column: "
  | .unknownEntity => "Unknown entity: "
  | .unknownMember => "Unknown member "
  | .typeMismatch => "Type mismatch: "
  | .invalidExpression => "Invalid expression: "
  | .configuration => "Configuration error: "

/-- The text of an error. -/
def message (e : SqlError) : String := opening e.category ++ e.detail

end SqlError

end LambdaSql
