import TabularQuery.ColumnType
import TabularQuery.Token.Kind

/-!
Failures. Each cause is a constructor of `Error`; its code and its wording are functions of the
cause, so every text that a caller can see stands in `Error.message`.
-/

namespace TabularQuery

/-- Machine-readable class of a failure. -/
inductive ErrorCode where
  | malformed | notFound | ambiguous | typeMismatch | duplicate | rowShape | kindMismatch
  | stackUnderflow | arithmetic | instructionLimit | cancelled | source | internal
  deriving DecidableEq, Repr

/-- The phase that a failure belongs to. -/
inductive ErrorCategory where
  | compile | execution | internal
  deriving DecidableEq, Repr

def ErrorCategory.name : ErrorCategory → String
  | .compile => "Compile"
  | .execution => "Execution"
  | .internal => "Internal"

namespace ErrorCode

def name : ErrorCode → String
  | .malformed => "Syntax"
  | .notFound => "NotFound"
  | .ambiguous => "Ambiguous"
  | .typeMismatch => "TypeMismatch"
  | .duplicate => "Duplicate"
  | .rowShape => "RowShape"
  | .kindMismatch => "KindMismatch"
  | .stackUnderflow => "StackUnderflow"
  | .arithmetic => "Arithmetic"
  | .instructionLimit => "InstructionLimit"
  | .cancelled => "Cancelled"
  | .source => "Source"
  | .internal => "Internal"

/-- Every code. -/
def all : List ErrorCode :=
  [.malformed, .notFound, .ambiguous, .typeMismatch, .duplicate, .rowShape, .kindMismatch,
   .stackUnderflow, .arithmetic, .instructionLimit, .cancelled, .source, .internal]

def ofName? (name : String) : Option ErrorCode := all.find? fun c => c.name = name

def category : ErrorCode → ErrorCategory
  | .malformed | .notFound | .ambiguous | .typeMismatch | .duplicate => .compile
  | .internal => .internal
  | .rowShape | .kindMismatch | .stackUnderflow | .arithmetic | .instructionLimit | .cancelled
  | .source => .execution

/-- The text of a failure of which only the code is known. -/
def text : ErrorCode → String
  | .malformed => "syntax error"
  | .notFound => "name not found"
  | .ambiguous => "ambiguous name"
  | .typeMismatch => "type mismatch"
  | .duplicate => "duplicate name"
  | .rowShape => "row does not match table shape"
  | .kindMismatch => "operand kind mismatch"
  | .stackUnderflow => "operand stack underflow"
  | .arithmetic => "arithmetic error"
  | .instructionLimit => "instruction limit exceeded"
  | .cancelled => "execution cancelled"
  | .source => "row source failed"
  | .internal => "internal error"

end ErrorCode

/-- What a reader of tokens was looking for. -/
inductive Expectation where
  | statement | separator | describedSource | token (kind : TokenKind) | identifier | literal
  | rowCount | expression | integerInRange | number
  deriving DecidableEq, Repr

def Expectation.text : Expectation → String
  | .statement => "expected statement"
  | .separator => "expected ';' or end of input"
  | .describedSource => "expected '#schema.method(...)' after DESC"
  | .token kind => s!"expected {kind.name}"
  | .identifier => "expected identifier"
  | .literal => "expected literal"
  | .rowCount => "expected row count"
  | .expression => "expected expression"
  | .integerInRange => "integer literal out of range"
  | .number => "invalid number"

/-- Everything that can go wrong, from reading a query to running it. -/
inductive Error where
  -- query text
  | identifierUnclosed (place : Position)
  | textUnclosed (place : Position)
  | characterUnexpected (shown : Char) (place : Position)
  | tokenUnexpected (wanted : Expectation) (place : Position) (found : Option String)
  -- scopes
  | nameTaken (name : String)
  | aliasTaken (aliasName : String)
  | scopeMissing
  | scopeMismatch (found : String)
  -- names and types
  | tableUnknown (name : String)
  | aliasUnknown (aliasName : String)
  | columnUnknown (name : String)
  | columnUnknownIn (name aliasName : String)
  | columnAmbiguous (name : String) (aliases : List String)
  | methodUnknown (name : String) (arguments : List ColumnType)
  | accumulatorUnknown (name : String) (arguments : List ColumnType)
  | callAmbiguous (name : String) (arguments : List ColumnType)
  | conditionNotBoolean (clause condition : String) (got : ColumnType)
  | listItemMismatch (item operand : String) (got wanted : ColumnType)
  | listEmpty (operand : String)
  | aggregateMisplaced (call clause : String)
  | aggregateNested (call : String)
  | binaryMismatch (symbol : String) (left right : ColumnType)
  | unaryMismatch (symbol : String) (got : ColumnType)
  | operandWidths (operator : String) (left right : Nat)
  | operandColumn (operator : String) (position : Nat) (left right : ColumnType)
  | keyUnknown (key query : String)
  | fieldRepeated (field query : String)
  -- sources
  | schemaUnknown (name : String)
  | schemaTableUnknown (schema table : String)
  | argumentMissing (method : String) (least got : Nat)
  | argumentMismatch (position : Nat) (method : String) (wanted got : ColumnType)
  | separatorEmpty
  | fileUnopened (path reason : String)
  | fileUnread (reason : String)
  | fileWithoutRows (path : String)
  | headerRepeated (path column : String)
  | lineTooWide (line : Nat) (path : String) (fields width : Nat)
  | storedRowWidth (row : Nat) (table : String) (got wanted : Nat)
  | storedRowType (row : Nat) (table : String) (wanted got : ColumnType)
  | rowColumnMissing (column : String)
  | rowColumnType (column : String) (wanted got : ColumnType)
  -- values and methods
  | valueMismatch (wanted got : ColumnType)
  | overflow
  | overflowInAbs
  | divisionByZero
  | numberMismatch (number : String) (wanted : ColumnType)
  | argumentsUnexpected (method : String) (got : List ColumnType)
  | notAnInteger (text : String)
  | argumentAbsent (method : String)
  | argumentNotNumeric (method : String) (got : ColumnType)
  -- tables
  | columnsRegistered (table : String)
  | columnRepeated (column table : String)
  | columnPositionUnknown (table : String) (position : Nat)
  | rowWidth (table : String) (wanted got : Nat)
  | rowType (column table : String) (wanted got : ColumnType)
  | indexUnknown (table : String) (columns : List Nat)
  -- programs
  | programEmpty
  | sourcesMissing (query : String)
  | labelUnbound (label : Int) (procedure : String) (address : Nat) (opcode : String)
  | tableNotGenerated (name : String)
  -- runs
  | stackEmpty (kind : ValueKind)
  | registerUnknown (register : Int)
  | pastLastInstruction (procedure : String)
  | limitExceeded (limit : Nat)
  | operandUnexpected (opcode operand : String)
  | kindUnknown (operand : Int)
  | bindingUnknown (source : Int)
  | declarationUnknown (table : Int)
  | tableAbsent (table : Int)
  | cursorUnknown (cursor : Int)
  | cursorClosed (cursor : Int)
  | cursorUnpositioned (cursor : Int)
  | cursorColumn (cursor column : Int)
  | cursorKey (columns : List Nat) (cursor : Int)
  | slotUnknown (slot : Int)
  | groupingUnknown (grouping : Int)
  | groupUnselected (grouping : Int)
  | resultAbsent (table : Nat)
  | cancelled
  -- others
  /-- A failure that a plug-in reports in its own words. -/
  | reported (code : ErrorCode) (message : String)
  /-- A failure that generated code must not have: only its wording is kept. -/
  | internal (cause : Error)
  deriving Repr

namespace Error

/-- A failure of which only the code is known. -/
def ofCode (code : ErrorCode) : Error := .reported code code.text

def code : Error → ErrorCode
  | .identifierUnclosed _ | .textUnclosed _ | .characterUnexpected .. | .tokenUnexpected ..
  | .listEmpty _ => .malformed
  | .tableUnknown _ | .aliasUnknown _ | .columnUnknown _ | .columnUnknownIn .. | .methodUnknown ..
  | .accumulatorUnknown .. | .keyUnknown .. | .schemaUnknown _ | .schemaTableUnknown ..
  | .columnPositionUnknown .. | .indexUnknown .. => .notFound
  | .columnAmbiguous .. | .callAmbiguous .. => .ambiguous
  | .conditionNotBoolean .. | .listItemMismatch .. | .aggregateMisplaced .. | .aggregateNested _
  | .binaryMismatch .. | .unaryMismatch .. | .operandWidths .. | .operandColumn ..
  | .argumentMissing .. | .argumentMismatch .. | .separatorEmpty | .valueMismatch ..
  | .notAnInteger _ => .typeMismatch
  | .nameTaken _ | .aliasTaken _ | .fieldRepeated .. | .headerRepeated .. | .columnsRegistered _
  | .columnRepeated .. => .duplicate
  | .storedRowWidth .. | .storedRowType .. | .rowWidth .. | .rowType .. => .rowShape
  | .numberMismatch .. | .argumentsUnexpected .. | .argumentAbsent _ | .argumentNotNumeric .. =>
    .kindMismatch
  | .stackEmpty _ => .stackUnderflow
  | .overflow | .overflowInAbs | .divisionByZero => .arithmetic
  | .limitExceeded _ => .instructionLimit
  | .cancelled => .cancelled
  | .fileUnopened .. | .fileUnread _ | .fileWithoutRows _ | .lineTooWide .. | .rowColumnMissing _
  | .rowColumnType .. => .source
  | .scopeMissing | .scopeMismatch _ | .programEmpty | .sourcesMissing _
  | .labelUnbound .. | .tableNotGenerated _ | .registerUnknown _
  | .pastLastInstruction _ | .operandUnexpected .. | .kindUnknown _ | .bindingUnknown _
  | .declarationUnknown _ | .tableAbsent _ | .cursorUnknown _ | .cursorClosed _
  | .cursorUnpositioned _ | .cursorColumn .. | .cursorKey .. | .slotUnknown _ | .groupingUnknown _
  | .groupUnselected _ | .resultAbsent _ | .internal _ => .internal
  | .reported code _ => code

def category (e : Error) : ErrorCategory := e.code.category

/-- Ordinals in brackets, as messages about keys show them. -/
def ordinals (columns : List Nat) : String :=
  "[" ++ ", ".intercalate (columns.map toString) ++ "]"

def message : Error → String
  | .identifierUnclosed p => s!"unterminated identifier at line {p.line}, column {p.column}"
  | .textUnclosed p => s!"unterminated string at line {p.line}, column {p.column}"
  | .characterUnexpected c p =>
    s!"unexpected character '{c}' at line {p.line}, column {p.column}"
  | .tokenUnexpected wanted p (some found) =>
    s!"{wanted.text} at line {p.line}, column {p.column}, found '{found}'"
  | .tokenUnexpected wanted p none =>
    s!"{wanted.text} at line {p.line}, column {p.column}, found end of input"
  | .nameTaken name => s!"'{name}' is already defined in this scope"
  | .aliasTaken aliasName => s!"alias '{aliasName}' is used more than once"
  | .scopeMissing => "no enclosing query scope"
  | .scopeMismatch found => s!"expected query scope, found {found}"
  | .tableUnknown name => s!"table '{name}' was not found"
  | .aliasUnknown aliasName => s!"alias '{aliasName}' was not found"
  | .columnUnknown name => s!"column '{name}' was not found"
  | .columnUnknownIn name aliasName => s!"column '{name}' was not found in '{aliasName}'"
  | .columnAmbiguous name aliases =>
    s!"column '{name}' is ambiguous between " ++ ", ".intercalate aliases
  | .methodUnknown name args => s!"method {name}({ColumnType.nameList args}) was not found"
  | .accumulatorUnknown name args =>
    s!"accumulate method {name}({ColumnType.nameList args}) was not found"
  | .callAmbiguous name args =>
    s!"call {name}({ColumnType.nameList args}) matches more than one overload"
  | .conditionNotBoolean clause condition got =>
    s!"{clause} condition '{condition}' must be Boolean, got {got.name}"
  | .listItemMismatch item operand got wanted =>
    s!"'{item}' in the IN list of '{operand}' is {got.name}, expected {wanted.name}"
  | .listEmpty operand => s!"empty IN list for '{operand}'"
  | .aggregateMisplaced call clause => s!"aggregate '{call}' is not allowed in {clause}"
  | .aggregateNested call => s!"aggregate '{call}' cannot aggregate another aggregate"
  | .binaryMismatch symbol left right =>
    s!"operator '{symbol}' cannot be applied to {left.name} and {right.name}"
  | .unaryMismatch symbol got => s!"operator '{symbol}' cannot be applied to {got.name}"
  | .operandWidths operator left right => s!"{operator} operands have {left} and {right} columns"
  | .operandColumn operator position left right =>
    s!"{operator} column {position} is {left.name} on the left and {right.name} on the right"
  | .keyUnknown key query => s!"key column '{key}' is not a field of {query}"
  | .fieldRepeated field query => s!"field '{field}' appears more than once in {query}"
  | .schemaUnknown name => s!"schema '#{name}' was not found"
  | .schemaTableUnknown schema table => s!"schema '#{schema}' has no table '{table}'"
  | .argumentMissing method least got =>
    s!"{method} expects at least {least} arguments, got {got}"
  | .argumentMismatch position method wanted got =>
    s!"argument {position} of {method} must be {wanted.name}, got {got.name}"
  | .separatorEmpty => "separator must not be empty"
  | .fileUnopened path reason => s!"cannot open '{path}': {reason}"
  | .fileUnread reason => reason
  | .fileWithoutRows path => s!"'{path}' has no rows to read columns from"
  | .headerRepeated path column => s!"'{path}' repeats header column '{column}'"
  | .lineTooWide line path fields width =>
    s!"line {line} of '{path}' has {fields} fields, expected {width}"
  | .storedRowWidth row table got wanted =>
    s!"row {row} of '{table}' has {got} values, expected {wanted}"
  | .storedRowType row table wanted got =>
    s!"row {row} of '{table}': expected {wanted.name} value, got {got.name}"
  | .rowColumnMissing column => s!"row has no column '{column}'"
  | .rowColumnType column wanted got =>
    s!"column '{column}': expected {wanted.name} value, got {got.name}"
  | .valueMismatch wanted got => s!"expected {wanted.name} value, got {got.name}"
  | .overflow => "integer overflow"
  | .overflowInAbs => "integer overflow in Abs"
  | .divisionByZero => "division by zero"
  | .numberMismatch number wanted => s!"numeric operand {number} cannot be read as {wanted.name}"
  | .argumentsUnexpected method got =>
    s!"{method}({ColumnType.nameList got}) called with unexpected arguments"
  | .notAnInteger text => s!"ToInt: '{text}' is not an integer"
  | .argumentAbsent method => s!"{method} expects an argument"
  | .argumentNotNumeric method got => s!"{method} expects a numeric argument, got {got.name}"
  | .columnsRegistered table => s!"table '{table}' already has columns"
  | .columnRepeated column table => s!"duplicate column '{column}' in table '{table}'"
  | .columnPositionUnknown table position => s!"table '{table}' has no column at position {position}"
  | .rowWidth table wanted got => s!"table '{table}' expects {wanted} values, got {got}"
  | .rowType column table wanted got =>
    s!"column '{column}' of table '{table}' expects {wanted.name}, got {got.name}"
  | .indexUnknown table columns => s!"table '{table}' has no index on {ordinals columns}"
  | .programEmpty => "program has no statements"
  | .sourcesMissing query => s!"{query} has no sources"
  | .labelUnbound label procedure address opcode =>
    s!"unresolved label {label} at {procedure}:{address} ({opcode})"
  | .tableNotGenerated name => s!"table '{name}' was not generated before use"
  | .stackEmpty kind => s!"{kind.name} stack is empty"
  | .registerUnknown register => s!"register {register} out of range"
  | .pastLastInstruction procedure => s!"{procedure} ran past its last instruction"
  | .limitExceeded limit => s!"query aborted: exceeded {limit} instruction limit"
  | .operandUnexpected opcode operand => s!"{opcode} has unexpected P4 {operand}"
  | .kindUnknown operand => s!"bad operand kind {operand}"
  | .bindingUnknown source => s!"no source binding {source}"
  | .declarationUnknown table => s!"no table declaration {table}"
  | .tableAbsent table => s!"table {table} does not exist"
  | .cursorUnknown cursor => s!"cursor {cursor} out of range"
  | .cursorClosed cursor => s!"cursor {cursor} is not open"
  | .cursorUnpositioned cursor => s!"cursor {cursor} is not positioned on a row"
  | .cursorColumn cursor column => s!"cursor {cursor} has no column {column}"
  | .cursorKey columns cursor => s!"key {ordinals columns} out of range for cursor {cursor}"
  | .slotUnknown slot => s!"no accumulator slot {slot}"
  | .groupingUnknown grouping => s!"no grouping {grouping}"
  | .groupUnselected grouping => s!"grouping {grouping} has no current group"
  | .resultAbsent table => s!"result table {table} was never created"
  | .cancelled => ErrorCode.cancelled.text
  | .reported _ text => text
  | .internal cause => cause.message

end Error

end TabularQuery
