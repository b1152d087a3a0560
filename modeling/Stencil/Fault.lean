import Stencil.Decimal.Power
import Stencil.Report
import Stencil.Script.Check

/-!
# Faults

What can go wrong while a template runs. Each fault has a cause, belongs to a family that decides
which parts of the library recover from it, and has one wording.
-/

namespace Stencil

/-- The families of faults. -/
inductive FaultFamily where
  | type | value | key | index | attr | name | unboundLocal | zeroDivision | overflow
  | stopIteration | runtime | load | template
  deriving DecidableEq, Inhabited, Repr

/-- Causes of a fault. Type names and printed values are recorded as texts. -/
inductive Fault where
  | report (r : Report)
  -- operands
  | unsupportedOperands (sign left right : String)
  | cannotConcatenate (sequence other : String)
  | cannotRepeat (by_ : String)
  | badOperand (sign type : String)
  | unordered (sign left right : String)
  | divisionByZero
  | floatDivisionByZero
  | complexDivisionByZero
  | moduloByZero
  | floatModulo
  | zeroToNegativePower
  | zeroToComplexPower
  | quotientTooLarge
  | intTooLarge
  | powerTooLarge
  | complexPowerTooLarge
  | indexTooLarge
  | sizeTooLarge
  | infinityToInt
  | nanToInt
  | tooManyDigits
  | notReal (type : String)
  -- texts
  | unusedFormatArguments
  | missingFormatArguments
  | formatNeedsNumber (sign : Char) (type : String)
  | badFormatCharacter (c : Char) (index : Nat)
  | incompleteFormat
  | formatNeedsMapping
  | emptySeparator
  | joinNeedsText (position : Nat) (type : String)
  | joinNeedsIterable
  | badArgument (function argument expected type : String)
  | affixNeedsText (function type : String)
  | affixTupleNeedsText (function type : String)
  | splitNeedsText (type : String)
  | stripNeedsText
  | notIndex (type : String)
  | sectionNeedsIndex
  -- containers
  | notIterable (type : String)
  | notContainer (type : String)
  | notSubscriptable (type : String)
  | badIndex (sequence type : String)
  | badTextIndex (type : String)
  | indexOutOfRange (sequence : String)
  | popIndexOutOfRange
  | popFromEmptyList
  | keyMissing (shown : String)
  | keyUnprintable (cause : Fault)
  | unhashable (type : String)
  | noLength (type : String)
  | dictChanged
  | dictKeysChanged
  | exhausted
  | cannotUnpack (type : String)
  -- calls and names
  | notCallable (type : String)
  | notValue (type : String)
  | missingAttribute (type name : String)
  | missingTypeAttribute (type name : String)
  | missingModuleAttribute (module shown : String)
  | arity (message : String)
  | unboundLocal (id : Script.Ident)
  | unboundFree (id : Script.Ident)
  | undefined (id : Script.Ident)
  -- loading and rendering
  | nullInFileName
  | badModule (e : Script.LoadError) (file : String)
  | rootMissing
  | environmentGone (template : String)
  -- raised by callables of the application
  | custom (message : String)
  | customKey (key : String)
  deriving Inhabited

namespace Fault

/-- The family of a fault. -/
def family : Fault → FaultFamily
  | report _ => .template
  | unsupportedOperands .. | cannotConcatenate .. | cannotRepeat _ | badOperand .. | unordered ..
  | notReal _ | unusedFormatArguments | missingFormatArguments | formatNeedsNumber ..
  | formatNeedsMapping | joinNeedsText .. | joinNeedsIterable | badArgument .. | affixNeedsText ..
  | affixTupleNeedsText .. | splitNeedsText _ | stripNeedsText | notIndex _ | sectionNeedsIndex
  | notIterable _ | notContainer _ | notSubscriptable _ | badIndex .. | badTextIndex _
  | unhashable _ | noLength _ | cannotUnpack _ | notCallable _ | notValue _ | arity _ =>
    .type
  | nanToInt | tooManyDigits | badFormatCharacter .. | incompleteFormat | emptySeparator
  | rootMissing
  | nullInFileName | custom _ => .value
  | badModule .emptyComparison _ => .value
  | badModule (.treeConstant _) _ => .type
  | badModule (.duplicateParam _) _ | badModule .nestedLoops _ => .load
  | divisionByZero | floatDivisionByZero | complexDivisionByZero | moduloByZero | floatModulo
  | zeroToNegativePower | zeroToComplexPower => .zeroDivision
  | quotientTooLarge | intTooLarge | powerTooLarge | complexPowerTooLarge | indexTooLarge
  | sizeTooLarge | infinityToInt => .overflow
  | indexOutOfRange _ | popIndexOutOfRange | popFromEmptyList => .index
  | keyMissing _ | keyUnprintable _ | customKey _ => .key
  | dictChanged | dictKeysChanged | environmentGone _ => .runtime
  | exhausted => .stopIteration
  | missingAttribute .. | missingTypeAttribute .. | missingModuleAttribute .. => .attr
  | unboundLocal _ => .unboundLocal
  | unboundFree _ | undefined _ => .name

/-- The part of a file name behind its last slash. -/
def baseName (file : String) : String :=
  String.ofList ((file.toList.reverse.takeWhile (· ≠ '/')).reverse)

/-- The wording of a fault. -/
def message : Fault → String
  | report r => r.text
  | unsupportedOperands sign left right =>
    s!"unsupported operand type(s) for {sign}: '{left}' and '{right}'"
  | cannotConcatenate sequence other =>
    s!"can only concatenate {sequence} (not \"{other}\") to {sequence}"
  | cannotRepeat t => s!"can't multiply sequence by non-int of type '{t}'"
  | badOperand sign t => s!"bad operand type for unary {sign}: '{t}'"
  | unordered sign left right =>
    s!"'{sign}' not supported between instances of '{left}' and '{right}'"
  | divisionByZero => "division by zero"
  | floatDivisionByZero => "float division by zero"
  | complexDivisionByZero => "complex division by zero"
  | moduloByZero => "integer modulo by zero"
  | floatModulo => "float modulo"
  | zeroToNegativePower => "0.0 cannot be raised to a negative power"
  | zeroToComplexPower => "0.0 to a negative or complex power"
  | quotientTooLarge => "integer division result too large for a float"
  | intTooLarge => "int too large to convert to float"
  | powerTooLarge => "(34, 'Numerical result out of range')"
  | complexPowerTooLarge => "complex exponentiation"
  | indexTooLarge => "cannot fit 'int' into an index-sized integer"
  | sizeTooLarge => "Python int too large to convert to C ssize_t"
  | infinityToInt => "cannot convert float infinity to integer"
  | nanToInt => "cannot convert float NaN to integer"
  | tooManyDigits =>
    s!"Exceeds the limit ({digitLimit} digits) for integer string conversion; " ++
      "use sys.set_int_max_str_digits() to increase the limit"
  | notReal t => s!"must be real number, not {t}"
  | unusedFormatArguments => "not all arguments converted during string formatting"
  | missingFormatArguments => "not enough arguments for format string"
  | formatNeedsNumber c t => s!"%{c} format: a real number is required, not {t}"
  | badFormatCharacter c i =>
    let code := String.ofList (Nat.toDigits 16 c.toNat)
    s!"unsupported format character '{c}' (0x{code}) at index {i}"
  | incompleteFormat => "incomplete format"
  | formatNeedsMapping => "format requires a mapping"
  | emptySeparator => "empty separator"
  | joinNeedsText i t => s!"sequence item {i}: expected str instance, {t} found"
  | joinNeedsIterable => "can only join an iterable"
  | badArgument f argument expected t => s!"{f}() {argument} must be {expected}, not {t}"
  | affixNeedsText f t => s!"{f} first arg must be str or a tuple of str, not {t}"
  | affixTupleNeedsText f t => s!"tuple for {f} must only contain str, not {t}"
  | splitNeedsText t => s!"must be str or None, not {t}"
  | stripNeedsText => "strip arg must be None or str"
  | notIndex t => s!"'{t}' object cannot be interpreted as an integer"
  | sectionNeedsIndex => "slice indices must be integers or None or have an __index__ method"
  | notIterable t => s!"'{t}' object is not iterable"
  | notContainer t => s!"argument of type '{t}' is not iterable"
  | notSubscriptable t => s!"'{t}' object is not subscriptable"
  | badIndex sequence t => s!"{sequence} indices must be integers or slices, not {t}"
  | badTextIndex t => s!"string indices must be integers, not '{t}'"
  | indexOutOfRange sequence => s!"{sequence} index out of range"
  | popIndexOutOfRange => "pop index out of range"
  | popFromEmptyList => "pop from empty list"
  | keyMissing shown | customKey shown => shown
  | keyUnprintable cause => cause.message
  | unhashable t => s!"unhashable type: '{t}'"
  | noLength t => s!"object of type '{t}' has no len()"
  | dictChanged => "dictionary changed size during iteration"
  | dictKeysChanged => "dictionary keys changed during iteration"
  | exhausted => ""
  | cannotUnpack t => s!"cannot unpack non-iterable {t} object"
  | notCallable t => s!"'{t}' object is not callable"
  | notValue t => s!"'{t}' object is not a value"
  | missingAttribute t name => s!"'{t}' object has no attribute '{name}'"
  | missingTypeAttribute t name => s!"type object '{t}' has no attribute '{name}'"
  | missingModuleAttribute m shown => s!"module '{m}' has no attribute {shown}"
  | arity m => m
  | unboundLocal id =>
    s!"cannot access local variable '{id.text}' where it is not associated with a value"
  | unboundFree id =>
    s!"cannot access free variable '{id.text}' where it is not associated with a value in " ++
      "enclosing scope"
  | undefined id => s!"name '{id.text}' is not defined"
  | nullInFileName => "embedded null character"
  | badModule .emptyComparison _ => "Compare with no comparators"
  | badModule (.treeConstant kind) _ => s!"got an invalid type in Constant: {kind}"
  | badModule (.duplicateParam id) file =>
    s!"duplicate argument '{id.text}' in function definition ({baseName file}, line 1)"
  | badModule .nestedLoops file => s!"too many statically nested blocks ({baseName file}, line 1)"
  | rootMissing => "compiled unit requires a 'root' entry point"
  | environmentGone t => s!"Environment has been garbage collected while rendering '{t}'"
  | custom m => m

/-- The fault that comes of putting a fault into words: another one when a key is missing that
cannot be printed. -/
def reported : Fault → Fault
  | keyUnprintable cause => cause
  | f => f

/-- The wording of a fault. Looking for it meets another fault when a key is missing that cannot be
printed. -/
def wording : Fault → Except Fault String
  | keyUnprintable cause => .error cause
  | f => .ok f.message

/-- The name of a fault's class. -/
def className (f : Fault) : String :=
  match f with
  | report r => r.className
  | _ =>
    match f.family with
    | .type => "TypeError"
    | .value => "ValueError"
    | .key => "KeyError"
    | .index => "IndexError"
    | .attr => "AttributeError"
    | .name => "NameError"
    | .unboundLocal => "UnboundLocalError"
    | .zeroDivision => "ZeroDivisionError"
    | .overflow => "OverflowError"
    | .stopIteration => "StopIteration"
    | .runtime => "RuntimeError"
    | .load => "SyntaxError"
    | .template => "TemplateError"

end Fault

end Stencil
