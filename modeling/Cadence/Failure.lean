/-
  Failures: a fault of the running program, or a defect of what it was given.

  A defect is a program tree, a literal or a request of a shape the language has no fault for: a
  missing key, a node where another kind of node belongs, a number that does not fit. Defects come
  in categories, and `Defect.message` words them.
-/
import Cadence.Fault
import Cadence.Text.Numeral

namespace Cadence

/-- The two things that are done with nodes. -/
inductive Activity where
  | execute
  | evaluate
  deriving DecidableEq, Repr

def Activity.text : Activity → String
  | .execute => "execute"
  | .evaluate => "evaluate"

inductive Defect where
  -- keys
  | missingKey (key : String)
  | missingEntry (index : Int)
  -- malformed contents
  | unknownNode (shown : String)
  | notDouble (text : String)
  | notInt (text : String)
  | tooManyDigits (count : Nat)
  | unwritableInt
  | nullByte
  | nanToInt
  | unknownFaultKind (text : String)
  | notProgram (path : String)
  | json (problem : String) (line column offset : Nat)
  -- values of the wrong shape
  | notNode
  | notSerializable (kindName : String)
  | notIterable (kindName : String)
  | notSubscriptable (kindName : String)
  | textIndexedByText
  | listIndexedByText
  | noLength (kindName : String)
  | notNameable (kindName : String)
  | notJoinable (position : Nat) (kindName : String)
  | noDouble (kindName : String)
  | noInt (kindName : String)
  -- missing parts
  | noPart (kindName part : String)
  | noFirstItem
  | noArgument
  -- numbers that do not fit
  | intTooLarge
  | infinityToInt
  | limitTooLarge
  | countTooLarge
  -- nodes in the wrong place
  | unexpectedNode (activity : Activity) (kindName : String)
  -- options and files
  | voidOption (flag : String)
  | noFile (path : String)
  | isDirectory (path : String)
  | notDirectory (path : String)
  | nameTooLong (path : String)
  | noPermission (path : String)
  | noSpace
  deriving DecidableEq, Repr

namespace Defect

/-- The categories of defects. -/
inductive Category where
  | key
  | value
  | json
  | type
  | attribute
  | index
  | overflow
  | notImplemented
  | fileNotFound
  | isADirectory
  | notADirectory
  | permission
  | os
  deriving DecidableEq, Repr

def category : Defect → Category
  | .missingKey _ | .missingEntry _ => .key
  | .unknownNode _ | .notDouble _ | .notInt _ | .tooManyDigits _ | .unwritableInt | .nullByte
  | .nanToInt | .unknownFaultKind _ | .notProgram _ => .value
  | .json .. => .json
  | .notNode | .notSerializable _ | .notIterable _ | .notSubscriptable _ | .textIndexedByText
  | .listIndexedByText | .noLength _ | .notNameable _ | .notJoinable .. | .noDouble _
  | .noInt _ | .voidOption _ => .type
  | .noPart .. => .attribute
  | .noFirstItem | .noArgument => .index
  | .intTooLarge | .infinityToInt | .limitTooLarge | .countTooLarge => .overflow
  | .unexpectedNode .. => .notImplemented
  | .noFile _ => .fileNotFound
  | .isDirectory _ => .isADirectory
  | .notDirectory _ => .notADirectory
  | .noPermission _ => .permission
  | .nameTooLong _ | .noSpace => .os

/-- The longest extract of a text that is no whole number. -/
def maxExtract : Nat := 200

def message : Defect → String
  | .missingKey key => Text.quoted key
  | .missingEntry index => toString index
  | .unknownNode shown => s!"Unknown AST node type: {shown}"
  | .notDouble text => s!"could not convert string to float: {Text.quoted text}"
  | .notInt text =>
      "invalid literal for int() with base 10: "
        ++ String.ofList ((Text.quoted text).toList.take maxExtract)
  | .tooManyDigits count =>
      s!"Exceeds the limit ({Text.maxIntDigits} digits) for integer string conversion: "
        ++ s!"value has {count} digits; use sys.set_int_max_str_digits() to increase the limit"
  | .unwritableInt =>
      s!"Exceeds the limit ({Text.maxIntDigits} digits) for integer string conversion; "
        ++ "use sys.set_int_max_str_digits() to increase the limit"
  | .nullByte => "embedded null byte"
  | .nanToInt => "cannot convert float NaN to integer"
  | .unknownFaultKind text => s!"unknown error kind {Text.quoted text}"
  | .notProgram path => s!"{path} does not contain a Program"
  | .json problem line column offset =>
      s!"{problem}: line {line} column {column} (char {offset})"
  | .notNode => "Invalid AST object"
  | .notSerializable kindName => s!"Unsupported node for serialization: {kindName}"
  | .notIterable kindName => s!"'{kindName}' object is not iterable"
  | .notSubscriptable kindName => s!"'{kindName}' object is not subscriptable"
  | .textIndexedByText => "string indices must be integers, not 'str'"
  | .listIndexedByText => "list indices must be integers or slices, not str"
  | .noLength kindName => s!"object of type '{kindName}' has no len()"
  | .notNameable kindName => s!"unhashable type: '{kindName}'"
  | .notJoinable position kindName =>
      s!"sequence item {position}: expected str instance, {kindName} found"
  | .noDouble kindName =>
      s!"float() argument must be a string or a real number, not '{kindName}'"
  | .noInt kindName =>
      s!"int() argument must be a string, a bytes-like object or a real number, not '{kindName}'"
  | .noPart kindName part => s!"'{kindName}' object has no attribute '{part}'"
  | .noFirstItem => "tuple index out of range"
  | .noArgument => "list index out of range"
  | .intTooLarge => "int too large to convert to float"
  | .infinityToInt => "cannot convert float infinity to integer"
  | .limitTooLarge => "int too large for a nesting limit"
  | .countTooLarge => "int too large for a count"
  | .unexpectedNode activity kindName =>
      let place := if kindName == "NoneType" then kindName else s!"tonic.ast.{kindName}"
      s!"{activity.text}: unexpected node type <class '{place}'>"
  | .voidOption flag => s!"no value for {flag}"
  | .noFile path => s!"[Errno 2] No such file or directory: {Text.quoted path}"
  | .isDirectory path => s!"[Errno 21] Is a directory: {Text.quoted path}"
  | .notDirectory path => s!"[Errno 20] Not a directory: {Text.quoted path}"
  | .nameTooLong path => s!"[Errno 36] File name too long: {Text.quoted path}"
  | .noPermission path => s!"[Errno 13] Permission denied: {Text.quoted path}"
  | .noSpace => "[Errno 28] No space left on device"

end Defect

inductive Failure where
  | fault (f : Fault)
  | defect (d : Defect)
  deriving DecidableEq, Repr

/-- The failure as the command line reports it. -/
def Failure.report : Failure → String
  | .fault f => f.report
  | .defect d => d.message

end Cadence
