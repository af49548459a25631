import Quill.Number.Numeral
import Quill.Text.Quoted
import Quill.Token.Kind

/-!
# Diagnostics and faults

A `Diagnostic` says what is wrong with a source text and where: its cause, and the offset of the
offending character or token. From the cause follow the kind that was found, what was expected, and
the message. A `Fault` is a diagnostic or one of the other ways in which an operation can fail.
-/

namespace Quill

/-- What is wrong with a source text. -/
inductive Cause where
  /-- An error in words. -/
  | general (message : String) (found : Kind) (expected : Option String)
  /-- A lexical error in words. -/
  | lexical (message : String) (found : Kind) (expected : Option String)
  /-- A numeral that denotes no number. -/
  | malformedNumber (text : String)
  /-- A character that begins no token. -/
  | unexpectedCharacter (char : String)
  /-- A string literal that the input ends in. -/
  | unterminatedString
  /-- A token of another kind than the one required. -/
  | tokenMismatch (expected found : Kind)
  /-- A token that no production of a rule accepts. -/
  | grammar (rule : String) (found : Kind) (expected : Option String)
  deriving DecidableEq

namespace Cause

/-- The kind that gave rise to the error. -/
def found : Cause → Kind
  | general _ found _ | lexical _ found _ | tokenMismatch _ found | grammar _ found _ => found
  | malformedNumber _ => .number
  | unexpectedCharacter _ => .other
  | unterminatedString => .eof

/-- The kind or construct that was expected, if there is one. -/
def expected : Cause → Option String
  | general _ _ expected | lexical _ _ expected | grammar _ _ expected => expected
  | malformedNumber _ => some Kind.number.name
  | unexpectedCharacter _ => none
  | unterminatedString => some Kind.string.name
  | tokenMismatch expected _ => some expected.name

/-- The error in words, without its position. -/
def message : Cause → String
  | general message _ _ | lexical message _ _ => message
  | malformedNumber text => "Malformed number " ++ Text.quoted text
  | unexpectedCharacter char => "Unexpected character " ++ Text.quoted char
  | unterminatedString => "Unterminated string"
  | tokenMismatch expected found => "Expected " ++ expected.name ++ ", got " ++ found.name
  | grammar rule found expected =>
    rule ++ ": did not expect " ++ found.name ++
      match expected with
      | some what => " (expected " ++ what ++ ")"
      | none => ""

end Cause

/-- A positioned error. -/
structure Diagnostic where
  /-- What is wrong. -/
  cause : Cause
  /-- The offset it is reported at. -/
  position : Int
  deriving DecidableEq

namespace Diagnostic

/-- The error in words. -/
def message (d : Diagnostic) : String :=
  d.cause.message ++ " at position " ++ toString d.position

end Diagnostic

/-- Why an operation failed. -/
inductive Fault where
  /-- The source text is at fault. -/
  | diagnostic (d : Diagnostic)
  /-- A numeral base out of range. -/
  | badRadix (base : Int)
  /-- A numeral whose integer part has so many digits that it is not converted. -/
  | tooManyDigits (digits : Nat)
  /-- A numeral whose integer part is beyond the greatest finite double. -/
  | numeralOverflow
  /-- A text that is no decimal number. -/
  | notANumber (text : String)
  /-- A text that is no integer in a radix. -/
  | notAnInteger (base : Nat) (text : String)
  /-- A token was to be consumed before the first one was read. -/
  | notStarted
  /-- The current token was asked for before the first one was read. -/
  | noCurrentToken
  /-- The name of no kind of leaf. -/
  | unknownLeafKind (name : String)
  /-- Trees have no hash. -/
  | unhashable (node : String)
  /-- A parse was given too few steps. -/
  | outOfSteps
  deriving DecidableEq

namespace Fault

/-- An error in the source text. -/
def atPosition (cause : Cause) (position : Int) : Fault := .diagnostic ⟨cause, position⟩

/-- The beginning of a quoted text, which may be too long to be shown in full. -/
def shortened (text : String) : String :=
  String.ofList ((Text.quoted text).toList.take 200)

/-- The failure in words. -/
def message : Fault → String
  | diagnostic d => d.message
  | badRadix base => "Numeral base must be between 2 and 36, got " ++ toString base
  | tooManyDigits digits =>
    "Exceeds the limit (" ++ toString Radix.mostDigits ++
      " digits) for integer string conversion: value has " ++ toString digits ++
      " digits; use sys.set_int_max_str_digits() to increase the limit"
  | numeralOverflow => "int too large to convert to float"
  | notANumber text => "could not convert string to float: " ++ Text.quoted text
  | notAnInteger base text =>
    "invalid literal for int() with base " ++ toString base ++ ": " ++ shortened text
  | notStarted => "Lexer.reset() must be called before consuming tokens"
  | noCurrentToken => ""
  | unknownLeafKind name => "Unknown factor kind: " ++ Text.quoted name
  | unhashable node => "unhashable type: '" ++ node ++ "'"
  | outOfSteps => "out of steps"

end Fault

end Quill
