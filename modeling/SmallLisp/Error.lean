import SmallLisp.SpecialForm
import SmallLisp.Token
import SmallLisp.Value

/-!
# Errors

What can go wrong while a text is read or a form evaluated. An error says its cause; the
wording is in one place, `Error.message`. Errors fall into three classes: a text that has only
not ended yet, a value thrown by the program, and everything else.

## Main definitions

* `Error`: the causes
* `Error.message`: their wording
* `Severity`, `Error.severity`: the three classes
-/

namespace SmallLisp

/-- What can be wrong with a token where it stands. -/
inductive ReadFault where
  /-- A closing mark where a form should start. -/
  | unexpected (lexeme : String)
  /-- A closing mark that closes another sort of sequence than the one that is open. -/
  | mismatched (lexeme : String)
  /-- A string literal that does not end. -/
  | openString
  deriving DecidableEq, Repr

/-- What can be wrong with a list of parameters or of bindings. -/
inductive BinderFault where
  /-- The marker of the rest parameter is not the last but one. -/
  | restMarker
  | parameter (got : ValueType)
  | parameterList (got : ValueType)
  | bindingList (got : ValueType)
  | oddBindings
  | bindingName (got : ValueType)
  deriving DecidableEq, Repr

/-- What a value of another kind was expected to be. -/
inductive Expectation where
  | symbol
  | number
  | string
  | atom
  | map
  | sequence
  | index
  | function
  deriving DecidableEq, Repr

/-- Why a file cannot be read or written. -/
inductive FileFault where
  | notFound
  | isDirectory
  | notDirectory
  | permissionDenied
  | nameTooLong
  /-- The path holds the character with code zero. -/
  | nulInPath
  /-- The contents are not text in UTF-8. -/
  | notText
  | other (text : String)
  deriving DecidableEq, Repr

/-- What can go wrong while a text is read or a form evaluated. -/
inductive Error where
  /-- A token cannot stand where it does. -/
  | unreadable (position : Position) (fault : ReadFault)
  /-- The text ends inside a form. -/
  | incomplete
  /-- A symbol has no binding in scope. -/
  | unbound (name : String)
  /-- A procedure has more positional parameters than there are arguments. -/
  | tooFewArguments (expected got : Nat)
  /-- A list of parameters or of bindings is not well formed. -/
  | binder (fault : BinderFault)
  /-- A special form lacks a part. -/
  | missingPart (form : SpecialForm)
  /-- A mark in a template lacks its form. -/
  | missingForm (mark : TemplateMark)
  /-- A native function is given a number of arguments that it does not take. -/
  | wrongCount (f : Native) (got : Nat)
  | wrongType (expected : Expectation) (got : ValueType)
  /-- A value that is no function is called; `text` is its readable text at that time. -/
  | notFunction (text : String)
  /-- The program throws a value. -/
  | thrown (payload : Value)
  | indexOutOfBounds (index length : Nat)
  /-- Of `count` forms that should pair up as keys and values, the last key has no value. -/
  | keyWithoutValue (count : Nat)
  | file (path : String) (fault : FileFault)
  deriving Inhabited

namespace ReadFault

/-- The wording of a fault. -/
def message : ReadFault → String
  | unexpected lexeme => "unexpected '" ++ lexeme ++ "'"
  | mismatched lexeme => "expected closing delimiter, got '" ++ lexeme ++ "'"
  | openString => "expected '\"', got EOF"

end ReadFault

namespace BinderFault

/-- The wording of a fault. -/
def message : BinderFault → String
  | restMarker => "'&' must be followed by exactly one parameter"
  | parameter got => "parameter must be a symbol, got " ++ got.name
  | parameterList got => "fn* parameters must be a list or vector, got " ++ got.name
  | bindingList got => "let* bindings must be a list or vector, got " ++ got.name
  | oddBindings => "let* bindings need an even number of forms"
  | bindingName got => "let* binding name must be a symbol, got " ++ got.name

end BinderFault

namespace Expectation

/-- The name of what was expected. -/
def name : Expectation → String
  | symbol => "symbol"
  | number => "number"
  | string => "string"
  | atom => "atom"
  | map => "hash-map"
  | sequence => "list or vector"
  | index => "non-negative integer index"
  | function => "function"

end Expectation

namespace FileFault

/-- The wording of a fault, with the number the system gives it. -/
def message : FileFault → String
  | notFound => "No such file or directory (os error 2)"
  | isDirectory => "Is a directory (os error 21)"
  | notDirectory => "Not a directory (os error 20)"
  | permissionDenied => "Permission denied (os error 13)"
  | nameTooLong => "File name too long (os error 36)"
  | nulInPath => "file name contained an unexpected NUL byte"
  | notText => "stream did not contain valid UTF-8"
  | other text => text

end FileFault

/-- The wording of the number of arguments that an arity asks for. -/
def Arity.message : Arity → String
  | exactly count => "expected " ++ Nat.repr count
  | atLeast count => "expected at least " ++ Nat.repr count
  | any => "expected any number"

/-- The three classes of errors. -/
inductive Severity where
  /-- More text could make the form complete. -/
  | incomplete
  /-- The program throws a value. -/
  | user
  /-- Everything else. -/
  | fatal
  deriving DecidableEq, Repr

namespace Error

/-- The class of an error. -/
def severity : Error → Severity
  | incomplete => .incomplete
  | thrown _ => .user
  | _ => .fatal

/-- The wording of an error. `text` is the readable text of a value at the time the error is
reported, for a thrown value is written with what its atoms then hold. -/
def message (text : Value → String) : Error → String
  | unreadable position fault =>
    "Syntax error at line " ++ Nat.repr position.line ++ ", column " ++
      Nat.repr position.column ++ ": " ++ fault.message
  | incomplete => "Unexpected end of input: more input expected"
  | unbound name => "'" ++ name ++ "' not found"
  | tooFewArguments expected got =>
    "Wrong number of arguments: expected " ++ Nat.repr expected ++ ", got " ++ Nat.repr got
  | binder fault => "Malformed binder: " ++ fault.message
  | missingPart form =>
    "Wrong number of arguments to " ++ form.keyword ++ ": " ++ form.requirement
  | missingForm mark =>
    "Wrong number of arguments to " ++ mark.keyword ++ ": " ++ mark.requirement
  | wrongCount f got =>
    "Wrong number of arguments to " ++ f.name ++ ": " ++ f.arity.message ++ ", got " ++
      Nat.repr got
  | wrongType expected got => "Type error: expected " ++ expected.name ++ ", got " ++ got.name
  | notFunction text => "Attempt to call non-function " ++ text
  | thrown payload => "Uncaught exception: " ++ text payload
  | indexOutOfBounds index length =>
    "Index out of bounds: " ++ Nat.repr index ++ " for sequence of length " ++ Nat.repr length
  | keyWithoutValue count => "Odd number of forms (" ++ Nat.repr count ++ ") for hash-map"
  | file path fault => "Problem reading source file " ++ path ++ ": " ++ fault.message

end Error

end SmallLisp
