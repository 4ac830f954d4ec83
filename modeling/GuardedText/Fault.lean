import GuardedText.Text.Basic

/-
  Why the evaluation of a guard fails. A `Misuse` is an operation that the guard language itself
  refuses; the other faults arise in values that the host supplied or in the limits of numbers.
  The wording of every message is in `Misuse.message` and `Fault.message`.
-/

namespace GuardedText

/-- An operation applied to a value of the wrong kind. -/
inductive Misuse where
  /-- A property of `null` or `undefined` is read. -/
  | readNothing (object key : Text)
  /-- A property of `null` or `undefined` is written. -/
  | writeNothing (object key : Text)
  /-- `null` or `undefined` stands where an object is needed. -/
  | noObject
  /-- Something that is not a function is called. -/
  | notCallable (name : Text)
  /-- Something that is no array and no string is spread. -/
  | notIterable (value : Text)
  /-- The object keeps the property as it is. -/
  | readOnly (name : Text)
  /-- The key is no index of an array. -/
  | arrayProperty (name : Text)
  /-- The right side of `instanceof` is no function. -/
  | noConstructor
  /-- The right side of `in` is no object. -/
  | noContainer (key object : Text)
  /-- There is no such operator. -/
  | unsupported (operator : Text)
  /-- A text is not JSON. -/
  | malformedJson (reason : Text)
  /-- What the host keeps inside its own objects is asked for; what it does is not told here. -/
  | internal (name : Text)
  deriving DecidableEq, Repr

/-- What a guard is told about a misuse. -/
def Misuse.message : Misuse → Text
  | .readNothing object key =>
    "Cannot read properties of " ++ object ++ " (reading '" ++ key ++ "')"
  | .writeNothing object key =>
    "Cannot set properties of " ++ object ++ " (setting '" ++ key ++ "')"
  | .noObject => "Cannot convert undefined or null to object"
  | .notCallable name => name ++ " is not a function"
  | .notIterable value => value ++ " is not iterable"
  | .readOnly name => "Cannot assign to read only property '" ++ name ++ "' of object"
  | .arrayProperty name => "Cannot set property '" ++ name ++ "' of an array"
  | .noConstructor => "Right-hand side of 'instanceof' is not callable"
  | .noContainer key object =>
    "Cannot use 'in' operator to search for '" ++ key ++ "' in " ++ object
  | .unsupported operator => "Unsupported operator " ++ operator
  | .malformedJson reason => "Unexpected token in JSON: " ++ reason
  | .internal name => name ++ " is kept inside the host"

/-- Why an evaluation stopped. -/
inductive Fault where
  /-- A name is neither in the context nor a built-in. -/
  | unknownName (name : Text)
  /-- An operation is applied to a value of the wrong kind. -/
  | misuse (cause : Misuse)
  /-- A guard waits for a value where waiting is not allowed. -/
  | suspended
  /-- The base of an optional access is missing; caught by the enclosing chain. -/
  | shortCircuit
  /-- An integer is too large for a double. -/
  | overflow
  /-- A function does not take this number or kind of arguments. -/
  | badCall
  /-- A function refuses the value of an argument. -/
  | badValue
  /-- A host function failed. -/
  | hostFailure
  /-- A value that arrives later was awaited before. -/
  | alreadyAwaited
  /-- Values or calls are nested without end. -/
  | tooDeep
  /-- An array would not fit into memory. -/
  | tooLarge
  deriving DecidableEq, Repr

/-- The message of a fault; those of the host and of the limits of numbers have none. -/
def Fault.message : Fault → Text
  | .unknownName name => name ++ " is not defined"
  | .misuse cause => cause.message
  | .suspended => "Guard expression suspended where suspension is not allowed"
  | _ => []

end GuardedText
