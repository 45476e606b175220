import ScriptAnalysis.Diagnostic.Category
import ScriptAnalysis.Text.Quoted
import ScriptAnalysis.Ty

/-!
# Violations and cautions

A violation says which rule of the language a node breaks and what the message has to name. A caution
says what looks like a mistake in a program that may be valid.
-/

namespace ScriptAnalysis

inductive Violation where
  | undefinedVariable (name : String)
  | parenthesizedError
  | negation (op : String) (operand : Ty)
  | product (left right : Ty)
  | sum (op : String)
  | comparison
  | undefinedFunction (name : String)
  | notCallable (name : String) (type : Ty)
  | argumentCount (name : String) (expected got : Nat)
  | argumentType (position : Nat) (name : String) (expected : Prim) (got : Ty)
  | duplicateFunction (name : String)
  | duplicateParameter (name function : String)
  | duplicateVariable (name : String)
  | initialType (got : Ty) (written : String)
  | undefinedTarget (name : String)
  | assignedType (got : Ty) (name : String) (declared : Ty)
  | loopCondition (text : String) (got : Ty)
  | branchCondition (text : String) (got : Ty)
  | unprintable
  | missingValue (scope : String) (expected : Ty)
  | valueFromVoid (scope : String)
  | returnedType (scope : String) (expected got : Ty)
  deriving DecidableEq

namespace Violation

def category : Violation → Category
  | undefinedVariable _ | undefinedFunction _ | undefinedTarget _ => .undefinedName
  | parenthesizedError | product _ _ | sum _ | comparison => .invalidBinaryOp
  | negation _ _ => .invalidNegation
  | notCallable _ _ | argumentCount _ _ _ | argumentType _ _ _ _ => .invalidCall
  | duplicateFunction _ | duplicateParameter _ _ | duplicateVariable _ => .duplicateName
  | initialType _ _ | assignedType _ _ _ => .assignToWrongType
  | loopCondition _ _ | branchCondition _ _ => .conditionNotBool
  | unprintable => .unprintableExpression
  | missingValue _ _ | valueFromVoid _ | returnedType _ _ _ => .invalidReturn

def message : Violation → String
  | undefinedVariable name => "Variable [" ++ name ++ "] is undefined."
  | parenthesizedError => "Parentheses contain expression of type " ++ Ty.error.text ++ "."
  | negation op operand => "Can't apply " ++ op ++ " to [" ++ operand.text ++ "]"
  | product left right => "Can't multiply or divide " ++ left.text ++ " with/by " ++ right.text
  | sum op => "Can't apply " ++ op ++ " between non-integer type expression(s)."
  | comparison => "Can't compare two non-integer type expressions."
  | undefinedFunction name => "Function [" ++ name ++ "] is undefined."
  | notCallable name type => "[" ++ name ++ "] is of type " ++ type.text ++ " and can't be called."
  | argumentCount name expected got =>
    "Function [" ++ name ++ "] takes " ++ toString expected ++ " argument(s), got " ++ toString got
      ++ "."
  | argumentType position name expected got =>
    "Argument " ++ toString position ++ " of [" ++ name ++ "] must be " ++ expected.name ++ ", not "
      ++ got.text ++ "."
  | duplicateFunction name =>
    "Function [" ++ name ++ "] is already defined. No duplicates are allowed."
  | duplicateParameter name function =>
    "Parameter [" ++ name ++ "] is already defined in [" ++ function ++ "]."
  | duplicateVariable name =>
    "Previously declared variable already has name [" ++ name ++ "]. No duplicates are allowed."
  | initialType got written => "Can't assign " ++ got.text ++ " to variable of type " ++ written
  | undefinedTarget name => "Can't assign value to undefined variable [" ++ name ++ "]"
  | assignedType got name declared =>
    "Can't assign value of type " ++ got.text ++ " to variable [" ++ name ++ "] of type "
      ++ declared.text ++ "."
  | loopCondition text got =>
    "while-loop condition [" ++ text ++ "] can only be of type Bool, not " ++ got.text ++ "."
  | branchCondition text got =>
    "if-statement condition [" ++ text ++ "] can only be of type Bool, not " ++ got.text ++ "."
  | unprintable => "Can't print expression of type " ++ Ty.error.text ++ "."
  | missingValue scope expected =>
    "Missing return value in [" ++ scope ++ "], which returns " ++ expected.text ++ "."
  | valueFromVoid scope => "Can't return a value from [" ++ scope ++ "], which returns Void."
  | returnedType scope expected got =>
    "[" ++ scope ++ "] must return " ++ expected.text ++ ", not " ++ got.text ++ "."

end Violation

inductive Caution where
  | unused (name : String)
  | unreachable
  | missingReturn (function : String) (returns : Option Ty)
  deriving DecidableEq

namespace Caution

/-- The name under which the catalog lists a caution. -/
def key : Caution → String
  | unused _ => "unused"
  | unreachable => "unreachable"
  | missingReturn _ _ => "missing_return"

def code (c : Caution) : String := Catalog.code .warning c.key

def message : Caution → String
  | unused name => "unused variable or parameter " ++ Text.quote name
  | unreachable => "unreachable code: statement after return"
  | missingReturn function returns =>
    "function " ++ Text.quote function ++ " returns " ++ Ty.textOption returns ++
      " but may fall through without an explicit return"

end Caution

end ScriptAnalysis
