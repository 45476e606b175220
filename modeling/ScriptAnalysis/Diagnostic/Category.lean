import ScriptAnalysis.Diagnostic.Catalog
import ScriptAnalysis.Text.Column

/-!
# Categories of violations

Each rule of the language that a program can break belongs to a category. Categories are numbered;
a number outside the list stands for a category without a name or title of its own.
-/

namespace ScriptAnalysis

inductive Category where
  | assignToWrongType
  | undefinedName
  | duplicateName
  | invalidNegation
  | invalidBinaryOp
  | conditionNotBool
  | unprintableExpression
  | invalidReturn
  | invalidCall
  | other (number : Int)
  deriving DecidableEq

namespace Category

/-- The categories with a name, in the order of their numbers. -/
def named : List Category :=
  [assignToWrongType, undefinedName, duplicateName, invalidNegation, invalidBinaryOp,
    conditionNotBool, unprintableExpression, invalidReturn, invalidCall]

def number : Category → Int
  | assignToWrongType => 1
  | undefinedName => 2
  | duplicateName => 3
  | invalidNegation => 4
  | invalidBinaryOp => 5
  | conditionNotBool => 6
  | unprintableExpression => 7
  | invalidReturn => 8
  | invalidCall => 9
  | other n => n

def ofNumber (n : Int) : Category := (named.find? (·.number = n)).getD (other n)

def name : Category → String
  | assignToWrongType => "ASSIGN_TO_WRONG_TYPE"
  | undefinedName => "UNDEFINED_NAME"
  | duplicateName => "DUPLICATE_NAME"
  | invalidNegation => "INVALID_NEGATION"
  | invalidBinaryOp => "INVALID_BINARY_OP"
  | conditionNotBool => "CONDITION_NOT_BOOL"
  | unprintableExpression => "UNPRINTABLE_EXPRESSION"
  | invalidReturn => "INVALID_RETURN"
  | invalidCall => "INVALID_CALL"
  | other n => "Category(" ++ toString n ++ ")"

def ofName? (name : String) : Option Category := named.find? (·.name = name)

def entry (c : Category) : CatalogEntry :=
  (Catalog.find? .semantic c.name).getD ⟨"NSE" ++ Text.padZeros 4 c.number, c.name, ""⟩

def code (c : Category) : String := c.entry.id

def title (c : Category) : String := c.entry.title

def help (c : Category) : String := c.entry.help

end Category

end ScriptAnalysis
