import ScriptAnalysis.Text.Blank

/-!
# Types

A type is primitive or the signature of a function over primitive types. The primitive `error` is
the type of what could not be given one. Primitives are also known by numbers; a number that belongs
to none of the five is kept.
-/

namespace ScriptAnalysis

inductive Prim where
  | int
  | bool
  | string
  | void
  | error
  | unknown (number : Int)
  deriving DecidableEq

namespace Prim

def ofNumber (n : Int) : Prim :=
  if n = 1 then int
  else if n = 2 then bool
  else if n = 3 then string
  else if n = 4 then void
  else if n = 5 then error
  else unknown n

def name : Prim → String
  | int => "Int"
  | bool => "Bool"
  | string => "String"
  | void => "Void"
  | error => "ERROR"
  | unknown _ => "unknown"

/-- The primitive that a program can write under a name, blanks around it aside. -/
def ofName? (name : String) : Option Prim :=
  match Text.trim name with
  | "Int" => some int
  | "Bool" => some bool
  | "String" => some string
  | "Void" => some void
  | _ => none

/-- The primitive a declaration stands for: `void` where nothing is written, `error` where the
written name is no type. -/
def declared (written : String) : Prim :=
  if written = "" then void else (ofName? written).getD error

end Prim

structure Signature where
  params : List Prim
  returns : Prim
  deriving DecidableEq

inductive Ty where
  | prim (p : Prim)
  | func (signature : Signature)
  deriving DecidableEq

namespace Ty

abbrev int : Ty := prim .int

abbrev bool : Ty := prim .bool

abbrev string : Ty := prim .string

abbrev void : Ty := prim .void

abbrev error : Ty := prim .error

def text : Ty → String
  | prim p => p.name
  | func s => "(" ++ ", ".intercalate (s.params.map Prim.name) ++ ") -> " ++ s.returns.name

/-- How a type that may be missing is printed. -/
def textOption : Option Ty → String
  | none => "%!s(<nil>)"
  | some t => t.text

end Ty

end ScriptAnalysis
