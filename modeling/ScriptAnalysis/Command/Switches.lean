/-!
# Switches

A command takes one file and switches, in any order. A switch begins with one or more dashes; only
the format takes a value, after an equals sign or as the next argument. After two dashes alone the
first argument that is not empty is the file, unless one came before.
-/

namespace ScriptAnalysis

inductive Format where
  | text
  | json
  deriving DecidableEq

def Format.ofName? (name : String) : Option Format :=
  match name with
  | "text" => some text
  | "json" => some json
  | _ => none

def Format.name : Format → String
  | text => "text"
  | json => "json"

structure Switches where
  file : String
  format : Format
  pretty : Bool
  noParen : Bool
  noWarn : Bool
  werror : Bool
  verbose : Bool
  deriving DecidableEq

namespace Switches

def initial : Switches := ⟨"", .text, false, false, false, false, false⟩

/-- Sets the switch of a name. A name that belongs to no switch sets none. -/
def turnOn (s : Switches) (name : String) : Switches :=
  match name with
  | "pretty" => { s with pretty := true }
  | "no-paren-errors" => { s with noParen := true }
  | "no-warnings" => { s with noWarn := true }
  | "Werror" => { s with werror := true }
  | "verbose" => { s with verbose := true }
  | _ => s

/-- The name of a switch without its dashes, and its value if it has one. -/
def split (arg : String) : String × Option String :=
  let bare := arg.toList.dropWhile (· = '-')
  let name := String.ofList (bare.takeWhile (· ≠ '='))
  let value := match bare.dropWhile (· ≠ '=') with
    | [] => none
    | _ :: value => some (String.ofList value)
  (if name = "werror" then "Werror" else name, value)

/-- Ends the reading: the file is taken from what is left, if it has not been given. -/
def finish (s : Switches) (rest : List String) : Except Switches Switches :=
  let file := if s.file = "" then (rest.find? (· ≠ "")).getD "" else s.file
  if file = "" then .error s else .ok { s with file := file }

/-- Reads arguments, of which only the allowed switches count. A misuse answers what had been read
until then. -/
def read (allowed : List String) (s : Switches) : List String → Except Switches Switches
  | [] => s.finish []
  | arg :: rest =>
    if arg = "--" then
      s.finish rest
    else if arg.toList.head? ≠ some '-' then
      if s.file = "" then read allowed { s with file := arg } rest else .error s
    else
      let (name, value) := split arg
      if name ∉ allowed then
        .error s
      else if name = "format" then
        match value, rest with
        | some value, rest =>
          match Format.ofName? value with
          | some format => read allowed { s with format := format } rest
          | none => .error s
        | none, [] => .error s
        | none, value :: rest =>
          match Format.ofName? value with
          | some format => read allowed { s with format := format } rest
          | none => .error s
      else if value.isSome then
        .error s
      else
        read allowed (s.turnOn name) rest

def parse (allowed args : List String) : Except Switches Switches := read allowed initial args

end Switches

end ScriptAnalysis
