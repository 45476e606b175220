import ScriptAnalysis.Span

/-!
# Tokens

A token is a kind, the exact characters it was read from and the place of the first of them. No
token reaches over the end of a line.
-/

namespace ScriptAnalysis

inductive Kind where
  | eof
  | illegal
  | ident
  | int
  | string
  | type
  | funcWord
  | varWord
  | whileWord
  | ifWord
  | elseWord
  | printWord
  | returnWord
  | trueWord
  | falseWord
  | assign
  | plus
  | minus
  | star
  | slash
  | bang
  | leftParen
  | rightParen
  | leftBrace
  | rightBrace
  | colon
  | comma
  | less
  | lessEqual
  | greater
  | greaterEqual
  | equal
  | notEqual
  deriving DecidableEq

namespace Kind

def all : List Kind :=
  [eof, illegal, ident, int, string, type, funcWord, varWord, whileWord, ifWord, elseWord, printWord,
    returnWord, trueWord, falseWord, assign, plus, minus, star, slash, bang, leftParen, rightParen,
    leftBrace, rightBrace, colon, comma, less, lessEqual, greater, greaterEqual, equal, notEqual]

/-- How a kind is called in messages. A word or symbol of the language is called by its spelling. -/
def name : Kind → String
  | eof => "EOF"
  | illegal => "ILLEGAL"
  | ident => "IDENT"
  | int => "INT"
  | string => "STRING"
  | type => "TYPE"
  | funcWord => "func"
  | varWord => "var"
  | whileWord => "while"
  | ifWord => "if"
  | elseWord => "else"
  | printWord => "print"
  | returnWord => "return"
  | trueWord => "true"
  | falseWord => "false"
  | assign => "="
  | plus => "+"
  | minus => "-"
  | star => "*"
  | slash => "/"
  | bang => "!"
  | leftParen => "("
  | rightParen => ")"
  | leftBrace => "\x7b"
  | rightBrace => "\x7d"
  | colon => ":"
  | comma => ","
  | less => "<"
  | lessEqual => "<="
  | greater => ">"
  | greaterEqual => ">="
  | equal => "=="
  | notEqual => "!="

def isComparison : Kind → Bool
  | less | lessEqual | greater | greaterEqual | equal | notEqual => true
  | _ => false

/-- The kind at a position of the list of all kinds. -/
def ofNumber? (n : Int) : Option Kind := if 0 ≤ n then all[n.toNat]? else none

/-- The name of the kind at a position, also where there is none. -/
def nameAt (n : Int) : String := ((ofNumber? n).map name).getD "TokKind(?)"

/-- The kind of a word: a reserved word, the name of a type, or an identifier. -/
def ofWord (word : String) : Kind :=
  match word with
  | "func" => funcWord
  | "var" => varWord
  | "while" => whileWord
  | "if" => ifWord
  | "else" => elseWord
  | "print" => printWord
  | "return" => returnWord
  | "true" => trueWord
  | "false" => falseWord
  | "Int" | "Bool" | "String" => type
  | _ => ident

/-- The kind of a symbol of one character. -/
def ofSymbol : Char → Kind
  | '=' => assign
  | '+' => plus
  | '-' => minus
  | '*' => star
  | '/' => slash
  | '!' => bang
  | '(' => leftParen
  | ')' => rightParen
  | '{' => leftBrace
  | '}' => rightBrace
  | ':' => colon
  | ',' => comma
  | '<' => less
  | '>' => greater
  | _ => illegal

/-- The kind of a character followed by an equals sign, if the two are one symbol. -/
def ofSymbolEquals? : Char → Option Kind
  | '=' => some equal
  | '!' => some notEqual
  | '<' => some lessEqual
  | '>' => some greaterEqual
  | _ => none

end Kind

structure Token where
  kind : Kind
  lexeme : String
  line : Nat
  col : Nat
  deriving DecidableEq

namespace Token

/-- The column after the last character of a token. -/
def stop (t : Token) : Nat := t.col + t.lexeme.length

def startPlace (t : Token) : Place := ⟨t.line, t.col⟩

def stopPlace (t : Token) : Place := ⟨t.line, t.stop⟩

def span (t : Token) : Span := ⟨t.startPlace, t.stopPlace⟩

end Token

end ScriptAnalysis
