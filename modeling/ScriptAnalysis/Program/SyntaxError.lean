import ScriptAnalysis.Text.Quoted
import ScriptAnalysis.Token

/-!
# Syntax errors

Reading stops at the first token that cannot continue any program. The error is that token and what
could have stood there instead; its code and wording depend on what kind of token it is.
-/

namespace ScriptAnalysis

inductive Expected where
  | token (kind : Kind)
  | statement
  | expression
  | endOfExpression
  deriving DecidableEq

def Expected.text : Expected → String
  | .token kind => "'" ++ kind.name ++ "'"
  | .statement => "statement"
  | .expression => "expression"
  | .endOfExpression => "end of expression"

inductive SyntaxFault where
  | unexpectedToken (lexeme : String) (expected : Expected)
  | unterminatedString (lexeme : String)
  | lateDeclaration
  | unknownCharacter (lexeme : String)
  | unexpectedEnd (expected : Expected)
  deriving DecidableEq

structure SyntaxError where
  token : Token
  fault : SyntaxFault
  deriving DecidableEq

namespace SyntaxFault

/-- The name under which the catalog lists a fault. -/
def key : SyntaxFault → String
  | unexpectedToken _ _ => "unexpected_token"
  | unterminatedString _ => "unterminated_string"
  | lateDeclaration => "decl_after_stmt"
  | unknownCharacter _ => "unknown_char"
  | unexpectedEnd _ => "unexpected_eof"

def message : SyntaxFault → String
  | unexpectedToken lexeme expected => "unexpected '" ++ lexeme ++ "', expected " ++ expected.text
  | unterminatedString lexeme => "unterminated string " ++ lexeme
  | lateDeclaration => "variable declarations must come before statements"
  | unknownCharacter lexeme => "unknown character " ++ Text.quote lexeme
  | unexpectedEnd expected => "unexpected end of input, expected " ++ expected.text

end SyntaxFault

namespace SyntaxError

/-- The error at a token where something else was expected. -/
def unexpected (token : Token) (expected : Expected) : SyntaxError :=
  ⟨token,
    match token.kind with
    | .eof => .unexpectedEnd expected
    | .illegal =>
      if token.lexeme.toList.head? = some '"' then .unterminatedString token.lexeme
      else .unknownCharacter token.lexeme
    | _ => .unexpectedToken token.lexeme expected⟩

/-- Whether the source ended in the middle of a construct, so that more of it could complete it. -/
def isIncomplete (e : SyntaxError) : Bool :=
  match e.fault with
  | .unexpectedEnd _ => true
  | _ => false

end SyntaxError

end ScriptAnalysis
