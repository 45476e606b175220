/-!
# The catalog of codes

Every message has a stable code, a short title and, for some, a hint. The catalog lists them by
domain and key.
-/

namespace ScriptAnalysis

structure CatalogEntry where
  id : String
  title : String
  help : String
  deriving DecidableEq

namespace Catalog

inductive Domain where
  | parsing
  | semantic
  | warning
  deriving DecidableEq

def Domain.ofName? (name : String) : Option Domain :=
  match name with
  | "syntax" => some parsing
  | "semantic" => some semantic
  | "warning" => some warning
  | _ => none

def entries : Domain → List (String × CatalogEntry)
  | .parsing =>
    [("unexpected_token",
        ⟨"NSX0001", "unexpected token", "check the statement or expression near this token"⟩),
      ("unterminated_string",
        ⟨"NSX0002", "unterminated string", "close the string literal with a double quote"⟩),
      ("decl_after_stmt",
        ⟨"NSX0003", "declaration after statement",
          "move variable declarations before the first statement of the block"⟩),
      ("unknown_char", ⟨"NSX0004", "unknown character", ""⟩),
      ("unexpected_eof",
        ⟨"NSX0005", "unexpected end of input", "the input stops in the middle of a construct"⟩)]
  | .semantic =>
    [("ASSIGN_TO_WRONG_TYPE", ⟨"NSE0001", "assignment to wrong type", ""⟩),
      ("UNDEFINED_NAME",
        ⟨"NSE0002", "undefined name", "declare the variable with var before using it"⟩),
      ("DUPLICATE_NAME", ⟨"NSE0003", "duplicate name", ""⟩),
      ("INVALID_NEGATION",
        ⟨"NSE0004", "invalid negation", "- applies to Int, ! applies to Bool"⟩),
      ("INVALID_BINARY_OP",
        ⟨"NSE0005", "invalid binary operation",
          "arithmetic and comparison operators take Int operands"⟩),
      ("CONDITION_NOT_BOOL", ⟨"NSE0006", "condition not Bool", ""⟩),
      ("UNPRINTABLE_EXPRESSION", ⟨"NSE0007", "unprintable expression", ""⟩),
      ("INVALID_RETURN", ⟨"NSE0008", "invalid return", ""⟩),
      ("INVALID_CALL", ⟨"NSE0009", "invalid call", ""⟩)]
  | .warning =>
    [("unused",
        ⟨"W0001", "unused variable or parameter", "prefix the name with _ to silence this warning"⟩),
      ("unreachable", ⟨"W0004", "unreachable code", ""⟩),
      ("missing_return", ⟨"W0006", "missing return", ""⟩)]

def find? (domain : Domain) (key : String) : Option CatalogEntry := (entries domain).lookup key

/-- The entry under a domain and key given by name. -/
def lookup? (domain key : String) : Option CatalogEntry :=
  (Domain.ofName? domain).bind (find? · key)

/-- An entry, or one made of a code and a title where the catalog has none. -/
def lookupD (domain key id title : String) : CatalogEntry :=
  (lookup? domain key).getD ⟨id, title, ""⟩

/-- The code of an entry, empty where the catalog has none. -/
def code (domain : Domain) (key : String) : String := ((find? domain key).map (·.id)).getD ""

end Catalog

end ScriptAnalysis
