import Layering.Java.Declaration

/-!
# Syntax errors

Why a source has no tokens or no outline, and where.
-/

namespace Layering.Java

/-- What is wrong with a source. -/
inductive Problem where
  | unterminatedComment
  | unterminatedLiteral
  | unterminatedTextBlock
  /-- The source ends inside a body. -/
  | endInsideDeclaration
  /-- A package or import declaration without its semicolon. -/
  | unterminatedDirective (keyword : Text)
  /-- A type declaration without a body. -/
  | missingBody (kind : TypeKind) (name : Text)
  | unbalancedParentheses
  | braceOutsideType
  | unbalancedBrace
deriving DecidableEq, Repr

/-- The wording of a problem. -/
def Problem.message : Problem → Text
  | .unterminatedComment => "unterminated comment"
  | .unterminatedLiteral => "unterminated literal"
  | .unterminatedTextBlock => "unterminated text block"
  | .endInsideDeclaration => "unexpected end of file inside a declaration"
  | .unterminatedDirective keyword => "unterminated " ++ keyword ++ " declaration"
  | .missingBody kind name => "missing body for " ++ kind.name ++ " " ++ name
  | .unbalancedParentheses => "unbalanced parentheses"
  | .braceOutsideType => "'\x7b' outside a type declaration"
  | .unbalancedBrace => "unbalanced '\x7d'"

/-- A problem and its place. -/
structure SyntaxError where
  problem : Problem
  position : Position
deriving DecidableEq, Repr

/-- The message for an error in the named file; an empty name is left out. -/
def SyntaxError.message (e : SyntaxError) (file : Text) : Text :=
  let name : Text := if file = [] then [] else file ++ ":"
  name ++ Text.ofNat e.position.line ++ ":" ++ Text.ofNat e.position.column ++ ": "
    ++ e.problem.message

end Layering.Java
