import Offside.DataType
import Offside.Text.Quoted

/-!
# What can be wrong with a source text

One constructor for each cause, with what its message names.
-/

namespace Offside

set_option autoImplicit false

inductive Fault where
  -- characters and literals
  | unexpectedCharacter (character : Char)
  | mixedIndentation
  | badIndentation (spaces : Nat)
  | unclosedComment
  | badNumber
  | expectedDigit
  | expectedHexDigit
  | badHexadecimal (literal : String)
  | lineEndIn (literal : String)
  | badEscape
  | badCharacterLength
  -- structure
  | scopeChange
  | unexpectedEnd
  | unexpectedToken (token : String)
  | expected (what : String)
  | invalidDataType (name : String)
  | autoWithoutExpression
  | autoReturnType
  | alreadyDeclared (name : String)
  | unknownIdentifier (name : String)
  | notAnOperand (name : String)
  | invalidOperator (symbol : String)
  | unexpectedOperator (symbol : String)
  | unexpectedParenthesis
  | unexpectedLiteral
  | unexpectedIdentifier (name : String)
  | stepNeedsVariable (operation : String)
  | expectedOperand
  | expectedExpression
  | invalidLiteral (type : DataType)
  | invalidAssignmentTarget
  | assignmentToConstant (name : String)
  -- meaning
  | expectedBoolean
  | expectedScope (construct : String)
  | expectedVariableDeclaration
  | typeMismatch
  | expectedType (type : DataType)
  | voidDataType
  | illegalOperand (operation : String) (type : DataType)
  | divisionByZero
deriving DecidableEq, Repr, Inhabited

namespace Fault

open Text (quoted quotedChar)

def message : Fault → String
  | unexpectedCharacter c => "syntax error, unexpected character " ++ quotedChar c
  | mixedIndentation => "mixed tabs and spaces"
  | badIndentation spaces =>
    "indentation spaces must be in multiples of 4, found " ++ toString spaces
  | unclosedComment => "unclosed comment"
  | badNumber => "bad number syntax"
  | expectedDigit => "expected digit"
  | expectedHexDigit => "expected hexadecimal digit"
  | badHexadecimal literal => "bad hexadecimal syntax: " ++ quoted literal
  | lineEndIn literal => "illegal line end in " ++ literal ++ " literal"
  | badEscape => "illegal escape code"
  | badCharacterLength => "illegal literal character length"
  | scopeChange => "illegal scope change"
  | unexpectedEnd => "unexpected end of file"
  | unexpectedToken token => "unexpected token " ++ quoted token
  | expected what => "expected " ++ what
  | invalidDataType name => "invalid data type " ++ quoted name
  | autoWithoutExpression => "data type auto with no expression"
  | autoReturnType => "return data type for function can not be auto"
  | alreadyDeclared name => "'" ++ name ++ "' is already declared in this scope"
  | unknownIdentifier name => "unknown identifier '" ++ name ++ "'"
  | notAnOperand name => "'" ++ name ++ "' can not be used as an operand"
  | invalidOperator symbol => "not a valid operator " ++ quoted symbol
  | unexpectedOperator symbol => "did not expect operator " ++ quoted symbol
  | unexpectedParenthesis => "did not expect '('"
  | unexpectedLiteral => "did not expect literal"
  | unexpectedIdentifier name => "did not expect identifier '" ++ name ++ "'"
  | stepNeedsVariable operation => "unary " ++ operation ++ " can only be used with variables"
  | expectedOperand => "expected operand"
  | expectedExpression => "expected expression"
  | invalidLiteral type => "literal is not a valid " ++ type.name
  | invalidAssignmentTarget => "left side of an assignment must be a variable"
  | assignmentToConstant name => "can not assign to constant '" ++ name ++ "'"
  | expectedBoolean => "expected boolean expression"
  | expectedScope construct => construct ++ " scope expected"
  | expectedVariableDeclaration => "expected variable declaration"
  | typeMismatch => "type mismatch"
  | expectedType type => "expected expression of type '" ++ type.name ++ "'"
  | voidDataType => "data type can not be void"
  | illegalOperand operation type =>
    "binary " ++ operation ++ " not allowed with " ++ type.name ++ " type"
  | divisionByZero => "division by zero"

end Fault

end Offside
