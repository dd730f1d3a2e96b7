import Offside.DataType
import Offside.Location

/-!
# Tokens

A token is a word of the language with its place, and with the indentation level of the line that it
stands on: blocks have no brackets, so the level of its tokens is all that says which block a line
belongs to.
-/

namespace Offside

set_option autoImplicit false

inductive Keyword where
  | ifThen | orElse | whileLoop | forLoop
deriving DecidableEq, Repr, Inhabited

namespace Keyword

def all : List Keyword := [ifThen, orElse, whileLoop, forLoop]

def word : Keyword → String
  | ifThen => "if"
  | orElse => "else"
  | whileLoop => "while"
  | forLoop => "for"

def ofWord? (word : String) : Option Keyword := all.find? fun k => k.word == word

end Keyword

/-- The two words that are literals. -/
def boolean? (word : String) : Option Bool :=
  if word = "true" then some true else if word = "false" then some false else none

namespace Token

inductive Kind where
  | literal | identifier | keyword | operator | delimiter | endOfStatement | endOfFile
deriving DecidableEq, Repr, Inhabited

def Kind.name : Kind → String
  | .literal => "LITERAL"
  | .identifier => "IDENTIFIER"
  | .keyword => "KEYWORD"
  | .operator => "OPERATOR"
  | .delimiter => "DELIMITER"
  | .endOfStatement => "END_OF_STATEMENT"
  | .endOfFile => "EOF"

end Token

/--
The text is that of the source, with two exceptions: strings and characters are without their
quotes, and a hexadecimal number is in decimal. Literals have a type, keywords are told apart.
-/
structure Token where
  kind : Token.Kind
  text : String
  location : Location
  level : Nat
  type : Option DataType
  keyword : Option Keyword
deriving DecidableEq, Repr, Inhabited

namespace Token

/-- A token that is neither a literal nor a keyword. -/
def plain (kind : Kind) (text : String) (location : Location) (level : Nat) : Token :=
  ⟨kind, text, location, level, none, none⟩

/-- Stands behind the last token, at the place of the token before it. -/
def endAt (location : Location) : Token := plain .endOfFile "" location 0

def is (t : Token) (kind : Kind) (text : String) : Bool := t.kind == kind && t.text == text

def isDelimiter (t : Token) (text : String) : Bool := t.is .delimiter text

def isOperator (t : Token) (text : String) : Bool := t.is .operator text

def isKeyword (t : Token) (keyword : Keyword) : Bool := t.keyword == some keyword

def endsStatement (t : Token) : Bool := t.kind == .endOfStatement || t.kind == .endOfFile

/-- An end of statement shows as a line break, whatever its text. -/
def toText (t : Token) : String :=
  let text := if t.kind = .endOfStatement then "\\n" else t.text
  "(" ++ toString t.location.line ++ ":" ++ toString t.location.column ++ ") [" ++
    toString t.level ++ "] " ++ t.kind.name ++ " '" ++ text ++ "'"

end Token

end Offside
