import Offside.Token

/-!
# Token streams

The tokens from the current one on. A stream never runs out: its last token is an end of file, and
from an end of file there is no moving on, so tokens behind the first one are out of reach.
-/

namespace Offside

set_option autoImplicit false

/-- `position` counts the tokens before the current one. -/
structure TokenStream where
  position : Nat
  current : Token
  rest : List Token
deriving DecidableEq, Repr

namespace TokenStream

/-- An end of file is put behind tokens that do not end with one. -/
def closed (tokens : List Token) : List Token :=
  match tokens.getLast? with
  | none => [.endAt .nowhere]
  | some t => if t.kind = .endOfFile then tokens else tokens ++ [.endAt t.location]

def ofTokens (tokens : List Token) : TokenStream :=
  match closed tokens with
  | [] => ⟨0, .endAt .nowhere, []⟩
  | t :: rest => ⟨0, t, rest⟩

def tokens (s : TokenStream) : List Token := s.current :: s.rest

def advance (s : TokenStream) : TokenStream :=
  match s.rest with
  | [] => s
  | t :: rest => if s.current.kind = .endOfFile then s else ⟨s.position + 1, t, rest⟩

/-- `identifier :` begins a declaration. -/
def startsDeclaration (s : TokenStream) : Bool :=
  s.current.kind == .identifier &&
    match s.rest with
    | [] => false
    | t :: _ => t.isDelimiter ":"

/-- `()` and `(identifier :` begin the parameters of a function; any other `(` an expression. -/
def startsParameters (s : TokenStream) : Bool :=
  match s.tokens with
  | first :: second :: rest =>
    first.isDelimiter "(" &&
      (second.isDelimiter ")" || second.kind == .identifier &&
        match rest with
        | [] => false
        | third :: _ => third.isDelimiter ":")
  | _ => false

/-- Whether a comma stands outside all parentheses before the statement ends. -/
def hasComma : Nat → List Token → Bool
  | _, [] => false
  | depth, t :: rest =>
    if t.endsStatement then false
    else if t.isDelimiter "(" then hasComma (depth + 1) rest
    else if t.isDelimiter ")" then hasComma (depth - 1) rest
    else if t.isDelimiter "," && depth == 0 then true
    else hasComma depth rest

/--
From the word that begins a loop: the loop has three parts if a comma follows at once, or if a
declaration follows and a comma divides the line.
-/
def startsThreePartLoop (s : TokenStream) : Bool :=
  let s := s.advance
  s.current.isDelimiter "," || s.startsDeclaration && hasComma 0 s.tokens

end TokenStream

end Offside
