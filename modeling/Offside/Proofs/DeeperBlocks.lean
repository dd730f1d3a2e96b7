import Offside.Proofs.FirstFault

/-!
# Blocks further to the right

A block that is moved to the right as a whole reads the same: of the levels of its lines nothing counts but how far
they are from each other and from the level of the parser.
-/

namespace Offside

set_option autoImplicit false

/-- The same token on a line that begins `k` levels further to the right. -/
def Token.deeper (k : Nat) (t : Token) : Token := { t with level := t.level + k }

def TokenStream.deeper (k : Nat) (s : TokenStream) : TokenStream :=
  ⟨s.position, s.current.deeper k, s.rest.map (Token.deeper k)⟩

def Parser.deeper (k : Nat) (p : Parser) : Parser :=
  { p with stream := p.stream.deeper k, level := p.level + k }

/-- Both runs have the same result and leave the same frames open, or they fail in the same way. -/
inductive EndsAlike {α : Type} :
    EStateM.Result Diagnostic Parser α → EStateM.Result Diagnostic Parser α → Prop where
  | ok {a : α} {p q : Parser} : p.symbols = q.symbols → EndsAlike (.ok a p) (.ok a q)
  | error {d : Diagnostic} {p q : Parser} : EndsAlike (.error d p) (.error d q)

/-- The second text has its lines further to the right, and does not go on. -/
def deepened (k : Nat) : Variation := { continued with deeper := k, goesOn := False }

variable {k : Nat} {p q : Parser}

theorem deepened_pair (k : Nat) (t : Token) : (deepened k).Pair t (t.deeper k) :=
  ⟨rfl, rfl, rfl, fun _ => rfl, fun _ => rfl, rfl, fun _ => rfl⟩

theorem deepened_pairs (k : Nat) (ts : List Token) :
    List.Forall₂ (deepened k).Pair ts (ts.map (Token.deeper k)) := by
  rw [List.forall₂_map_right_iff]
  exact List.forall₂_same.mpr fun t _ => deepened_pair k t

theorem deepened_front (hlevel : q.level = p.level + k) (hsymbols : q.symbols = p.symbols)
    (hkeywords : q.keywords = p.keywords) (hnext : q.nextFunction = p.nextFunction)
    (hshares : (deepened k).Shares p.stream.tokens q.stream.tokens) : (deepened k).Front p q where
  level := hlevel
  symbols := hsymbols ▸ SymbolTable.Like.refl _
  keywords := hkeywords
  next := hnext
  shares := hshares
  source := False.elim

theorem endsAlike_block (h : (deepened k).Front p q) (level : Nat) :
    EndsAlike (Parse.block level p) (Parse.block (level + k) q) := by
  have hblock : (deepened k).Across (Scope.Like Eq) (Parse.block level p) (Parse.block (level + k) q) := h.block
  generalize Parse.block level p = r at hblock
  generalize Parse.block (level + k) q = r' at hblock
  cases hblock with
  | ok h =>
    obtain ⟨hs, hfront⟩ := h
    cases Scope.eq_of_like hs
    exact .ok hfront.symbols.eq_of_like
  | error hd =>
    obtain ⟨rfl⟩ := hd
    exact .error
  | missing hgoes => exact hgoes.elim
  | ended hgoes => exact hgoes.elim

/--
A block reads the same `k` levels further to the right, if the parser is as far to the right as well: wherever the
parser is in its tokens, and for any tokens that it is given, behind which it may have put an end itself.
-/
theorem block_deeper (k level : Nat) (p : Parser) :
    EndsAlike (Parse.block level p) (Parse.block (level + k) (p.deeper k)) ∧
    ∀ tokens : List Token,
      EndsAlike (Parse.block level { p with stream := .ofTokens tokens })
        (Parse.block (level + k)
          { p with stream := .ofTokens (tokens.map (Token.deeper k)), level := p.level + k }) := by
  constructor
  · have hshares : (deepened k).Shares p.stream.tokens (p.deeper k).stream.tokens :=
      .of_pairs (deepened_pairs k p.stream.tokens)
    have hfront : (deepened k).Front p (p.deeper k) := deepened_front rfl rfl rfl rfl hshares
    exact endsAlike_block hfront level
  · intro tokens
    have hshares := Variation.Shares.ofTokens_of_pairs rfl (deepened_pairs k tokens)
    have hfront : (deepened k).Front { p with stream := .ofTokens tokens }
        { p with stream := .ofTokens (tokens.map (Token.deeper k)), level := p.level + k } :=
      deepened_front rfl rfl rfl rfl hshares
    exact endsAlike_block hfront level

end Offside
