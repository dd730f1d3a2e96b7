import Offside.Expression

/-!
# Phrases

How the tokens of an expression hang together, parentheses included. The grammar alone allows several
phrases for the same tokens; the one that is meant keeps to the precedence of the operators and, among
operators of the same precedence, to their associativity.
-/

namespace Offside

set_option autoImplicit false

namespace Operator

def standsBefore : Operator → Bool
  | unaryPlus | unaryMinus | logicalNegation | preIncrement | preDecrement => true
  | _ => false

def standsBehind : Operator → Bool
  | postIncrement | postDecrement => true
  | _ => false

def standsBetween (o : Operator) : Bool := o.group != .unary && o.group != .delimiter

/-- `c` may be the root of the left operand of `o`. -/
def TakesLeft (o c : Operator) : Prop :=
  match o.associativity with
  | .leftToRight => o.precedence ≤ c.precedence
  | .rightToLeft => o.precedence < c.precedence

/-- `c` may be the root of the right operand of `o`, or of the only one that `o` stands in front of. -/
def TakesRight (o c : Operator) : Prop :=
  match o.associativity with
  | .leftToRight => o.precedence < c.precedence
  | .rightToLeft => o.precedence ≤ c.precedence

/-- The operator of a symbol that stands before its operand, or the one that does not. -/
def reading (before : Bool) (symbol : String) : Option Operator :=
  table.find? fun o => o.standsBefore == before && o.symbol == symbol

theorem reading_symbol (o : Operator) : reading o.standsBefore o.symbol = some o := by
  cases o <;> rfl

theorem eq_of_symbol {o c : Operator} (hs : o.symbol = c.symbol)
    (hb : o.standsBefore = c.standsBefore) : o = c := by
  have ho := reading_symbol o
  rw [hs, hb, reading_symbol c] at ho
  exact (Option.some.inj ho).symm

theorem not_standsBefore_of_standsBehind {o : Operator} (h : o.standsBehind) :
    o.standsBefore = false := by
  cases o <;> first | rfl | cases h

theorem not_standsBefore_of_standsBetween {o : Operator} (h : o.standsBetween) :
    o.standsBefore = false := by
  cases o <;> first | rfl | cases h

theorem not_standsBetween_of_standsBehind {o : Operator} (h : o.standsBehind) :
    ¬ o.standsBetween := by
  intro hb
  cases o <;> cases h <;> cases hb

theorem associativity_eq (o : Operator) :
    o.associativity =
      if o.precedence = 1 ∨ 13 ≤ o.precedence then .rightToLeft else .leftToRight := by
  cases o <;> rfl

theorem precedence_standsBefore {o : Operator} (h : o.standsBefore) : o.precedence = 13 := by
  cases o <;> simp_all [standsBefore, precedence]

theorem precedence_standsBehind {o : Operator} (h : o.standsBehind) : o.precedence = 14 := by
  cases o <;> simp_all [standsBehind, precedence]

theorem precedence_standsBetween {o : Operator} (h : o.standsBetween) :
    1 ≤ o.precedence ∧ o.precedence ≤ 13 := by
  cases o <;> simp_all [standsBetween, precedence, group]

theorem takesLeft_iff (o c : Operator) : o.TakesLeft c ↔ Expression.bindsBefore o c = true := by
  unfold TakesLeft Expression.bindsBefore
  cases o.associativity <;> simp

/-- Operators of one precedence have one associativity, so what the waiting operator takes as its right
operand is what the incoming one leaves to it. -/
theorem takesRight_iff (o c : Operator) : o.TakesRight c ↔ Expression.bindsBefore c o = false := by
  unfold TakesRight Expression.bindsBefore
  rw [associativity_eq o, associativity_eq c]
  by_cases ho : o.precedence = 1 ∨ 13 ≤ o.precedence <;>
    by_cases hc : c.precedence = 1 ∨ 13 ≤ c.precedence <;> simp [ho, hc] <;> omega

theorem TakesRight.trans_takesLeft {w o c : Operator} (hw : w.TakesRight o) (hc : o.TakesLeft c) :
    w.TakesRight c := by
  unfold TakesRight TakesLeft at *
  cases hwa : w.associativity <;> cases hoa : o.associativity <;>
    simp only [hwa, hoa] at hw hc ⊢ <;> omega

end Operator

/-- The node that a token is as an operand: a literal, or a name that stands for a variable or a function. -/
inductive IsOperand (symbols : SymbolTable) (t : Token) : Node → Prop where
  | literal {l : Literal} : t.kind = .literal → Literal.ofToken t = .ok l →
      IsOperand symbols t (.literal l)
  | var {v : Variable} : t.kind = .identifier → symbols.lookup? t.text = some (.var v) →
      IsOperand symbols t (.var v)
  | reference {f : Function} : t.kind = .identifier →
      symbols.lookup? t.text = some (.function f) → IsOperand symbols t (.reference f)

/-- Only a variable that is not constant can be assigned to. -/
def CanAssign (o : Operator) (left : Node) : Prop :=
  o.group = .assignment → ∃ v, left = .var v ∧ v.isConstant = false

inductive Phrase where
  | operand (t : Token) (n : Node)
  | enclosed (opening : Token) (inner : Phrase) (closing : Token)
  | before (t : Token) (o : Operator) (inner : Phrase)
  | behind (name : Token) (v : Variable) (t : Token) (o : Operator)
  | between (left : Phrase) (t : Token) (o : Operator) (right : Phrase)

namespace Phrase

def tokens : Phrase → List Token
  | operand t _ => [t]
  | enclosed opening inner closing => opening :: inner.tokens ++ [closing]
  | before t _ inner => t :: inner.tokens
  | behind name _ t _ => [name, t]
  | between left t _ right => left.tokens ++ t :: right.tokens

/-- The tree of the phrase; parentheses leave no trace in it. -/
def node : Phrase → Node
  | operand _ n => n
  | enclosed _ inner _ => inner.node
  | before t o inner => .unary o inner.node t.location
  | behind _ v t o => .unary o (.var v) t.location
  | between left t o right => .binary o left.node right.node t.location

/-- The operator at the root, unless parentheses enclose it. -/
def root? : Phrase → Option Operator
  | operand _ _ | enclosed _ _ _ => none
  | before _ o _ | behind _ _ _ o | between _ _ o _ => some o

/-- The grammar of expressions. Each symbol is read as one of the operators that have it. -/
inductive Grammatical (symbols : SymbolTable) : Phrase → Prop where
  | operand {t : Token} {n : Node} : IsOperand symbols t n → Grammatical symbols (operand t n)
  | enclosed {a b : Token} {p : Phrase} : a.isDelimiter "(" → Grammatical symbols p →
      b.isDelimiter ")" → Grammatical symbols (enclosed a p b)
  | before {t : Token} {o : Operator} {p : Phrase} : t.isOperator o.symbol → o.standsBefore →
      Grammatical symbols p → Grammatical symbols (before t o p)
  | behind {name t : Token} {v : Variable} {o : Operator} : IsOperand symbols name (.var v) →
      t.isOperator o.symbol → o.standsBehind → Grammatical symbols (behind name v t o)
  | between {l r : Phrase} {t : Token} {o : Operator} : Grammatical symbols l →
      t.isOperator o.symbol → o.standsBetween → Grammatical symbols r →
      Grammatical symbols (between l t o r)

/-- Every operand that is not enclosed binds as tight as its operator asks for. -/
def Bound : Phrase → Prop
  | operand _ _ | behind _ _ _ _ => True
  | enclosed _ inner _ => inner.Bound
  | before _ o inner => (∀ c ∈ inner.root?, o.TakesRight c) ∧ inner.Bound
  | between left _ o right =>
    (∀ c ∈ left.root?, o.TakesLeft c) ∧ (∀ c ∈ right.root?, o.TakesRight c) ∧
      left.Bound ∧ right.Bound

/-- Every assignment in the phrase has a variable on its left that is not constant. -/
def AssignsVariables : Phrase → Prop
  | operand _ _ | behind _ _ _ _ => True
  | enclosed _ inner _ | before _ _ inner => inner.AssignsVariables
  | between left _ o right =>
    CanAssign o left.node ∧ left.AssignsVariables ∧ right.AssignsVariables

theorem Grammatical.one_le_root {symbols : SymbolTable} {p : Phrase} (h : p.Grammatical symbols) :
    ∀ c ∈ p.root?, 1 ≤ c.precedence := by
  cases h with
  | operand | enclosed => rintro c ⟨⟩
  | before _ ho _ =>
    rintro c ⟨⟩
    simp [Operator.precedence_standsBefore ho]
  | behind _ _ ho =>
    rintro c ⟨⟩
    simp [Operator.precedence_standsBehind ho]
  | between _ _ ho _ =>
    rintro c ⟨⟩
    exact (Operator.precedence_standsBetween ho).1

end Phrase

theorem Token.kind_of_isDelimiter {t : Token} {a : String} (h : t.isDelimiter a) :
    t.kind = .delimiter := by
  simp_all [isDelimiter, is]

theorem Token.kind_of_isOperator {t : Token} {a : String} (h : t.isOperator a) :
    t.kind = .operator := by
  simp_all [isOperator, is]

theorem Token.not_isOperator_of_isDelimiter {t : Token} {a : String} (h : t.isDelimiter a)
    (b : String) : ¬ t.isOperator b := by
  simp_all [isDelimiter, isOperator, is]

theorem Token.isDelimiter_inj {t : Token} {a b : String} (ha : t.isDelimiter a)
    (hb : t.isDelimiter b) : a = b := by
  simp only [isDelimiter, is, Bool.and_eq_true, beq_iff_eq] at ha hb
  exact ha.2.symm.trans hb.2

theorem Token.not_isDelimiter_of_kind {t : Token} {a : String} (h : t.kind ≠ .delimiter) :
    ¬ t.isDelimiter a := by
  simp [isDelimiter, is, h]

theorem Token.not_isDelimiter_of_isOperator {t : Token} {a : String} (h : t.isOperator a)
    (b : String) : ¬ t.isDelimiter b :=
  fun hb => not_isOperator_of_isDelimiter hb a h

theorem Token.text_of_isOperator {t : Token} {a : String} (h : t.isOperator a) : t.text = a := by
  simp_all [isOperator, is]

/-- No parenthesis is written as an operator. -/
def PlainOperator (t : Token) : Prop := ¬ t.isOperator "(" ∧ ¬ t.isOperator ")"

theorem Operator.eq_of_token {t : Token} {o c : Operator} (ho : t.isOperator o.symbol)
    (hc : t.isOperator c.symbol) (hb : o.standsBefore = c.standsBefore) : o = c :=
  eq_of_symbol ((Token.text_of_isOperator ho).symm.trans (Token.text_of_isOperator hc)) hb

theorem IsOperand.not_delimiter {symbols : SymbolTable} {t : Token} {n : Node}
    (h : IsOperand symbols t n) (a : String) : ¬ t.isDelimiter a := by
  cases h <;> simp_all [Token.isDelimiter, Token.is]

theorem IsOperand.not_operator {symbols : SymbolTable} {t : Token} {n : Node}
    (h : IsOperand symbols t n) (a : String) : ¬ t.isOperator a := by
  cases h <;> simp_all [Token.isOperator, Token.is]

theorem IsOperand.unique {symbols : SymbolTable} {t : Token} {m n : Node}
    (hm : IsOperand symbols t m) (hn : IsOperand symbols t n) : m = n := by
  cases hm <;> cases hn <;> simp_all

/-- Each `++` and `--` stands right behind a variable or else right in front of one; `after` says whether a
variable stands in front of the tokens. -/
def StepsFit (symbols : SymbolTable) : Bool → List Token → Prop
  | _, [] => True
  | after, t :: rest =>
    (t.isOperator "++" ∨ t.isOperator "--" →
      after ∨ ∃ next ∈ rest.head?, Expression.isVariable symbols next) ∧
    StepsFit symbols (Expression.isVariable symbols t) rest

/-- The tokens of the expression at the start of `tokens`, of which `depth` parentheses are open. -/
def extent : Nat → List Token → List Token
  | _, [] => []
  | depth, t :: rest =>
    if t.endsStatement || t.isDelimiter "," then []
    else if t.isDelimiter "(" then t :: extent (depth + 1) rest
    else if t.isDelimiter ")" then if depth = 0 then [] else t :: extent (depth - 1) rest
    else t :: extent depth rest

end Offside
