import Mathlib.Logic.ExistsUnique
import Offside.Proofs.ExpressionRun
import Offside.Proofs.TokenLines

/-!
# The grammar of expressions

At any place in a source text, the parser builds a tree just where the grammar allows the tokens of the
expression, and the tree is that of the one phrase that keeps to precedence and associativity.
-/

namespace Offside

set_option autoImplicit false

theorem Lined.endsAhead {line : Option Nat} {ts : List Token} {s : TokenStream}
    (h : Lined line ts) (hs : s.tokens <:+ ts) : s.EndsAhead := by
  obtain ⟨before, rfl⟩ := hs
  obtain ⟨t, ht, hk⟩ := h.getLast?_endOfFile
  refine ⟨t, ?_, hk⟩
  rw [List.getLast?_append, TokenStream.tokens, List.getLast?_cons, Option.some_or] at ht
  exact List.mem_of_getLast? (by rw [TokenStream.tokens, List.getLast?_cons, ht])

namespace Parse

open Draft

/-- The tokens of a source text at any place of it: if the grammar allows those of the expression, one of
their phrases keeps to precedence and associativity. The parser builds a tree just where `++` and `--`
stand beside variables and this phrase assigns to variables only, and then it is the tree of this phrase,
which is folded. -/
theorem expression_grammar {source file : String} {tokens : List Token} {p : Parser}
    (ht : tokenize source file = .ok tokens) (hp : p.stream.tokens <:+ tokens) :
    let S := extent 0 p.stream.tokens
    let Meant := fun q : Phrase => q.Grammatical p.symbols ∧ q.Bound ∧ q.tokens = S
    let p' : Parser :=
      { p with stream := TokenStream.advance^[S.length] p.stream, operands := [], operators := [] }
    ((∃ q : Phrase, q.Grammatical p.symbols ∧ q.tokens = S) → ∃! q, Meant q) ∧
      ((∃ n p', expressionTree p = .ok n p') ↔
        (∃ q : Phrase, q.Grammatical p.symbols ∧ q.tokens = S) ∧ StepsFit p.symbols false S ∧
          ∀ q, Meant q → q.AssignsVariables) ∧
      ∀ q, Meant q → StepsFit p.symbols false S → q.AssignsVariables →
        expressionTree p = .ok q.node p' ∧ expression p = liftExcept q.node.fold p' := by
  intro S Meant p'
  have hlined := lined_tokenize ht
  have hplain : ∀ t ∈ p.stream.tokens, PlainOperator t :=
    fun t h => hlined.plainOperator t (hp.subset h)
  have htree := fun n p' => @expressionTree_eq_ok p p' n (hlined.endsAhead hp) hplain
  have hmeant : ∀ q, Meant q ↔ Parses p.symbols S q := fun q => parses_iff.symm
  have hunique : ∀ q r, Meant q → Meant r → q = r := by
    intro q r hq hr
    exact ((hmeant q).mp hq).unique ((hmeant r).mp hr)
  have hexists : (∃ q : Phrase, q.Grammatical p.symbols ∧ q.tokens = S) → ∃ q, Meant q := by
    rintro ⟨q, hq, hqs⟩
    obtain ⟨r, hr⟩ := exists_parses hq
    exact ⟨r, (hmeant r).mpr (hqs ▸ hr)⟩
  refine ⟨fun h => ?_, ?_, ?_⟩
  · obtain ⟨q, hq⟩ := hexists h
    exact ⟨q, hq, fun r hr => hunique r q hr hq⟩
  · constructor
    · rintro ⟨n, p₁, h⟩
      obtain ⟨q, hq, hfit, ha, _⟩ := (htree n p₁).mp h
      have hq' := (hmeant q).mpr hq
      refine ⟨⟨q, hq'.1, hq'.2.2⟩, hfit, fun r hr => ?_⟩
      cases hunique r q hr hq'
      exact ha
    · rintro ⟨hderives, hfit, ha⟩
      obtain ⟨q, hq⟩ := hexists hderives
      exact ⟨_, _, (htree _ _).mpr ⟨q, (hmeant q).mp hq, hfit, ha q hq, rfl, rfl⟩⟩
  · intro q hq hfit ha
    have h : expressionTree p = .ok q.node p' :=
      (htree _ _).mpr ⟨q, (hmeant q).mp hq, hfit, ha, rfl, rfl⟩
    refine ⟨h, ?_⟩
    unfold expression
    rw [Execution.bind_apply, h]

/-- Subtraction takes its operands from left to right. -/
theorem expression_grammar_sub :
    ∃ (tokens : List Token) (a b c : Literal) (l m : Location) (p' : Parser),
      tokenize "1 - 2 - 3" "" = .ok tokens ∧
      expressionTree (.ofTokens tokens []) =
        .ok (.binary .sub (.binary .sub (.literal a) (.literal b) l) (.literal c) m) p' := by
  let digit (text : String) (column : Nat) : Token :=
    ⟨.literal, text, ⟨"", 1, column⟩, 0, some .int, none⟩
  let minus (column : Nat) : Token := .plain .operator "-" ⟨"", 1, column⟩ 0
  let tokens : List Token :=
    [digit "1" 1, minus 3, digit "2" 5, minus 7, digit "3" 9,
      .plain .endOfStatement "" ⟨"", 1, 10⟩ 0, .endAt ⟨"", 1, 10⟩]
  have ht : tokenize "1 - 2 - 3" "" = .ok tokens := by decide +kernel
  let p := Parser.ofTokens tokens []
  have hdigit : ∀ (text : String) (column : Nat) (n : Int32), Numeral.int32? text = some n →
      IsOperand p.symbols (digit text column) (.literal ⟨.int n, ⟨"", 1, column⟩⟩) := by
    intro text column n hn
    refine .literal rfl ?_
    simp [Literal.ofToken, digit, Value.read?, hn]
  let one : Phrase := .operand (digit "1" 1) (.literal ⟨.int 1, ⟨"", 1, 1⟩⟩)
  let two : Phrase := .operand (digit "2" 5) (.literal ⟨.int 2, ⟨"", 1, 5⟩⟩)
  let three : Phrase := .operand (digit "3" 9) (.literal ⟨.int 3, ⟨"", 1, 9⟩⟩)
  let q : Phrase := .between (.between one (minus 3) .sub two) (minus 7) .sub three
  have hg : q.Grammatical p.symbols :=
    .between (.between (.operand (hdigit _ _ _ (by decide +kernel))) rfl rfl
      (.operand (hdigit _ _ _ (by decide +kernel)))) rfl rfl
      (.operand (hdigit _ _ _ (by decide +kernel)))
  have hoperand : ∀ P : Operator → Prop, ∀ c ∈ none, P c :=
    fun _ c hc => absurd hc (Option.not_mem_none c)
  have hb : q.Bound := by
    refine ⟨?_, hoperand _, ⟨hoperand _, hoperand _, trivial, trivial⟩, trivial⟩
    intro c hc
    cases hc
    exact Nat.le_refl _
  have hs : q.tokens = extent 0 p.stream.tokens := by decide +kernel
  have hfit : StepsFit p.symbols false (extent 0 p.stream.tokens) := by
    rw [← hs]
    simp [q, one, two, three, Phrase.tokens, StepsFit, digit, minus, Token.isOperator, Token.is,
      Token.plain]
  have hgroup : Operator.sub.group ≠ .assignment := by decide
  have ha : q.AssignsVariables :=
    ⟨fun h => absurd h hgroup, ⟨fun h => absurd h hgroup, trivial, trivial⟩, trivial⟩
  have hp : p.stream.tokens <:+ tokens := List.suffix_refl tokens
  exact ⟨tokens, _, _, _, _, _, _, ht,
    ((expression_grammar ht hp).2.2 q ⟨hg, hb, hs⟩ hfit ha).1⟩

end Parse

end Offside
