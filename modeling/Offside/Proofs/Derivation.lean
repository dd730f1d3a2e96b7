import Offside.Block
import Offside.Proofs.TokenLines

/-!
# What the lines of a source text say

The language as a relation between the tokens ahead, the names that are declared, and the tree. It has no
stacks and no bound on its depth, and a line is taken as a whole: its words, and the end of the statement
behind them.
-/

namespace Offside

set_option autoImplicit false

/-- `ts` are the tokens of an expression, and `n` is its folded tree. -/
def Expressed (symbols : SymbolTable) (ts : List Token) (n : Node) : Prop :=
  ∃ q : Phrase, q.Grammatical symbols ∧ q.Bound ∧ q.tokens = ts ∧ StepsFit symbols false ts ∧
    q.AssignsVariables ∧ q.node.fold = .ok n

/-- The nodes that an expression is made of. -/
inductive Node.IsExpression : Node → Prop where
  | literal (l : Literal) : IsExpression (.literal l)
  | var (v : Variable) : IsExpression (.var v)
  | reference (f : Function) : IsExpression (.reference f)
  | unary {o : Operator} {n : Node} {location : Location} : IsExpression n →
      IsExpression (.unary o n location)
  | binary {o : Operator} {l r : Node} {location : Location} : IsExpression l → IsExpression r →
      IsExpression (.binary o l r location)

theorem Phrase.Grammatical.isExpression {symbols : SymbolTable} {q : Phrase}
    (h : q.Grammatical symbols) : q.node.IsExpression := by
  induction h with
  | operand hn =>
    cases hn with
    | literal => exact .literal _
    | var => exact .var _
    | reference => exact .reference _
  | enclosed _ _ _ ih => exact ih
  | before _ _ _ ih => exact .unary ih
  | behind => exact .unary (.var _)
  | between _ _ _ _ ihl ihr => exact .binary ihl ihr

theorem Node.fold_eq_ok {n m : Node} (h : n.fold = .ok m) :
    m = n ∨ ∃ l, n.value? = .ok (some l) ∧ m = .literal l := by
  unfold fold at h
  cases hv : n.value? with
  | error d => simp [hv, bind, Except.bind] at h
  | ok o =>
    cases o with
    | none =>
      simp only [hv, bind, Except.bind, pure, Except.pure, Except.ok.injEq] at h
      exact .inl h.symm
    | some l =>
      simp only [hv, bind, Except.bind, pure, Except.pure, Except.ok.injEq] at h
      exact .inr ⟨l, rfl, h.symm⟩

theorem Expressed.isExpression {symbols : SymbolTable} {ts : List Token} {n : Node}
    (h : Expressed symbols ts n) : n.IsExpression := by
  obtain ⟨q, hq, -, -, -, -, hfold⟩ := h
  rcases Node.fold_eq_ok hfold with rfl | ⟨l, -, rfl⟩
  · exact hq.isExpression
  · exact .literal l

/-- `identifier :` begins a declaration. -/
def IsDeclaration (line : List Token) : Prop :=
  ∃ name colon rest, line = name :: colon :: rest ∧ name.kind = .identifier ∧ colon.isDelimiter ":"

namespace Rules

/-! ## The parts of a line -/

inductive Head : List Token → DeclarationHead → Prop where
  | auto {name colon : Token} : name.kind = .identifier → colon.isDelimiter ":" →
      Head [name, colon] ⟨name, .auto, name.location⟩
  | typed {name colon t : Token} {type : DataType} : name.kind = .identifier →
      colon.isDelimiter ":" → t.kind = .identifier → Parse.typeOfName t = .ok type →
      Head [name, colon, t] ⟨name, type, t.location⟩

/-- What `=` and `:` in front of a value make of the name. -/
inductive Separates (d : Declared) : Token → Declared → Prop where
  | equals {t : Token} : t.isOperator "=" → Separates d t .variable
  | colon {t : Token} : t.isDelimiter ":" → Separates d t d

/-- A declaration of anything but a function. -/
inductive Declares (symbols : SymbolTable) (d : Declared) :
    List Token → Node → Identifier → Prop where
  | value {ts us : List Token} {head : DeclarationHead} {t : Token} {declared : Declared}
      {value : Node} {type : DataType} : Head ts head → Separates d t declared →
      Expressed symbols us value → value.typeAs head.type head.typeLocation = .ok type →
      Declares symbols d (ts ++ t :: us)
        (.binary .assignment (declared.identifier head.name.text type head.name.location).toNode
          value head.name.location)
        (declared.identifier head.name.text type head.name.location)
  | bare {ts : List Token} {head : DeclarationHead} : Head ts head → head.type ≠ .auto →
      head.type ≠ .void →
      Declares symbols d ts
        (Declared.variable.identifier head.name.text head.type head.name.location).toNode
        (Declared.variable.identifier head.name.text head.type head.name.location)

/-- Parameters, each of which sees those in front of it. -/
inductive Parameters : SymbolTable → List Token → List Node → SymbolTable → Prop where
  | last {symbols symbols' : SymbolTable} {ts : List Token} {n : Node} {i : Identifier} :
      Declares symbols .constantVariable ts n i → symbols.declare? i = some symbols' →
      Parameters symbols ts [n] symbols'
  | more {symbols symbols₁ symbols' : SymbolTable} {ts us : List Token} {n : Node} {ns : List Node}
      {i : Identifier} {comma : Token} : Declares symbols .constantVariable ts n i →
      symbols.declare? i = some symbols₁ → comma.isDelimiter "," →
      Parameters symbols₁ us ns symbols' → Parameters symbols (ts ++ comma :: us) (n :: ns) symbols'

inductive ParameterList (symbols : SymbolTable) :
    List Token → List Node → SymbolTable → Prop where
  | none : ParameterList symbols [] [] symbols
  | some {ts : List Token} {ns : List Node} {symbols' : SymbolTable} :
      Parameters symbols ts ns symbols' → ParameterList symbols ts ns symbols'

inductive ResultType (declared : DataType) : List Token → DataType → Prop where
  | written {arrow t : Token} {type : DataType} : arrow.isOperator "->" → t.kind = .identifier →
      Parse.typeOfName t = .ok type → type ≠ .auto → ResultType declared [arrow, t] type
  | implied : ResultType declared [] (if declared = .auto then .void else declared)

/-- The line of a function; `inner` has the frame of its parameters on top. -/
inductive Signature (symbols : SymbolTable) :
    List Token → DeclarationHead → List Node → DataType → SymbolTable → Prop where
  | mk {ts ps rs : List Token} {colon opening closing : Token} {head : DeclarationHead}
      {ns : List Node} {returns : DataType} {inner : SymbolTable} : Head ts head →
      colon.isDelimiter ":" → opening.isDelimiter "(" →
      ParameterList symbols.openFrame ps ns inner → closing.isDelimiter ")" →
      ResultType head.type rs returns →
      Signature symbols (ts ++ colon :: opening :: ps ++ closing :: rs) head ns returns inner

inductive OptionalExpression (symbols : SymbolTable) (allowed : DataType → Prop) :
    List Token → Option Node → Prop where
  | none : OptionalExpression symbols allowed [] none
  | some {ts : List Token} {n : Node} {type : DataType} : Expressed symbols ts n →
      n.type? = .ok type → allowed type → OptionalExpression symbols allowed ts (some n)

inductive LoopInit (symbols : SymbolTable) :
    List Token → Option Node → SymbolTable → Prop where
  | none : LoopInit symbols [] none symbols
  | some {ts : List Token} {n : Node} {i : Identifier} {symbols' : SymbolTable} :
      Declares symbols .constant ts n i → Parse.initializesVariable n →
      symbols.declare? i = some symbols' → LoopInit symbols ts (some n) symbols'

inductive ThreeParts (symbols : SymbolTable) :
    List Token → Option Node → Option Node → Option Node → SymbolTable → Prop where
  | mk {ts us vs : List Token} {comma comma' : Token} {init test increment : Option Node}
      {inner : SymbolTable} : LoopInit symbols ts init inner → comma.isDelimiter "," →
      OptionalExpression inner (· = .boolean) us test → comma'.isDelimiter "," →
      OptionalExpression inner (fun _ => True) vs increment →
      ThreeParts symbols (ts ++ comma :: us ++ comma' :: vs) init test increment inner

inductive LoopName (keyword : Token) : List Token → String → Location → Prop where
  | implicit : LoopName keyword [] implicitLoopVariable keyword.location
  | written {name colon : Token} : name.kind = .identifier → colon.isDelimiter ":" →
      LoopName keyword [name, colon] name.text name.location

inductive Range (symbols : SymbolTable) (keyword : Token) :
    List Token → Identifier → Node → Location → Prop where
  | mk {ts us : List Token} {name : String} {location : Location} {range : Node}
      {type : DataType} : LoopName keyword ts name location → Expressed symbols us range →
      range.type? = .ok type →
      Range symbols keyword (ts ++ us) (Declared.variable.identifier name type location) range
        location

/-! ## Lines and blocks -/

/-- The tokens ahead, the names that are declared, and the identity of the next function. -/
structure State where
  tokens : List Token
  symbols : SymbolTable
  next : FunctionId

inductive Product where
  | statement (n : Node)
  /-- The lines of a block to its end; `hasStatement` says that one is in front of them. -/
  | lines (hasStatement : Bool) (ns : List Node)
  /-- A block whose frame is open. -/
  | block (s : Scope)
  /-- The block of a construct, which is one level deeper. -/
  | body (s : Scope)

theorem Head.first {ts : List Token} {head : DeclarationHead} (h : Head ts head) :
    ∃ more, ts = head.name :: more ∧ head.name.kind = .identifier := by
  cases h with
  | auto hk => exact ⟨_, rfl, hk⟩
  | typed hk => exact ⟨_, rfl, hk⟩

end Rules

open Rules

/-- How a construct at a level is read from one state to another. -/
inductive Derives : Nat → State → Product → State → Prop where
  | expression {level : Nat} {tokens line rest : List Token} {symbols : SymbolTable}
      {next : FunctionId} {n : Node} {type : DataType} : TakesLine tokens line rest →
      ¬ IsDeclaration line → (∀ t ∈ line.head?, t.keyword = none) → Expressed symbols line n →
      n.type? = .ok type →
      Derives level ⟨tokens, symbols, next⟩ (.statement n) ⟨rest, symbols, next⟩
  | declaration {level : Nat} {tokens line rest : List Token} {symbols symbols' : SymbolTable}
      {next : FunctionId} {n : Node} {i : Identifier} : TakesLine tokens line rest →
      Declares symbols .constant line n i → symbols.declare? i = some symbols' →
      Derives level ⟨tokens, symbols, next⟩ (.statement n) ⟨rest, symbols', next⟩
  | function {level : Nat} {tokens line rest : List Token} {symbols inner symbols' : SymbolTable}
      {next : FunctionId} {head : DeclarationHead} {ns : List Node} {returns : DataType}
      {s : Scope} {after : State} : TakesLine tokens line rest →
      Signature symbols line head ns returns inner →
      inner.close.2.declare? (.function ⟨next, head.name.text, returns, head.name.location⟩) =
        some symbols' →
      Derives level ⟨rest, symbols'.reopen (inner.close.1.getD []), next + 1⟩ (.body s) after →
      Derives level ⟨tokens, symbols, next⟩
        (.statement (.function ⟨next, head.name.text, returns, head.name.location⟩ ns (some s)))
        after
  | branch {level : Nat} {tokens line rest : List Token} {symbols : SymbolTable}
      {next : FunctionId} {keyword : Token} {test : Node} {s : Scope} {after : State} :
      TakesLine tokens (keyword :: line) rest → keyword.isKeyword .ifThen →
      Expressed symbols line test → test.type? = .ok .boolean →
      Derives level ⟨rest, symbols.openFrame, next⟩ (.body s) after →
      (∀ t ∈ after.tokens.head?, ¬ (t.isKeyword .orElse ∧ t.level = level)) →
      Derives level ⟨tokens, symbols, next⟩ (.statement (.branch test s none keyword.location)) after
  | alternative {level : Nat} {tokens line rest tokens₁ rest₁ : List Token}
      {symbols symbols₁ : SymbolTable} {next next₁ : FunctionId} {keyword orElse : Token}
      {test : Node} {s s' : Scope} {after : State} :
      TakesLine tokens (keyword :: line) rest → keyword.isKeyword .ifThen →
      Expressed symbols line test → test.type? = .ok .boolean →
      Derives level ⟨rest, symbols.openFrame, next⟩ (.body s) ⟨tokens₁, symbols₁, next₁⟩ →
      TakesLine tokens₁ [orElse] rest₁ → orElse.isKeyword .orElse → orElse.level = level →
      Derives level ⟨rest₁, symbols₁.openFrame, next₁⟩ (.body s') after →
      Derives level ⟨tokens, symbols, next⟩
        (.statement (.branch test s (some s') keyword.location)) after
  | whileLoop {level : Nat} {tokens line rest : List Token} {symbols : SymbolTable}
      {next : FunctionId} {keyword : Token} {test : Node} {s : Scope} {after : State} :
      TakesLine tokens (keyword :: line) rest → keyword.isKeyword .whileLoop →
      Expressed symbols line test → test.type? = .ok .boolean →
      Derives level ⟨rest, symbols.openFrame, next⟩ (.body s) after →
      Derives level ⟨tokens, symbols, next⟩ (.statement (.whileLoop test s keyword.location)) after
  | threePartLoop {level : Nat} {tokens line rest : List Token} {symbols inner : SymbolTable}
      {next : FunctionId} {keyword : Token} {init test increment : Option Node} {s : Scope}
      {after : State} : TakesLine tokens (keyword :: line) rest → keyword.isKeyword .forLoop →
      ThreeParts symbols.openFrame line init test increment inner →
      Derives level ⟨rest, inner, next⟩ (.body s) after →
      Derives level ⟨tokens, symbols, next⟩
        (.statement (.forLoop init test increment s keyword.location)) after
  | rangeLoop {level : Nat} {tokens line rest : List Token} {symbols inner : SymbolTable}
      {next : FunctionId} {keyword : Token} {i : Identifier} {range : Node} {location : Location}
      {s : Scope} {after : State} : TakesLine tokens (keyword :: line) rest →
      keyword.isKeyword .forLoop → Range symbols keyword line i range location →
      symbols.openFrame.declare? i = some inner →
      Derives level ⟨rest, inner, next⟩ (.body s) after →
      Derives level ⟨tokens, symbols, next⟩
        (.statement (.rangeLoop (.binary .assignment i.toNode range location) s keyword.location))
        after
  | stop {level : Nat} {t : Token} {tokens : List Token} {symbols : SymbolTable}
      {next : FunctionId} {hasStatement : Bool} :
      t.kind = .endOfFile ∨ Parse.LinePlace.of level hasStatement t.level = .outside →
      Derives level ⟨t :: tokens, symbols, next⟩ (.lines hasStatement [])
        ⟨t :: tokens, symbols, next⟩
  | here {level : Nat} {t : Token} {tokens : List Token} {symbols : SymbolTable}
      {next : FunctionId} {hasStatement : Bool} {n : Node} {ns : List Node} {between after : State} :
      t.kind ≠ .endOfFile → t.level = level →
      Derives level ⟨t :: tokens, symbols, next⟩ (.statement n) between →
      Derives level between (.lines true ns) after →
      Derives level ⟨t :: tokens, symbols, next⟩ (.lines hasStatement (n :: ns)) after
  | deeper {level : Nat} {t : Token} {tokens : List Token} {symbols : SymbolTable}
      {next : FunctionId} {s : Scope} {ns : List Node} {between after : State} :
      t.kind ≠ .endOfFile → t.level = level + 1 →
      Derives (level + 1) ⟨t :: tokens, symbols.openFrame, next⟩ (.block s) between →
      Derives level between (.lines true ns) after →
      Derives level ⟨t :: tokens, symbols, next⟩ (.lines true (.scope s :: ns)) after
  | block {level : Nat} {before : State} {ns : List Node} {tokens : List Token}
      {symbols : SymbolTable} {next : FunctionId} :
      Derives level before (.lines false ns) ⟨tokens, symbols, next⟩ →
      Derives level before (.block ⟨ns, symbols.close.1.getD []⟩) ⟨tokens, symbols.close.2, next⟩
  | body {level : Nat} {t : Token} {tokens : List Token} {symbols : SymbolTable}
      {next : FunctionId} {s : Scope} {after : State} : t.kind ≠ .endOfFile → level < t.level →
      Derives (level + 1) ⟨t :: tokens, symbols, next⟩ (.block s) after →
      Derives level ⟨t :: tokens, symbols, next⟩ (.body s) after

end Offside
