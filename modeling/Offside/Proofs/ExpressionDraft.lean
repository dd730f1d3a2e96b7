import Offside.Proofs.Draft
import Offside.Proofs.ExpressionStep

/-!
# The stacks of an expression hold a draft

Each step of an expression takes its token into the draft, and a step fails just where the draft cannot
go on, where a variable is missing beside `++` or `--`, or where an assignment has no variable on its
left.
-/

namespace Offside

set_option autoImplicit false

open Expression

theorem checkTarget_eq_ok {top : PendingOperator} {left : Node} :
    checkTarget top left = .ok () ↔ CanAssign top.operator left := by
  unfold checkTarget CanAssign
  by_cases hg : top.operator.group = .assignment
  · cases left with
    | var v => cases hv : v.isConstant <;> simp [hg, hv]
    | _ => simp [hg]
  · simp [hg]

theorem isUnary_of_standsBefore {o : Operator} (h : o.standsBefore) : o.isUnary := by
  cases o <;> cases h <;> rfl

theorem isUnary_of_standsBehind {o : Operator} (h : o.standsBehind) : o.isUnary := by
  cases o <;> cases h <;> rfl

theorem not_isUnary_of_standsBetween {o : Operator} (h : o.standsBetween) : o.isUnary = false := by
  cases o <;> cases h <;> rfl

def Operator.named : Operator → Operator
  | unaryPlus => add
  | unaryMinus => sub
  | postIncrement => preIncrement
  | postDecrement => preDecrement
  | o => o

theorem Operator.ofSymbol?_symbol (o : Operator) : ofSymbol? o.symbol = some o.named := by
  cases o <;> rfl

/-- Which operator a symbol is: one behind a variable, one in front of an operand that is wanted, or one
behind an operand. -/
theorem resolve_eq_ok {t : Token} {c o : Operator} {wants after next : Bool}
    (hc : Operator.ofSymbol? t.text = some c) (hp : c.group ≠ .delimiter)
    (haw : after → wants = false) :
    resolve t c wants after next = .ok o ↔
      t.text = o.symbol ∧ (t.text = "++" ∨ t.text = "--" → after ∨ next) ∧
        (o.standsBehind ∧ after ∨ o.standsBefore ∧ wants ∨ o.standsBetween ∧ wants = false) := by
  constructor
  · intro h
    have ht := Operator.symbol_of_ofSymbol? hc
    rw [← ht] at hc ⊢
    cases c <;> cases wants <;> cases after <;> cases next <;> cases h <;>
      first
      | exact ⟨rfl, by decide, by decide⟩
      | exact absurd (haw rfl) (by decide)
      | exact absurd rfl hp
      | exact absurd hc (by decide)
  · rintro ⟨ho, hn, h⟩
    rw [ho] at hc hn
    cases (Operator.ofSymbol?_symbol o).symm.trans hc
    cases o <;> cases wants <;> cases after <;> cases next <;>
      first
      | rfl
      | exact absurd (haw rfl) (by decide)
      | exact absurd h (by decide)
      | exact absurd hn (by decide)
namespace Waiting

def pending : Waiting → PendingOperator
  | parenthesis t => ⟨.openParenthesis, t.location⟩
  | before t o | between _ t o => ⟨o, t.location⟩

def operand? : Waiting → Option Node
  | between left _ _ => some left.node
  | _ => none

def AssignsVariables : Waiting → Prop
  | between left _ _ => left.AssignsVariables
  | _ => True

def CanFill : Waiting → Prop
  | between left _ o => CanAssign o left.node
  | _ => True

@[simp] theorem operator_pending (w : Waiting) : w.pending.operator = w.operator := by
  cases w <;> rfl

theorem assignsVariables_fill {w : Waiting} {p : Phrase} :
    (w.fill p).AssignsVariables → p.AssignsVariables := by
  cases w with
  | parenthesis | before => exact id
  | between => exact fun h => h.2.2

end Waiting

namespace Draft

variable {symbols : SymbolTable} {e e' : Expression}

theorem assignsVariables_fill_iff {w : Waiting} {p : Phrase} (hw : ¬ w.IsParenthesis)
    (ha : w.AssignsVariables) (hp : p.AssignsVariables) :
    (w.fill p).AssignsVariables ↔ w.CanFill := by
  cases w with
  | parenthesis => exact absurd rfl hw
  | before => exact ⟨fun _ => trivial, fun _ => hp⟩
  | between => exact ⟨fun h => h.1, fun h => ⟨h, ha, hp⟩⟩

theorem assignsVariables_of_settle {ready : Operator → Bool} {ws : List Waiting} {p : Phrase}
    (h : (settle ready ws p).2.AssignsVariables) : p.AssignsVariables := by
  induction ws generalizing p with
  | nil => exact h
  | cons w ws ih =>
    rw [settle] at h
    split at h
    · exact Waiting.assignsVariables_fill (ih h)
    · exact h

theorem mem_settle {ready : Operator → Bool} {ws : List Waiting} {p : Phrase} :
    ∀ w ∈ (settle ready ws p).1, w ∈ ws := by
  induction ws generalizing p with
  | nil => exact fun w h => h
  | cons w ws ih =>
    rw [settle]
    split
    · exact fun v hv => List.mem_cons_of_mem w (ih v hv)
    · exact fun v hv => hv

def operandsOf (ws : List Waiting) : List Node := ws.filterMap Waiting.operand?

theorem operandsOf_cons (w : Waiting) (ws : List Waiting) :
    operandsOf (w :: ws) = w.operand?.toList ++ operandsOf ws := by
  cases h : w.operand? <;> simp [operandsOf, h]

@[simp] theorem operandsOf_parenthesis (t : Token) (ws : List Waiting) :
    operandsOf (.parenthesis t :: ws) = operandsOf ws := rfl

@[simp] theorem operandsOf_before (t : Token) (o : Operator) (ws : List Waiting) :
    operandsOf (.before t o :: ws) = operandsOf ws := rfl

@[simp] theorem operandsOf_between (p : Phrase) (t : Token) (o : Operator) (ws : List Waiting) :
    operandsOf (.between p t o :: ws) = p.node :: operandsOf ws := rfl

theorem reduce_pending {w : Waiting} {p : Phrase} {rest : List Node} (e : Expression)
    (hs : Sound symbols w) (hw : ¬ w.IsParenthesis)
    (he : e.operands = p.node :: (w.operand?.toList ++ rest)) :
    reduce w.pending e = .ok () e' ↔
      w.CanFill ∧ e' = { e with operands := (w.fill p).node :: rest } := by
  cases hs with
  | parenthesis => exact absurd rfl hw
  | @before t o _ ho =>
    have hu : (PendingOperator.mk o t.location).operator.isUnary := isUnary_of_standsBefore ho
    rw [Waiting.pending, reduce_unary hu he]
    simp [Waiting.CanFill, Waiting.fill, Waiting.operand?, Phrase.node, @eq_comm _ e']
  | @between l t o _ _ _ _ ho =>
    have hu : (PendingOperator.mk o t.location).operator.isUnary = false :=
      not_isUnary_of_standsBetween ho
    exact (reduce_binary hu he).trans (and_congr_left fun _ => checkTarget_eq_ok)

theorem reduceWhile_pending {ready : Operator → Bool} {ws : List Waiting} {p : Phrase}
    (hc : Chain symbols ws) (hr : Spares ready ws) (hws : ∀ w ∈ ws, w.AssignsVariables)
    (hp : p.AssignsVariables) (ho : e.operators = ws.map Waiting.pending)
    (hn : e.operands = p.node :: operandsOf ws) :
    reduceWhile ready (ws.map Waiting.pending) e = .ok () e' ↔
      (settle ready ws p).2.AssignsVariables ∧ e' = { e with
        operators := (settle ready ws p).1.map Waiting.pending
        operands := (settle ready ws p).2.node :: operandsOf (settle ready ws p).1 } := by
  induction ws generalizing p e with
  | nil =>
    obtain ⟨stream, operands, operators, wants, after, parentheses⟩ := e
    simp only at ho hn
    subst ho hn
    simp [reduceWhile_nil, settle, hp, @eq_comm _ e']
  | cons w ws ih =>
    cases hready : ready w.operator with
    | true =>
      have hw := hr w List.mem_cons_self hready
      rw [operandsOf_cons] at hn
      rw [List.map_cons, reduceWhile_of_ready (by simpa using hready), settle, if_pos hready]
      cases hc with
      | cons hs _ hc =>
        have hr' : Spares ready ws := fun v hv => hr v (List.mem_cons_of_mem w hv)
        have hws' := fun v hv => hws v (List.mem_cons_of_mem w hv)
        have hfill := assignsVariables_fill_iff hw (hws w List.mem_cons_self) hp
        have hred := fun e₁ => @reduce_pending symbols e₁ w p (operandsOf ws)
          { e with operators := ws.map Waiting.pending } hs hw hn
        have hrec := fun hp' => @ih { e with
          operators := ws.map Waiting.pending, operands := (w.fill p).node :: operandsOf ws }
          (w.fill p) hc hr' hws' hp' rfl rfl
        constructor
        · rintro ⟨e₁, h₁, h₂⟩
          obtain ⟨hcan, rfl⟩ := (hred e₁).mp h₁
          exact (hrec (hfill.mpr hcan)).mp h₂
        · rintro ⟨hall, rfl⟩
          have hp' := assignsVariables_of_settle hall
          exact ⟨_, (hred _).mpr ⟨hfill.mp hp', rfl⟩, (hrec hp').mpr ⟨hall, rfl⟩⟩
    | false =>
      rw [List.map_cons, reduceWhile_of_not_ready (by simpa using hready), settle,
        if_neg (by simp [hready])]
      obtain ⟨stream, operands, operators, wants, after, parentheses⟩ := e
      simp only at ho hn
      subst ho hn
      simp [hp, @eq_comm _ e']

/-! ## Drafts on the stacks -/

/-- `++` or `--` behind a variable waits on the stack until another operator or the end comes. -/
def lastOperators : Option Phrase → List PendingOperator
  | some (.behind _ _ t o) => [⟨o, t.location⟩]
  | _ => []

def lastOperands : Option Phrase → List Node
  | none => []
  | some (.behind _ v _ _) => [.var v]
  | some p => [p.node]

def afterVariable : Option Phrase → Bool
  | some (.operand _ (.var _)) => true
  | _ => false

def parentheses (ws : List Waiting) : Nat := ws.countP fun w => w.IsParenthesis

@[simp] theorem parentheses_parenthesis (t : Token) (ws : List Waiting) :
    parentheses (.parenthesis t :: ws) = parentheses ws + 1 :=
  List.countP_cons_of_pos (decide_eq_true rfl)

theorem parentheses_cons {w : Waiting} (ws : List Waiting) (hw : ¬ w.IsParenthesis) :
    parentheses (w :: ws) = parentheses ws :=
  List.countP_cons_of_neg (by simpa using hw)

/-- The expression that a draft is, in front of the tokens `s`. -/
def onStacks (d : Draft) (s : TokenStream) : Expression where
  stream := s
  operands := lastOperands d.last ++ operandsOf d.waiting
  operators := lastOperators d.last ++ d.waiting.map Waiting.pending
  wantsOperand := d.last.isNone
  afterVariable := afterVariable d.last
  parentheses := parentheses d.waiting

structure AssignsVariables (d : Draft) : Prop where
  waiting : ∀ w ∈ d.waiting, w.AssignsVariables
  last : ∀ p ∈ d.last, p.AssignsVariables

theorem parentheses_settle {ready : Operator → Bool} {ws : List Waiting} (p : Phrase)
    (hr : Spares ready ws) : parentheses (settle ready ws p).1 = parentheses ws := by
  induction ws generalizing p with
  | nil => rfl
  | cons w ws ih =>
    rw [settle]
    split
    · next hw =>
      rw [ih _ (fun v hv => hr v (List.mem_cons_of_mem w hv)),
        parentheses_cons ws (hr w List.mem_cons_self hw)]
    · rfl

/-- Operators are settled on the stacks as in the draft, `++` and `--` behind a variable first. -/
theorem reduceWhile_onStacks {ready : Operator → Bool} {ws : List Waiting} {p : Phrase}
    (hi : Invariant symbols ⟨ws, some p⟩) (ha : AssignsVariables ⟨ws, some p⟩)
    (hr : Spares ready ws) (hbehind : ∀ c : Operator, c.standsBehind → ready c)
    (ho : e.operators = lastOperators (some p) ++ ws.map Waiting.pending)
    (hn : e.operands = lastOperands (some p) ++ operandsOf ws) :
    reduceWhile ready e.operators e = .ok () e' ↔
      (settle ready ws p).2.AssignsVariables ∧ e' = { e with
        operators := (settle ready ws p).1.map Waiting.pending
        operands := (settle ready ws p).2.node :: operandsOf (settle ready ws p).1 } := by
  have hp := ha.last p rfl
  have hsettle := fun (e : Expression) (ho : e.operators = ws.map Waiting.pending)
    (hn : e.operands = p.node :: operandsOf ws) =>
      show reduceWhile ready (ws.map Waiting.pending) e = .ok () e' ↔ _ from
        reduceWhile_pending hi.chain hr ha.waiting hp ho hn
  rw [ho]
  cases p with
  | behind name v t o =>
    have hb : o.standsBehind := hi.root _ rfl o rfl
    have hred := @reduce_unary { e with operators := ws.map Waiting.pending } ⟨o, t.location⟩
      (.var v) (operandsOf ws) (isUnary_of_standsBehind hb) hn
    rw [lastOperators, List.singleton_append, reduceWhile_of_ready (hbehind o hb)]
    simp only [hred, EStateM.Result.ok.injEq, true_and, exists_eq_left']
    exact hsettle _ rfl rfl
  | operand | enclosed | before | between => exact hsettle e ho hn

/-! ## Steps -/

/-- A token that `++` or `--` names stands beside a variable. -/
def StepFits (symbols : SymbolTable) (d : Draft) (s : TokenStream) : Prop :=
  s.current.isOperator "++" ∨ s.current.isOperator "--" →
    afterVariable d.last ∨ isVariable symbols s.advance.current

variable {d : Draft} {s : TokenStream}

def Steps (symbols : SymbolTable) (d : Draft) (s : TokenStream) (e' : Expression) : Prop :=
  ∃ d', Take symbols s.current d d' ∧ d'.AssignsVariables ∧ StepFits symbols d s ∧
    e' = d'.onStacks s.advance

theorem stepFits_of_kind (h : s.current.kind ≠ .operator) : StepFits symbols d s := by
  simp [StepFits, Token.isOperator, Token.is, h]

theorem assignsVariables_operand {ws : List Waiting} {t : Token} {n : Node}
    (ha : AssignsVariables ⟨ws, none⟩) : AssignsVariables ⟨ws, some (.operand t n)⟩ := by
  refine ⟨ha.waiting, ?_⟩
  rintro _ ⟨⟩
  trivial

theorem literal_onStacks (ha : d.AssignsVariables) (hk : s.current.kind = .literal) :
    literal s.current (d.onStacks s) = .ok () e' ↔ Steps symbols d s e' := by
  obtain ⟨ws, last⟩ := d
  rw [literal_eq_ok]
  constructor
  · rintro ⟨hw, l, hl, rfl⟩
    cases last with
    | none =>
      exact ⟨_, .operand (.literal hk hl), assignsVariables_operand ha,
        stepFits_of_kind (by simp [hk]), rfl⟩
    | some p => cases hw
  · rintro ⟨_, ht, _, _, rfl⟩
    cases ht with
    | operand hn =>
      cases hn with
      | literal _ hl => exact ⟨rfl, _, hl, rfl⟩
      | var hi | reference hi => simp [hk] at hi
    | opening h | before h | closing h | behind h | between h =>
      simp [Token.isDelimiter, Token.isOperator, Token.is, hk] at h

theorem identifier_onStacks (ha : d.AssignsVariables) (hk : s.current.kind = .identifier) :
    identifier symbols s.current (d.onStacks s) = .ok () e' ↔ Steps symbols d s e' := by
  obtain ⟨ws, last⟩ := d
  rw [identifier_eq_ok]
  constructor
  · rintro ⟨hw, h⟩
    cases last with
    | none =>
      have hfits : StepFits symbols ⟨ws, none⟩ s := stepFits_of_kind (by simp [hk])
      rcases h with ⟨v, hv, rfl⟩ | ⟨f, hf, rfl⟩
      · exact ⟨_, .operand (.var hk hv), assignsVariables_operand ha, hfits, rfl⟩
      · exact ⟨_, .operand (.reference hk hf), assignsVariables_operand ha, hfits, rfl⟩
    | some p => cases hw
  · rintro ⟨_, ht, _, _, rfl⟩
    cases ht with
    | operand hn =>
      cases hn with
      | literal hi => simp [hk] at hi
      | var _ hv => exact ⟨rfl, .inl ⟨_, hv, rfl⟩⟩
      | reference _ hf => exact ⟨rfl, .inr ⟨_, hf, rfl⟩⟩
    | opening h | before h | closing h | behind h | between h =>
      simp [Token.isDelimiter, Token.isOperator, Token.is, hk] at h

theorem openParenthesis_onStacks (ha : d.AssignsVariables) (hk : s.current.isDelimiter "(") :
    openParenthesis s.current (d.onStacks s) = .ok () e' ↔ Steps symbols d s e' := by
  obtain ⟨ws, last⟩ := d
  rw [openParenthesis_eq_ok]
  constructor
  · rintro ⟨hw, rfl⟩
    cases last with
    | none =>
      refine ⟨_, .opening hk, ⟨?_, nofun⟩, stepFits_of_kind ?_, ?_⟩
      · rintro w (_ | ⟨_, hw⟩)
        · trivial
        · exact ha.waiting w hw
      · simp_all [Token.isDelimiter, Token.is]
      · simp [onStacks, lastOperands, lastOperators, Waiting.pending, afterVariable]
    | some p => cases hw
  · rintro ⟨_, ht, _, _, rfl⟩
    cases ht with
    | operand hn => exact absurd hk (hn.not_delimiter _)
    | opening =>
      refine ⟨rfl, ?_⟩
      simp [onStacks, lastOperands, lastOperators, Waiting.pending, afterVariable]
    | closing h => simp_all [Token.isDelimiter, Token.is]
    | before h | behind h | between h =>
      exact absurd h (Token.not_isOperator_of_isDelimiter hk _)

/-- Below all that waits inside of the innermost parenthesis stands that parenthesis. -/
theorem exists_opened {ws : List Waiting} (hc : Chain symbols ws) (h : parentheses ws ≠ 0) :
    ∃ a rest, opened ws = .parenthesis a :: rest := by
  induction hc with
  | nil => exact absurd rfl h
  | @cons w ws hs hacc _ ih =>
    by_cases hw : w.IsParenthesis
    · cases hs with
      | @parenthesis a => exact ⟨a, ws, rfl⟩
      | before _ ho => exact absurd hw (not_parenthesis_of_standsBefore ho)
      | between _ _ _ _ ho => exact absurd hw (not_parenthesis_of_standsBetween ho)
    · rw [parentheses_cons ws hw] at h
      rw [opened_cons ws hw]
      exact ih h

theorem closeParenthesis_settle {ws rest : List Waiting} {p q : Phrase} {a : Token}
    (hi : Invariant symbols ⟨ws, some p⟩) (ha : AssignsVariables ⟨ws, some p⟩)
    (hs : settle notParenthesis ws p = (.parenthesis a :: rest, q)) (t : Token) :
    closeParenthesis (onStacks ⟨ws, some p⟩ s) = .ok () e' ↔
      q.AssignsVariables ∧ e' = onStacks ⟨rest, some (.enclosed a q t)⟩ s.advance := by
  have hspares := spares_notParenthesis ws
  have hbehind : ∀ c : Operator, c.standsBehind → notParenthesis c := by
    intro c hc
    cases c <;> first | rfl | cases hc
  have hcount := parentheses_settle p hspares
  rw [hs, parentheses_parenthesis] at hcount
  have hwhile := fun e₁ => @reduceWhile_onStacks symbols { onStacks ⟨ws, some p⟩ s with
    stream := s.advance, parentheses := parentheses ws - 1 } e₁ notParenthesis ws p hi ha hspares
    hbehind rfl rfl
  rw [hs] at hwhile
  rw [closeParenthesis_eq_ok]
  constructor
  · rintro ⟨_, e₁, h, rfl⟩
    obtain ⟨hq, rfl⟩ := (hwhile e₁).mp h
    refine ⟨hq, ?_⟩
    simp [onStacks, ← hcount, lastOperators, lastOperands, afterVariable, Phrase.node]
  · rintro ⟨hq, rfl⟩
    refine ⟨rfl, _, (hwhile _).mpr ⟨hq, rfl⟩, ?_⟩
    simp [onStacks, ← hcount, lastOperators, lastOperands, afterVariable, Phrase.node]

theorem closeParenthesis_onStacks (hi : Invariant symbols d) (ha : d.AssignsVariables)
    (hk : s.current.isDelimiter ")") (hopen : parentheses d.waiting ≠ 0) :
    closeParenthesis (d.onStacks s) = .ok () e' ↔ Steps symbols d s e' := by
  have hfits : StepFits symbols d s := stepFits_of_kind (by simp_all [Token.isDelimiter, Token.is])
  obtain ⟨ws, last⟩ := d
  cases last with
  | none =>
    constructor
    · intro h
      cases (closeParenthesis_eq_ok.mp h).1
    · rintro ⟨_, ht, _⟩
      cases ht with
      | operand hn => exact absurd hk (hn.not_delimiter _)
      | opening h => simp_all [Token.isDelimiter, Token.is]
      | before h => exact absurd h (Token.not_isOperator_of_isDelimiter hk _)
  | some p =>
    constructor
    · intro h
      obtain ⟨a, rest, hrest⟩ := exists_opened hi.chain hopen
      have hs : settle notParenthesis ws p =
          (.parenthesis a :: rest, (settle notParenthesis ws p).2) :=
        Prod.ext ((settle_notParenthesis ws p).trans hrest) rfl
      obtain ⟨hq, rfl⟩ := (closeParenthesis_settle hi ha hs s.current).mp h
      refine ⟨_, .closing hk hs, ⟨fun w hw => ha.waiting w ?_, ?_⟩, hfits, rfl⟩
      · exact mem_settle w (by rw [hs]; exact List.mem_cons_of_mem _ hw)
      · rintro _ ⟨⟩
        exact hq
    · rintro ⟨_, ht, ha', _, rfl⟩
      cases ht with
      | @closing ws rest p q a _ hs =>
        have hq : q.AssignsVariables := ha'.last (.enclosed a q s.current) rfl
        exact (closeParenthesis_settle hi ha hs s.current).mpr ⟨hq, rfl⟩
      | behind h | between h => exact absurd h (Token.not_isOperator_of_isDelimiter hk _)

/-! ## Operators -/

/-- The operator goes on top of the stack once all that binds before it has its operands. -/
def Pushes (o : Operator) (t : Token) (e e' : Expression) : Prop :=
  ∃ e₁, reduceWhile (bindsBefore o) e.operators e = .ok () e₁ ∧ e' = { e₁ with
    operators := ⟨o, t.location⟩ :: e₁.operators
    wantsOperand := o ≠ .postIncrement ∧ o ≠ .postDecrement
    afterVariable := false }

theorem wants_of_standsBefore {o : Operator} (h : o.standsBefore) :
    decide (o ≠ .postIncrement ∧ o ≠ .postDecrement) = true := by
  cases o <;> first | rfl | cases h

theorem wants_of_standsBetween {o : Operator} (h : o.standsBetween) :
    decide (o ≠ .postIncrement ∧ o ≠ .postDecrement) = true := by
  cases o <;> first | rfl | cases h

theorem not_wants_of_standsBehind {o : Operator} (h : o.standsBehind) :
    decide (o ≠ .postIncrement ∧ o ≠ .postDecrement) = false := by
  cases o <;> first | rfl | cases h

/-- An operator in front of its operand or behind a variable binds tighter than all that waits. -/
theorem reduceWhile_tight {ws : List Waiting} {o : Operator} (hc : Chain symbols ws) (ho : 13 ≤ o.precedence)
    (he : e.operators = ws.map Waiting.pending) :
    reduceWhile (bindsBefore o) e.operators e = .ok () e := by
  rw [he]
  cases ws with
  | nil => rfl
  | cons w ws =>
    have hw : w.operator.TakesRight o := accepts_of_le hc ho w rfl
    apply reduceWhile_of_not_ready
    rw [Waiting.operator_pending]
    exact (Operator.takesRight_iff _ _).mp hw

theorem pushes_tight {ws : List Waiting} {o : Operator} {t : Token} (hc : Chain symbols ws)
    (ho : 13 ≤ o.precedence) (he : e.operators = ws.map Waiting.pending) :
    Pushes o t e e' ↔ e' = { e with
      operators := ⟨o, t.location⟩ :: e.operators
      wantsOperand := o ≠ .postIncrement ∧ o ≠ .postDecrement
      afterVariable := false } := by
  have hw := reduceWhile_tight hc ho he
  constructor
  · rintro ⟨e₁, h, rfl⟩
    cases hw.symm.trans h
    rfl
  · exact fun h => ⟨e, hw, h⟩

theorem pushes_before {ws : List Waiting} {o : Operator} (hc : Chain symbols ws)
    (ho : o.standsBefore) (t : Token) :
    Pushes o t (onStacks ⟨ws, none⟩ s) e' ↔ e' = onStacks ⟨.before t o :: ws, none⟩ s := by
  have h13 := Operator.precedence_standsBefore ho
  rw [pushes_tight hc (by omega) rfl, wants_of_standsBefore ho]
  simp [onStacks, lastOperators, lastOperands, afterVariable, Waiting.pending,
    parentheses_cons ws (not_parenthesis_of_standsBefore ho)]

theorem pushes_behind {ws : List Waiting} {o : Operator} {name : Token} {v : Variable}
    (hc : Chain symbols ws) (ho : o.standsBehind) (t : Token) :
    Pushes o t (onStacks ⟨ws, some (.operand name (.var v))⟩ s) e' ↔
      e' = onStacks ⟨ws, some (.behind name v t o)⟩ s := by
  have h14 := Operator.precedence_standsBehind ho
  rw [pushes_tight hc (by omega) rfl, not_wants_of_standsBehind ho]
  rfl

/-- An operator between two operands settles all that binds tighter. -/
theorem pushes_between {ws rest : List Waiting} {p q : Phrase} {o : Operator}
    (hi : Invariant symbols ⟨ws, some p⟩) (ha : AssignsVariables ⟨ws, some p⟩)
    (ho : o.standsBetween) (hs : settle (bindsBefore o) ws p = (rest, q)) (t : Token) :
    Pushes o t (onStacks ⟨ws, some p⟩ s) e' ↔
      q.AssignsVariables ∧ e' = onStacks ⟨.between q t o :: rest, none⟩ s := by
  have hbehind : ∀ c : Operator, c.standsBehind → bindsBefore o c := by
    intro c hc
    rw [← Operator.takesLeft_iff]
    have h₁ := Operator.precedence_standsBehind hc
    have h₂ := (Operator.precedence_standsBetween ho).2
    unfold Operator.TakesLeft
    split <;> omega
  have hspares := spares_bindsBefore ho ws
  have hcount := parentheses_settle p hspares
  have hwhile := fun e₁ => @reduceWhile_onStacks symbols (onStacks ⟨ws, some p⟩ s) e₁
    (bindsBefore o) ws p hi ha hspares hbehind rfl rfl
  simp only [hs] at hcount hwhile
  unfold Pushes
  simp only [hwhile, wants_of_standsBetween ho]
  constructor
  · rintro ⟨_, ⟨hq, rfl⟩, rfl⟩
    refine ⟨hq, ?_⟩
    simp [onStacks, lastOperators, lastOperands, afterVariable, Waiting.pending,
      parentheses_cons rest (not_parenthesis_of_standsBetween ho), hcount]
  · rintro ⟨hq, rfl⟩
    refine ⟨_, ⟨hq, rfl⟩, ?_⟩
    simp [onStacks, lastOperators, lastOperands, afterVariable, Waiting.pending,
      parentheses_cons rest (not_parenthesis_of_standsBetween ho), hcount]

/-- The symbol of an operator that is plain names no parenthesis. -/
theorem group_ne_delimiter {t : Token} {c : Operator} (hk : t.kind = .operator) (hp : PlainOperator t)
    (hc : c.symbol = t.text) : c.group ≠ .delimiter := by
  intro hg
  simp only [PlainOperator, Token.isOperator, Token.is, hk, beq_self_eq_true, Bool.true_and, beq_iff_eq, ← hc] at hp
  cases c <;>
    first
    | exact absurd hg (by decide)
    | exact absurd rfl hp.1
    | exact absurd rfl hp.2

theorem operator_reads (hk : s.current.kind = .operator) (hp : PlainOperator s.current) :
    operator symbols s.current (d.onStacks s) = .ok () e' ↔
      ∃ o, s.current.isOperator o.symbol ∧ StepFits symbols d s ∧
        (o.standsBehind ∧ afterVariable d.last ∨ o.standsBefore ∧ d.last.isNone ∨
          o.standsBetween ∧ d.last.isNone = false) ∧
        Pushes o s.current (d.onStacks s.advance) e' := by
  have haw : afterVariable d.last → d.last.isNone = false := by
    cases d.last with
    | none => exact nofun
    | some => exact fun _ => rfl
  have hop : ∀ a : String, s.current.isOperator a ↔ s.current.text = a := by
    simp [Token.isOperator, Token.is, hk]
  have hplain := fun c => @group_ne_delimiter s.current c hk hp
  rw [operator_eq_ok]
  constructor
  · rintro ⟨c, o, e₁, hc, hr, hw, he⟩
    have hnd := hplain c (Operator.symbol_of_ofSymbol? hc)
    obtain ⟨ho, hfits, hplace⟩ := (resolve_eq_ok hc hnd haw).mp hr
    refine ⟨o, (hop _).mpr ho, ?_, hplace, e₁, hw, he⟩
    simp only [StepFits, hop]
    exact hfits
  · rintro ⟨o, ho, hfits, hplace, e₁, hw, he⟩
    have hc : Operator.ofSymbol? s.current.text = some o.named := by
      rw [(hop _).mp ho, Operator.ofSymbol?_symbol]
    have hnd := hplain _ (Operator.symbol_of_ofSymbol? hc)
    simp only [StepFits, hop] at hfits
    exact ⟨_, o, e₁, hc, (resolve_eq_ok hc hnd haw).mpr ⟨(hop _).mp ho, hfits, hplace⟩, hw, he⟩

theorem afterVariable_iff {last : Option Phrase} :
    afterVariable last ↔ ∃ name v, last = some (.operand name (.var v)) := by
  constructor
  · intro h
    unfold afterVariable at h
    split at h
    · next name v => exact ⟨name, v, rfl⟩
    · cases h
  · rintro ⟨name, v, rfl⟩
    rfl

theorem operator_onStacks (hi : Invariant symbols d) (ha : d.AssignsVariables)
    (hk : s.current.kind = .operator) (hp : PlainOperator s.current) :
    operator symbols s.current (d.onStacks s) = .ok () e' ↔ Steps symbols d s e' := by
  rw [operator_reads hk hp]
  constructor
  · rintro ⟨o, ho, hfits, ⟨hb, hafter⟩ | ⟨hb, hwants⟩ | ⟨hb, hwants⟩, hpush⟩
    · obtain ⟨ws, last⟩ := d
      obtain ⟨name, v, rfl⟩ := afterVariable_iff.mp hafter
      refine ⟨_, .behind ho hb, ⟨ha.waiting, ?_⟩, hfits, (pushes_behind hi.chain hb _).mp hpush⟩
      rintro _ ⟨⟩
      trivial
    · obtain ⟨ws, last⟩ := d
      obtain rfl := Option.isNone_iff_eq_none.mp hwants
      refine ⟨_, .before ho hb, ⟨?_, nofun⟩, hfits, (pushes_before hi.chain hb _).mp hpush⟩
      rintro w (_ | ⟨_, hw⟩)
      · trivial
      · exact ha.waiting w hw
    · obtain ⟨ws, _ | p⟩ := d
      · cases hwants
      obtain ⟨hq, rfl⟩ := (pushes_between hi ha hb rfl _).mp hpush
      refine ⟨_, .between ho hb rfl, ⟨?_, nofun⟩, hfits, rfl⟩
      rintro w (_ | ⟨_, hw⟩)
      · exact hq
      · exact ha.waiting w (mem_settle w hw)
  · rintro ⟨d', ht, ha', hfits, rfl⟩
    cases ht with
    | operand hn =>
      cases hn with
      | literal h | var h | reference h => exact absurd (hk.symm.trans h) nofun
    | opening h | closing h => simp [Token.isDelimiter, Token.is, hk] at h
    | @before _ o ho hb =>
      exact ⟨o, ho, hfits, .inr (.inl ⟨hb, rfl⟩), (pushes_before hi.chain hb _).mpr rfl⟩
    | @behind _ name v o ho hb =>
      exact ⟨o, ho, hfits, .inl ⟨hb, rfl⟩, (pushes_behind hi.chain hb _).mpr rfl⟩
    | @between _ rest p q o ho hb hs =>
      have hq : q.AssignsVariables := ha'.waiting _ List.mem_cons_self
      exact ⟨o, ho, hfits, .inr (.inr ⟨hb, rfl⟩), (pushes_between hi ha hb hs _).mpr ⟨hq, rfl⟩⟩

end Draft

end Offside
