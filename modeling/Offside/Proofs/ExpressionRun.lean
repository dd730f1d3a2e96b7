import Mathlib.Logic.Function.Iterate
import Offside.Proofs.ExpressionDraft

/-!
# What an expression reads

An expression takes the tokens of its extent one after the other and succeeds just where they come to a
phrase.
-/

namespace Offside

set_option autoImplicit false

open Expression

namespace TokenStream

def EndsAhead (s : TokenStream) : Prop := ∃ t ∈ s.tokens, t.kind = .endOfFile

theorem tokens_advance {s : TokenStream} (h : s.EndsAhead) (hk : s.current.kind ≠ .endOfFile) :
    s.tokens = s.current :: s.advance.tokens := by
  obtain ⟨t, ht, hkt⟩ := h
  obtain ⟨position, current, _ | ⟨next, rest⟩⟩ := s
  · cases List.mem_singleton.mp ht
    exact absurd hkt hk
  · simp [advance, tokens, hk]

theorem EndsAhead.advance {s : TokenStream} (h : s.EndsAhead) : s.advance.EndsAhead := by
  by_cases hk : s.current.kind = .endOfFile
  · obtain ⟨position, current, rest⟩ := s
    cases rest with
    | nil => exact h
    | cons next rest =>
      rw [TokenStream.advance]
      simp only [show current.kind = .endOfFile from hk, if_true]
      exact h
  · have htokens := tokens_advance h hk
    obtain ⟨t, ht, hkt⟩ := h
    rw [htokens] at ht
    rcases List.mem_cons.mp ht with rfl | ht
    · exact absurd hkt hk
    · exact ⟨t, ht, hkt⟩

end TokenStream

/-- The expression ends in front of `t`, inside of `depth` parentheses. -/
def Draft.EndsBefore (depth : Nat) (t : Token) : Prop :=
  t.endsStatement ∨ t.isDelimiter "," ∨ t.isDelimiter ")" ∧ depth = 0

/-- On the stack of operators all but the signs and the parentheses have two operands. -/
def Operator.takesTwo (o : Operator) : Bool := !o.isUnary && o != .openParenthesis

/-! ## What a step runs -/

namespace Expression

variable {symbols : SymbolTable} {e e' : Expression}

/-- No expression has the token in it. -/
def FitsNowhere (t : Token) : Prop :=
  t.kind = .keyword ∨ t.kind = .delimiter ∧ ¬ t.isDelimiter "(" ∧ ¬ t.isDelimiter ")"

/-- The action that a step consists of where the expression goes on. -/
inductive Acts (symbols : SymbolTable) (e : Expression) : Build Unit → Prop where
  | literal : e.stream.current.kind = .literal → Acts symbols e (literal e.stream.current)
  | identifier : e.stream.current.kind = .identifier → Acts symbols e (identifier symbols e.stream.current)
  | operator : e.stream.current.kind = .operator → Acts symbols e (operator symbols e.stream.current)
  | opening : e.stream.current.isDelimiter "(" → Acts symbols e (openParenthesis e.stream.current)
  | closing : e.stream.current.isDelimiter ")" → e.parentheses ≠ 0 → Acts symbols e closeParenthesis
  | stuck : FitsNowhere e.stream.current → Acts symbols e (fail (.unexpectedToken e.stream.current.text))

theorem then_true {x : Build Unit} {b : Bool} :
    (do x; return true) e = .ok b e' ↔ b = true ∧ x e = .ok () e' := by
  rw [Execution.bind_unit_eq_ok]
  constructor
  · rintro ⟨e₁, h, h'⟩
    cases h'
    exact ⟨rfl, h⟩
  · rintro ⟨rfl, h⟩
    exact ⟨e', h, rfl⟩

theorem then_true_error {x : Build Unit} {d : Diagnostic} :
    (do x; return true : Build Bool) e = .error d e' ↔ x e = .error d e' := by
  rw [Execution.bind_apply]
  cases x e <;> simp [Execution.pure_apply]

/-- All that a step can do. -/
theorem step_acts (symbols : SymbolTable) (e : Expression) :
    Draft.EndsBefore e.parentheses e.stream.current ∧ step symbols e = .ok false e ∨
      ¬ Draft.EndsBefore e.parentheses e.stream.current ∧
        ∃ x, Acts symbols e x ∧ step symbols e = (do x; return true : Build Bool) e := by
  unfold step
  rw [Execution.get_bind]
  dsimp only
  have hword : ∀ {x : Build Unit}, e.stream.current.kind ≠ .delimiter → e.stream.current.endsStatement = false →
      Acts symbols e x → ¬ Draft.EndsBefore e.parentheses e.stream.current ∧
        ∃ y, Acts symbols e y ∧ (do x; return true : Build Bool) e = (do y; return true : Build Bool) e := by
    intro x hk hends hacts
    refine ⟨?_, x, hacts, rfl⟩
    simp [Draft.EndsBefore, hends, Token.not_isDelimiter_of_kind hk]
  cases hk : e.stream.current.kind with
  | endOfStatement | endOfFile => exact .inl ⟨.inl (by simp [Token.endsStatement, hk]), rfl⟩
  | keyword => exact .inr (hword (by simp [hk]) (by simp [Token.endsStatement, hk]) (.stuck (.inl hk)))
  | literal => exact .inr (hword (by simp [hk]) (by simp [Token.endsStatement, hk]) (.literal hk))
  | identifier => exact .inr (hword (by simp [hk]) (by simp [Token.endsStatement, hk]) (.identifier hk))
  | operator => exact .inr (hword (by simp [hk]) (by simp [Token.endsStatement, hk]) (.operator hk))
  | delimiter =>
    have hd : ∀ text, e.stream.current.isDelimiter text ↔ e.stream.current.text = text := by
      simp [Token.isDelimiter, Token.is, hk]
    dsimp only
    split
    · next hends =>
      rw [← hd, ← hd] at hends
      exact .inl ⟨.inr hends, rfl⟩
    · next hstay =>
      have hends : ¬ Draft.EndsBefore e.parentheses e.stream.current := by
        rw [← hd, ← hd] at hstay
        simp [Draft.EndsBefore, Token.endsStatement, hk, hstay]
      refine .inr ⟨hends, ?_⟩
      split
      · next hopening => exact ⟨_, .opening ((hd _).mpr hopening), rfl⟩
      · next hopening =>
        split
        · next hclosing =>
          exact ⟨_, .closing ((hd _).mpr hclosing) fun hnone => hstay (.inr ⟨hclosing, hnone⟩), rfl⟩
        · next hclosing =>
          exact ⟨_, .stuck (.inr ⟨hk, (hd _).not.mpr hopening, (hd _).not.mpr hclosing⟩), rfl⟩

theorem step_of_endsBefore (h : Draft.EndsBefore e.parentheses e.stream.current) :
    step symbols e = .ok false e := by
  rcases step_acts symbols e with ⟨-, hstep⟩ | ⟨hstay, -⟩
  · exact hstep
  · exact absurd h hstay

/-- A step that succeeds either is the end of the expression or has done its action. -/
theorem step_eq_ok {b : Bool} (h : step symbols e = .ok b e') :
    b = false ∧ e' = e ∧ Draft.EndsBefore e.parentheses e.stream.current ∨
      b = true ∧ ¬ Draft.EndsBefore e.parentheses e.stream.current ∧ ∃ x, Acts symbols e x ∧ x e = .ok () e' := by
  rcases step_acts symbols e with ⟨hends, hstep⟩ | ⟨hstay, x, hacts, hstep⟩
  · cases hstep.symm.trans h
    exact .inl ⟨rfl, rfl, hends⟩
  · rw [hstep] at h
    obtain ⟨hb, hx⟩ := then_true.mp h
    exact .inr ⟨hb, hstay, x, hacts, hx⟩

end Expression

namespace Draft

variable {symbols : SymbolTable} {d d' : Draft} {s : TokenStream} {e' : Expression}

theorem take_kind {t : Token} (ht : Take symbols t d d') :
    t.kind ≠ .endOfStatement ∧ t.kind ≠ .endOfFile ∧ t.kind ≠ .keyword := by
  cases ht with
  | operand hn => cases hn <;> simp_all
  | opening h | before h | closing h | behind h | between h =>
    simp only [Token.isDelimiter, Token.isOperator, Token.is, Bool.and_eq_true, beq_iff_eq] at h
    simp [h.1]

theorem not_take_of_fitsNowhere {t : Token} (h : FitsNowhere t) : ¬ Take symbols t d d' := by
  intro ht
  rcases h with hk | ⟨hk, hopening, hclosing⟩
  · exact (take_kind ht).2.2 hk
  · cases ht with
    | operand hn => cases hn <;> simp_all
    | opening h => exact hopening h
    | closing h => exact hclosing h
    | before h | behind h | between h => simp [Token.isOperator, Token.is, hk] at h

/-- Where the expression does not end, a step takes the token into the draft or fails. -/
theorem step_onStacks {b : Bool} (hi : Invariant symbols d) (ha : d.AssignsVariables)
    (hp : PlainOperator s.current) (h : ¬ EndsBefore (parentheses d.waiting) s.current) :
    step symbols (d.onStacks s) = .ok b e' ↔ b = true ∧ Steps symbols d s e' := by
  rcases step_acts symbols (d.onStacks s) with ⟨hends, -⟩ | ⟨-, x, hacts, hstep⟩
  · exact absurd hends h
  rw [hstep]
  refine then_true.trans (and_congr_right fun _ => ?_)
  cases hacts with
  | literal hk => exact literal_onStacks ha hk
  | identifier hk => exact identifier_onStacks ha hk
  | operator hk => exact operator_onStacks hi ha hk hp
  | opening hopening => exact openParenthesis_onStacks ha hopening
  | closing hclosing hopen => exact closeParenthesis_onStacks hi ha hclosing hopen
  | stuck hstuck =>
    constructor
    · intro hfail
      cases hfail
    · rintro ⟨d', ht, -⟩
      exact absurd ht (not_take_of_fitsNowhere hstuck)

/-! ## From step to step -/

theorem endsBefore_iff_extent {depth : Nat} {t : Token} (rest : List Token) :
    EndsBefore depth t ↔ extent depth (t :: rest) = [] := by
  unfold EndsBefore
  constructor
  · rintro (h | h | ⟨h, rfl⟩)
    · simp [extent, h]
    · simp [extent, h]
    · have hopen : t.isDelimiter "(" = false := by simp_all [Token.isDelimiter, Token.is]
      simp [extent, h, hopen]
  · intro h
    rw [extent] at h
    split at h
    · next h' =>
      rcases Bool.or_eq_true_iff.mp h' with h' | h'
      · exact .inl h'
      · exact .inr (.inl h')
    · split at h
      · cases h
      · split at h
        · next h' =>
          split at h
          · next h0 => exact .inr (.inr ⟨h', h0⟩)
          · cases h
        · cases h

theorem extent_take {t : Token} (rest : List Token) (ht : Take symbols t d d') :
    extent (parentheses d.waiting) (t :: rest) = t :: extent (parentheses d'.waiting) rest := by
  have hend : t.endsStatement = false := by
    have := take_kind ht
    simp [Token.endsStatement, this]
  have hplain : (∀ a, t.isDelimiter a = false) → parentheses d'.waiting = parentheses d.waiting →
      extent (parentheses d.waiting) (t :: rest) = t :: extent (parentheses d'.waiting) rest := by
    intro hd hc
    simp [extent, hend, hd, hc]
  have hoperator : ∀ {a : String}, t.isOperator a → ∀ b, t.isDelimiter b = false :=
    fun h b => Bool.eq_false_iff.mpr fun hb => Token.not_isOperator_of_isDelimiter hb _ h
  cases ht with
  | operand hn => exact hplain (fun a => Bool.eq_false_iff.mpr (hn.not_delimiter a)) rfl
  | opening h =>
    have hcomma : t.isDelimiter "," = false := by simp_all [Token.isDelimiter, Token.is]
    simp [extent, hend, hcomma, h]
  | @before ws o h hb =>
    exact hplain (hoperator h) (parentheses_cons ws (not_parenthesis_of_standsBefore hb))
  | @closing ws rest' p q a h hs =>
    have hcomma : t.isDelimiter "," = false := by simp_all [Token.isDelimiter, Token.is]
    have hopen : t.isDelimiter "(" = false := by simp_all [Token.isDelimiter, Token.is]
    have hcount := parentheses_settle p (spares_notParenthesis ws)
    rw [hs, parentheses_parenthesis] at hcount
    simp [extent, hend, hcomma, hopen, h, ← hcount]
  | behind h => exact hplain (hoperator h) rfl
  | @between ws rest' p q o h hb hs =>
    have hcount := parentheses_settle p (spares_bindsBefore hb ws)
    rw [hs] at hcount
    exact hplain (hoperator h)
      ((parentheses_cons rest' (not_parenthesis_of_standsBetween hb)).trans hcount)

theorem afterVariable_take {t : Token} (ht : Take symbols t d d') :
    afterVariable d'.last = isVariable symbols t := by
  have hkind : t.kind ≠ .identifier → isVariable symbols t = false := by
    intro h
    simp [isVariable, h]
  cases ht with
  | operand hn =>
    cases hn with
    | literal h => rw [hkind (by simp [h])]; rfl
    | var hk hv | reference hk hv => simp [afterVariable, isVariable, hk, hv]
  | opening h | before h | closing h | behind h | between h =>
    simp only [Token.isDelimiter, Token.isOperator, Token.is, Bool.and_eq_true, beq_iff_eq] at h
    rw [hkind (by simp [h.1])]
    rfl

theorem Waiting.assignsVariables_of_fill {w : Waiting} {p : Phrase} (hw : ¬ w.IsParenthesis)
    (h : (w.fill p).AssignsVariables) : w.AssignsVariables := by
  cases w with
  | parenthesis | before => trivial
  | between => exact h.2.1

/-- What the last phrase takes in assigns to variables if the outcome does. -/
theorem assignsVariables_waiting {ready : Operator → Bool} {ws : List Waiting} {p : Phrase}
    (hr : Spares ready ws) (hws : ∀ w ∈ (settle ready ws p).1, w.AssignsVariables)
    (hp : (settle ready ws p).2.AssignsVariables) : ∀ w ∈ ws, w.AssignsVariables := by
  induction ws generalizing p with
  | nil => exact List.forall_mem_nil _
  | cons w ws ih =>
    cases hready : ready w.operator with
    | true =>
      rw [settle, if_pos hready] at hws hp
      have htail := ih (fun v hv => hr v (List.mem_cons_of_mem w hv)) hws hp
      have hhead := Waiting.assignsVariables_of_fill (hr w List.mem_cons_self hready)
        (assignsVariables_of_settle hp)
      exact List.forall_mem_cons.mpr ⟨hhead, htail⟩
    | false =>
      rw [settle, if_neg (by simp [hready])] at hws
      exact hws

theorem assignsVariables_settle {ready : Operator → Bool} {ws : List Waiting} {p : Phrase}
    (hr : Spares ready ws) (hws : ∀ w ∈ (settle ready ws p).1, w.AssignsVariables)
    (hp : (settle ready ws p).2.AssignsVariables) : AssignsVariables ⟨ws, some p⟩ where
  waiting := assignsVariables_waiting hr hws hp
  last _ h := Option.some.inj h ▸ assignsVariables_of_settle hp

theorem assignsVariables_take {t : Token} (ht : Take symbols t d d') (h : d'.AssignsVariables) :
    d.AssignsVariables := by
  cases ht with
  | operand => exact ⟨h.waiting, nofun⟩
  | opening | before => exact ⟨fun w hw => h.waiting w (List.mem_cons_of_mem _ hw), nofun⟩
  | @closing ws rest p q a hk hs =>
    refine assignsVariables_settle (spares_notParenthesis ws) ?_ ?_
    · rw [hs]
      rintro w (_ | ⟨_, hw⟩)
      · trivial
      · exact h.waiting w hw
    · rw [hs]
      exact h.last (.enclosed a q t) rfl
  | behind =>
    refine ⟨h.waiting, ?_⟩
    rintro _ ⟨⟩
    trivial
  | @between ws rest p q o hk hb hs =>
    refine assignsVariables_settle (spares_bindsBefore hb ws) ?_ ?_
    · rw [hs]
      exact fun w hw => h.waiting w (List.mem_cons_of_mem _ hw)
    · rw [hs]
      exact h.waiting _ List.mem_cons_self

theorem assignsVariables_reads {ts : List Token} (hr : Reads symbols d ts d')
    (h : d'.AssignsVariables) : d.AssignsVariables := by
  induction hr with
  | nil => exact h
  | cons ht _ ih => exact assignsVariables_take ht (ih h)

theorem head?_extent {depth : Nat} {t : Token} (rest : List Token) (h : ¬ EndsBefore depth t) :
    (extent depth (t :: rest)).head? = some t := by
  unfold EndsBefore at h
  simp only [not_or, not_and] at h
  rw [extent, if_neg (by simp [h.1, h.2.1])]
  by_cases hopen : t.isDelimiter "("
  · simp [hopen]
  · by_cases hclose : t.isDelimiter ")"
    · simp [hopen, hclose, h.2.2 hclose]
    · simp [hopen, hclose]

/-- Where the expression ends, no variable comes next. -/
theorem head_extent (depth : Nat) (s : TokenStream) :
    (∃ next ∈ (extent depth s.tokens).head?, isVariable symbols next) ↔
      isVariable symbols s.current := by
  by_cases h : EndsBefore depth s.current
  · have hk : s.current.kind ≠ .identifier := by
      rcases h with h | h | ⟨h, _⟩ <;>
        simp only [Token.endsStatement, Token.isDelimiter, Token.is, Bool.or_eq_true,
          Bool.and_eq_true, beq_iff_eq] at h
      · rcases h with h | h <;> simp [h]
      · simp [h.1]
      · simp [h.1]
    rw [TokenStream.tokens, (endsBefore_iff_extent s.rest).mp h]
    simp [isVariable, hk]
  · rw [TokenStream.tokens, head?_extent s.rest h]
    simp

/-- The rest of the extent is that of the next draft, whose parentheses may be others. -/
theorem extent_step {d₁ : Draft} (hs : s.EndsAhead) (hk : s.current.kind ≠ .endOfFile)
    (ht : Take symbols s.current d d₁) :
    extent (parentheses d.waiting) s.tokens =
      s.current :: extent (parentheses d₁.waiting) s.advance.tokens := by
  rw [TokenStream.tokens_advance hs hk]
  exact extent_take _ ht

theorem stepsFit_step {d₁ : Draft} (hs : s.EndsAhead) (hk : s.current.kind ≠ .endOfFile)
    (ht : Take symbols s.current d d₁) :
    StepsFit symbols (afterVariable d.last) (extent (parentheses d.waiting) s.tokens) ↔
      StepFits symbols d s ∧ StepsFit symbols (afterVariable d₁.last)
        (extent (parentheses d₁.waiting) s.advance.tokens) := by
  rw [extent_step hs hk ht, StepsFit, head_extent, afterVariable_take ht]
  rfl

/-- With as many steps as there are tokens, an expression reads its whole extent. -/
theorem steps_onStacks {n : Nat} (hn : s.tokens.length ≤ n) (hs : s.EndsAhead)
    (hp : ∀ t ∈ s.tokens, PlainOperator t) (hi : Invariant symbols d) (ha : d.AssignsVariables) :
    steps symbols n (d.onStacks s) = .ok () e' ↔
      ∃ d', Reads symbols d (extent (parentheses d.waiting) s.tokens) d' ∧ d'.AssignsVariables ∧
        StepsFit symbols (afterVariable d.last) (extent (parentheses d.waiting) s.tokens) ∧
        e' = d'.onStacks
          (TokenStream.advance^[(extent (parentheses d.waiting) s.tokens).length] s) := by
  induction n generalizing d s with
  | zero => simp [TokenStream.tokens] at hn
  | succ n ih =>
    have hsplit : steps symbols (n + 1) (d.onStacks s) = .ok () e' ↔
        ∃ b e₁, step symbols (d.onStacks s) = .ok b e₁ ∧
          (if b then steps symbols n else pure ()) e₁ = .ok () e' := Execution.bind_eq_ok
    rw [hsplit]
    by_cases hend : EndsBefore (parentheses d.waiting) s.current
    · have hnil : extent (parentheses d.waiting) s.tokens = [] :=
        (endsBefore_iff_extent s.rest).mp hend
      rw [step_of_endsBefore hend, hnil]
      constructor
      · rintro ⟨_, _, ⟨⟩, ⟨⟩⟩
        exact ⟨d, .nil d, ha, trivial, rfl⟩
      · rintro ⟨_, hr, _, _, rfl⟩
        cases hr
        exact ⟨false, _, rfl, rfl⟩
    · have hk : s.current.kind ≠ .endOfFile := by
        intro hk
        exact hend (.inl (by simp [Token.endsStatement, hk]))
      have htokens := TokenStream.tokens_advance hs hk
      have hlength : s.advance.tokens.length ≤ n := by
        rw [htokens] at hn
        simpa using hn
      have hpadv : ∀ t ∈ s.advance.tokens, PlainOperator t := by
        intro t ht
        exact hp t (htokens ▸ List.mem_cons_of_mem _ ht)
      have hrec := fun {d₁ : Draft} (ht : Take symbols s.current d d₁) (ha₁ : d₁.AssignsVariables) =>
        ih hlength hs.advance hpadv (ht.invariant hi) ha₁
      simp only [step_onStacks hi ha (hp _ List.mem_cons_self) hend]
      constructor
      · rintro ⟨_, _, ⟨rfl, d₁, ht, ha₁, hfit, rfl⟩, h⟩
        obtain ⟨d', hr, ha', hfit', rfl⟩ := (hrec ht ha₁).mp h
        refine ⟨d', ?_, ha', (stepsFit_step hs hk ht).mpr ⟨hfit, hfit'⟩, ?_⟩
        · rw [extent_step hs hk ht]
          exact .cons ht hr
        · rw [extent_step hs hk ht]
          rfl
      · rintro ⟨d', hr, ha', hfit, he⟩
        have hhead := head?_extent s.rest hend
        change (extent (parentheses d.waiting) s.tokens).head? = some s.current at hhead
        obtain ⟨ts, hread⟩ := List.head?_eq_some_iff.mp hhead
        rw [hread] at hr
        cases hr with
        | @cons _ d₁ _ _ _ ht hr =>
          obtain rfl := (List.cons.inj (hread.symm.trans (extent_step hs hk ht))).2
          have ha₁ := assignsVariables_reads hr ha'
          obtain ⟨hfit, hfit'⟩ := (stepsFit_step hs hk ht).mp hfit
          refine ⟨true, _, ⟨rfl, d₁, ht, ha₁, hfit, rfl⟩,
            (hrec ht ha₁).mpr ⟨d', hr, ha', hfit', ?_⟩⟩
          rw [he, hread]
          rfl

/-! ## The end of the expression -/

/-- Every operator with two operands uses up one of them for good. -/
theorem length_reduceWhile {operators : List PendingOperator} {e : Expression}
    (h : reduceWhile (fun _ => true) operators e = .ok () e') :
    e.operands.length =
      e'.operands.length + operators.countP fun o => !o.operator.isUnary := by
  induction operators generalizing e with
  | nil =>
    cases h
    rfl
  | cons top below ih =>
    obtain ⟨e₁, h₁, h₂⟩ := (reduceWhile_of_ready rfl).mp h
    have hred := (length_reduce h₁).2.2
    have hrest := ih h₂
    rw [List.countP_cons]
    cases hu : top.operator.isUnary with
    | true =>
      simp only [hu, if_true, Nat.add_zero] at hred
      simp only [Bool.not_true, Bool.false_eq_true, if_false, Nat.add_zero]
      exact hred.trans hrest
    | false =>
      simp only [hu, Bool.false_eq_true, if_false] at hred
      simp only [Bool.not_false, if_true]
      omega

theorem Chain.sound {ws : List Waiting} (h : Chain symbols ws) : ∀ w ∈ ws, Sound symbols w := by
  induction h with
  | nil => exact List.forall_mem_nil _
  | cons hs _ _ ih => exact List.forall_mem_cons.mpr ⟨hs, ih⟩

/-- What waits with a left operand has put it on the stack. -/
theorem length_operand? {w : Waiting} (h : Sound symbols w) :
    w.operand?.toList.length = if w.operator.takesTwo then 1 else 0 := by
  cases h with
  | parenthesis => rfl
  | @before t o _ ho =>
    have htwo : o.takesTwo = false := by simp [Operator.takesTwo, isUnary_of_standsBefore ho]
    simp [Waiting.operand?, Waiting.operator, htwo]
  | @between l t o _ _ _ _ ho =>
    have hother : o ≠ .openParenthesis := by
      rintro rfl
      cases ho
    have htwo : o.takesTwo = true := by simp [Operator.takesTwo, not_isUnary_of_standsBetween ho, hother]
    simp [Waiting.operand?, Waiting.operator, htwo]

/-- Nothing but the operators with two operands has put an operand on the stack. -/
theorem length_operandsOf {ws : List Waiting} (h : ∀ w ∈ ws, Sound symbols w) :
    (operandsOf ws).length = (ws.map Waiting.pending).countP (·.operator.takesTwo) := by
  induction ws with
  | nil => rfl
  | cons w ws ih =>
    obtain ⟨hw, hws⟩ := List.forall_mem_cons.mp h
    rw [operandsOf_cons, List.length_append, length_operand? hw, ih hws, List.map_cons, List.countP_cons,
      Waiting.operator_pending, Nat.add_comm]

theorem countP_not_isUnary {operators : List PendingOperator}
    (h : ∀ top ∈ operators, top.operator ≠ .openParenthesis) :
    (operators.countP fun o => !o.operator.isUnary) = operators.countP (·.operator.takesTwo) :=
  List.countP_congr fun top htop => by simp [Operator.takesTwo, h top htop]

theorem parentheses_eq_zero {ws : List Waiting} :
    parentheses ws = 0 ↔ ∀ w ∈ ws, ¬ w.IsParenthesis := by
  simp [parentheses]

/-- Without a last operand there is one operand too few for the operators that wait. -/
theorem not_finish_of_none {ws : List Waiting} {e₁ : Expression} {n : Node}
    (hc : Chain symbols ws) (hp : ∀ w ∈ ws, ¬ w.IsParenthesis)
    (h : reduceWhile (fun _ => true) (ws.map Waiting.pending) (onStacks ⟨ws, none⟩ s) = .ok () e₁) :
    e₁.operands ≠ [n] := by
  intro hn
  have hlength := length_reduceWhile h
  have hwaiting := length_operandsOf hc.sound
  have hother : ∀ top ∈ ws.map Waiting.pending, top.operator ≠ .openParenthesis := by
    intro top htop
    obtain ⟨w, hw, rfl⟩ := List.mem_map.mp htop
    rw [Waiting.operator_pending]
    exact hp w hw
  change (operandsOf ws).length = _ at hlength
  rw [hn, List.length_singleton, countP_not_isUnary hother] at hlength
  omega

theorem finish_onStacks {n : Node} (hi : Invariant symbols d) (ha : d.AssignsVariables) :
    finish (d.onStacks s) = .ok n e' ↔
      ∃ p, d.Yields p ∧ p.AssignsVariables ∧ n = p.node ∧
        e' = { d.onStacks s with operands := [], operators := [] } := by
  obtain ⟨ws, last⟩ := d
  have hp : (onStacks ⟨ws, last⟩ s).parentheses = 0 ↔ ∀ w ∈ ws, ¬ w.IsParenthesis :=
    parentheses_eq_zero
  rw [finish_eq_ok, hp]
  cases last with
  | none =>
    constructor
    · rintro ⟨hnone, e₁, h, hn, _⟩
      exact absurd hn (not_finish_of_none hi.chain hnone h)
    · rintro ⟨_, ⟨_, hq, _⟩, _⟩
      cases hq
  | some q =>
    have hwhile := fun (hnone : ∀ w ∈ ws, ¬ w.IsParenthesis) (e₁ : Expression) =>
      @reduceWhile_onStacks symbols (onStacks ⟨ws, some q⟩ s) e₁ (fun _ => true) ws q hi ha
        (fun w hw _ => hnone w hw) (fun _ _ => rfl) rfl rfl
    simp only [settle_all] at hwhile
    constructor
    · rintro ⟨hnone, e₁, h, hn, rfl⟩
      obtain ⟨ha', rfl⟩ := (hwhile hnone e₁).mp h
      exact ⟨_, ⟨q, rfl, hnone, rfl⟩, ha', (List.cons.inj hn).1.symm, rfl⟩
    · rintro ⟨_, ⟨_, ⟨⟩, hnone, rfl⟩, ha', rfl, rfl⟩
      exact ⟨hnone, _, (hwhile hnone _).mpr ⟨ha', rfl⟩, rfl, rfl⟩

theorem tree_eq_ok {n : Node} (hs : s.EndsAhead) (hp : ∀ t ∈ s.tokens, PlainOperator t) :
    tree symbols (.start s) = .ok n e' ↔
      ∃ d p, Reads symbols start (extent 0 s.tokens) d ∧ d.Yields p ∧
        StepsFit symbols false (extent 0 s.tokens) ∧ p.AssignsVariables ∧ n = p.node ∧
        e' = { d.onStacks (TokenStream.advance^[(extent 0 s.tokens).length] s) with
          operands := [], operators := [] } := by
  have hstart : AssignsVariables start := ⟨List.forall_mem_nil _, nofun⟩
  have hsteps := fun e₁ =>
    @steps_onStacks symbols start s e₁ _ (Nat.le_refl _) hs hp invariant_start hstart
  have htree : tree symbols (.start s) = .ok n e' ↔
      ∃ e₁, steps symbols s.tokens.length (start.onStacks s) = .ok () e₁ ∧
        finish e₁ = .ok n e' := Execution.bind_unit_eq_ok
  rw [htree]
  constructor
  · rintro ⟨e₁, h₁, h₂⟩
    obtain ⟨d, hr, ha, hfit, rfl⟩ := (hsteps e₁).mp h₁
    obtain ⟨p, hy, hpa, hn, he⟩ := (finish_onStacks (hr.invariant invariant_start) ha).mp h₂
    exact ⟨d, p, hr, hy, hfit, hpa, hn, he⟩
  · rintro ⟨d, p, hr, hy, hfit, hpa, hn, he⟩
    have ha : d.AssignsVariables := by
      obtain ⟨q, hq, hnone, rfl⟩ := hy
      obtain ⟨ws, last⟩ := d
      obtain rfl : last = some q := hq
      refine assignsVariables_settle (fun w hw _ => hnone w hw) ?_ hpa
      rw [settle_all]
      exact List.forall_mem_nil _
    exact ⟨_, (hsteps _).mpr ⟨d, hr, ha, hfit, rfl⟩,
      (finish_onStacks (hr.invariant invariant_start) ha).mpr ⟨p, hy, hpa, hn, he⟩⟩

end Draft

namespace Parse

open Draft

/-- The tree of an expression is that of the phrase that its extent comes to. -/
theorem expressionTree_eq_ok {p p' : Parser} {n : Node} (hs : p.stream.EndsAhead)
    (hp : ∀ t ∈ p.stream.tokens, PlainOperator t) :
    expressionTree p = .ok n p' ↔
      ∃ q, Parses p.symbols (extent 0 p.stream.tokens) q ∧
        StepsFit p.symbols false (extent 0 p.stream.tokens) ∧ q.AssignsVariables ∧ n = q.node ∧
        p' = { p with
          stream := TokenStream.advance^[(extent 0 p.stream.tokens).length] p.stream
          operands := []
          operators := [] } := by
  have htree := fun e' => @tree_eq_ok p.symbols p.stream e' n hs hp
  unfold expressionTree
  constructor
  · intro h
    cases ht : Expression.tree p.symbols (.start p.stream) with
    | error d e' => simp [ht] at h
    | ok m e' =>
      simp only [ht, EStateM.Result.ok.injEq] at h
      obtain ⟨rfl, rfl⟩ := h
      obtain ⟨d, q, hr, hy, hfit, ha, hn, rfl⟩ := (htree e').mp ht
      exact ⟨q, ⟨d, hr, hy⟩, hfit, ha, hn, rfl⟩
  · rintro ⟨q, ⟨d, hr, hy⟩, hfit, ha, hn, rfl⟩
    rw [(htree _).mpr ⟨d, q, hr, hy, hfit, ha, hn, rfl⟩]
    rfl

end Parse

end Offside
