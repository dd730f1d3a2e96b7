import Offside.Proofs.Derivation
import Offside.Proofs.ExpressionGrammar

/-!
# Reading the parts of a line

What each action of the parser that stays inside of a line passes over, and what it has read there.
-/

namespace Offside

set_option autoImplicit false

open Rules Execution

theorem endsStatement_extent {depth : Nat} {ts : List Token} :
    ∀ t ∈ extent depth ts, t.endsStatement = false := by
  induction ts generalizing depth with
  | nil => exact List.forall_mem_nil _
  | cons t ts ih =>
    rw [extent]
    split
    · exact List.forall_mem_nil _
    · next h =>
      have ht : t.endsStatement = false := by simp_all
      split
      · exact List.forall_mem_cons.mpr ⟨ht, ih⟩
      · split
        · split
          · exact List.forall_mem_nil _
          · exact List.forall_mem_cons.mpr ⟨ht, ih⟩
        · exact List.forall_mem_cons.mpr ⟨ht, ih⟩

theorem extent_cons (depth : Nat) (t : Token) (ts : List Token) :
    extent depth (t :: ts) = [] ∨ ∃ depth', extent depth (t :: ts) = t :: extent depth' ts := by
  rw [extent]
  split
  · exact .inl rfl
  · split
    · exact .inr ⟨_, rfl⟩
    · split
      · split
        · exact .inl rfl
        · exact .inr ⟨_, rfl⟩
      · exact .inr ⟨_, rfl⟩

theorem tokens_advance_extent {depth : Nat} {s : TokenStream} (hs : s.EndsAhead) :
    s.tokens = extent depth s.tokens ++
      (TokenStream.advance^[(extent depth s.tokens).length] s).tokens := by
  induction hn : s.tokens.length using Nat.strongRecOn generalizing depth s with
  | ind n ih =>
    rcases extent_cons depth s.current s.rest with h | ⟨depth', h⟩
    · change extent depth s.tokens = [] at h
      rw [h]
      rfl
    · change extent depth s.tokens = s.current :: extent depth' s.rest at h
      have hk : s.current.kind ≠ .endOfFile := by
        intro hk
        have := endsStatement_extent s.current (h ▸ List.mem_cons_self)
        simp [Token.endsStatement, hk] at this
      have htokens := TokenStream.tokens_advance hs hk
      have hrest : s.rest = s.advance.tokens := (List.cons.inj htokens).2
      have hlt : s.advance.tokens.length < n := by
        rw [← hn, htokens]
        exact Nat.lt_succ_self _
      rw [h, hrest]
      refine htokens.trans (congrArg (s.current :: ·) ?_)
      exact ih _ hlt hs.advance rfl

namespace Parser

/-- The tokens ahead are the last ones of a source text. -/
def InSource (p : Parser) : Prop := ∃ all, Lined none all ∧ p.stream.tokens <:+ all

/-- Between two places of a line the parser passes over `ts`, and the names are those of `symbols`. -/
structure Passes (p : Parser) (ts : List Token) (symbols : SymbolTable) (p' : Parser) : Prop where
  tokens : p.stream.tokens = ts ++ p'.stream.tokens
  words : ∀ t ∈ ts, t.endsStatement = false
  symbols : p'.symbols = symbols
  level : p'.level = p.level
  next : p'.nextFunction = p.nextFunction

theorem Passes.refl (p : Parser) : p.Passes [] p.symbols p :=
  ⟨rfl, List.forall_mem_nil _, rfl, rfl, rfl⟩

theorem Passes.trans {p p₁ p₂ : Parser} {ts us : List Token} {s₁ s₂ : SymbolTable}
    (h₁ : p.Passes ts s₁ p₁) (h₂ : p₁.Passes us s₂ p₂) : p.Passes (ts ++ us) s₂ p₂ where
  tokens := by rw [h₁.tokens, h₂.tokens, List.append_assoc]
  words := List.forall_mem_append.mpr ⟨h₁.words, h₂.words⟩
  symbols := h₂.symbols
  level := h₂.level.trans h₁.level
  next := h₂.next.trans h₁.next

theorem InSource.of_suffix {p p' : Parser} (h : p.InSource)
    (hs : p'.stream.tokens <:+ p.stream.tokens) : p'.InSource := by
  obtain ⟨all, hall, hp⟩ := h
  exact ⟨all, hall, hs.trans hp⟩

theorem Passes.inSource {p p' : Parser} {ts : List Token} {s : SymbolTable}
    (h : p.Passes ts s p') (hp : p.InSource) : p'.InSource :=
  hp.of_suffix ⟨ts, h.tokens.symm⟩

theorem InSource.endsAhead {p : Parser} (h : p.InSource) : p.stream.EndsAhead := by
  obtain ⟨all, hall, hp⟩ := h
  exact hall.endsAhead hp

theorem InSource.plainOperator {p : Parser} (h : p.InSource) :
    ∀ t ∈ p.stream.tokens, PlainOperator t := by
  obtain ⟨all, hall, hp⟩ := h
  exact fun t ht => hall.plainOperator t (hp.subset ht)

theorem InSource.passes {p : Parser} (h : p.InSource)
    (hw : p.stream.current.endsStatement = false) :
    p.Passes [p.stream.current] p.symbols { p with stream := p.stream.advance } where
  tokens := TokenStream.tokens_advance h.endsAhead (by simp_all [Token.endsStatement])
  words := by simpa using hw
  symbols := rfl
  level := rfl
  next := rfl

end Parser

namespace Parse

variable {p p' : Parser} {t : Token}

theorem current_bind {α : Type} (f : Token → Parse α) (p : Parser) :
    (current >>= f) p = f p.stream.current p := rfl

theorem fail_apply {α : Type} (fault : Fault) (p : Parser) :
    (fail fault : Parse α) p = .error ⟨fault, p.stream.current.location⟩ p := rfl

theorem accept_apply (kind : Token.Kind) (p : Parser) :
    accept kind p =
      if p.stream.current.kind = kind then
        .ok (some p.stream.current) { p with stream := p.stream.advance }
      else .ok none p := by
  unfold accept
  rw [current_bind]
  split <;> rfl

theorem acceptDelimiter_apply (text : String) (p : Parser) :
    acceptDelimiter text p =
      if p.stream.current.isDelimiter text then .ok true { p with stream := p.stream.advance }
      else .ok false p := by
  unfold acceptDelimiter
  rw [current_bind]
  split <;> rfl

theorem acceptOperator_apply (text : String) (p : Parser) :
    acceptOperator text p =
      if p.stream.current.isOperator text then .ok true { p with stream := p.stream.advance }
      else .ok false p := by
  unfold acceptOperator
  rw [current_bind]
  split <;> rfl

theorem endsStatement_of_isDelimiter {text : String} (h : t.isDelimiter text) :
    t.endsStatement = false := by
  simp_all [Token.isDelimiter, Token.is, Token.endsStatement]

theorem endsStatement_of_isOperator {text : String} (h : t.isOperator text) :
    t.endsStatement = false := by
  simp_all [Token.isOperator, Token.is, Token.endsStatement]

theorem accept_some (hp : p.InSource) (h : accept .identifier p = .ok (some t) p') :
    t.kind = .identifier ∧ p.Passes [t] p.symbols p' := by
  rw [accept_apply] at h
  split at h
  · next hk =>
    cases h
    exact ⟨hk, hp.passes (by simp [Token.endsStatement, hk])⟩
  · cases h

theorem accept_none {kind : Token.Kind} (h : accept kind p = .ok none p') : p' = p := by
  rw [accept_apply] at h
  split at h
  · cases h
  · cases h
    rfl

theorem acceptDelimiter_true {text : String} (hp : p.InSource)
    (h : acceptDelimiter text p = .ok true p') :
    ∃ t, t.isDelimiter text ∧ p.Passes [t] p.symbols p' := by
  rw [acceptDelimiter_apply] at h
  split at h
  · next hd =>
    cases h
    exact ⟨_, hd, hp.passes (endsStatement_of_isDelimiter hd)⟩
  · cases h

theorem acceptDelimiter_false {text : String} (h : acceptDelimiter text p = .ok false p') :
    p' = p := by
  rw [acceptDelimiter_apply] at h
  split at h
  · cases h
  · cases h
    rfl

theorem acceptOperator_true {text : String} (hp : p.InSource)
    (h : acceptOperator text p = .ok true p') :
    ∃ t, t.isOperator text ∧ p.Passes [t] p.symbols p' := by
  rw [acceptOperator_apply] at h
  split at h
  · next ho =>
    cases h
    exact ⟨_, ho, hp.passes (endsStatement_of_isOperator ho)⟩
  · cases h

theorem acceptOperator_false {text : String} (h : acceptOperator text p = .ok false p') :
    p' = p := by
  rw [acceptOperator_apply] at h
  split at h
  · cases h
  · cases h
    rfl

theorem expect_ok {kind : Token.Kind} {what : String} (h : expect kind what p = .ok t p') :
    accept kind p = .ok (some t) p' := by
  obtain ⟨o, p₁, ho, h⟩ := bind_eq_ok.mp h
  cases o with
  | none => cases h
  | some u =>
    cases h
    exact ho

theorem expectDelimiter_ok {text : String} (h : expectDelimiter text p = .ok () p') :
    acceptDelimiter text p = .ok true p' := by
  obtain ⟨b, p₁, hb, h⟩ := bind_eq_ok.mp h
  cases b with
  | false => cases h
  | true =>
    cases h
    exact hb

theorem liftExcept_ok {α : Type} {x : Except Diagnostic α} {a : α}
    (h : liftExcept x p = .ok a p') : x = .ok a ∧ p' = p := by
  cases x with
  | error => cases h
  | ok =>
    cases h
    exact ⟨rfl, rfl⟩

theorem declare_ok {i : Identifier} (h : declare i p = .ok () p') :
    ∃ symbols, p.symbols.declare? i = some symbols ∧ p.Passes [] symbols p' := by
  unfold declare at h
  rw [get_bind] at h
  cases hs : p.symbols.declare? i with
  | none =>
    simp only [hs] at h
    cases h
  | some symbols =>
    simp only [hs] at h
    cases h
    exact ⟨symbols, rfl, rfl, List.forall_mem_nil _, rfl, rfl, rfl⟩

/-! ## Expressions -/

theorem expression_passes {n : Node} (hp : p.InSource) (h : expression p = .ok n p') :
    ∃ ts, Expressed p.symbols ts n ∧ p.Passes ts p.symbols p' := by
  obtain ⟨m, p₁, hm, h⟩ := bind_eq_ok.mp h
  obtain ⟨hfold, rfl⟩ := liftExcept_ok h
  obtain ⟨q, hq, hfits, ha, rfl, rfl⟩ :=
    (expressionTree_eq_ok hp.endsAhead hp.plainOperator).mp hm
  obtain ⟨hg, hb, hts⟩ := Draft.parses_iff.mp hq
  exact ⟨_, ⟨q, hg, hb, hts, hfits, ha, hfold⟩,
    tokens_advance_extent hp.endsAhead, endsStatement_extent, rfl, rfl, rfl⟩

/-! ## Declarations -/

theorem declarationHead_passes {head : DeclarationHead} (hp : p.InSource)
    (h : declarationHead p = .ok head p') :
    ∃ ts, Head ts head ∧ p.Passes ts p.symbols p' := by
  obtain ⟨name, p₁, hname, r₁⟩ := bind_eq_ok.mp h
  obtain ⟨hk, h₁⟩ := accept_some hp (expect_ok hname)
  obtain ⟨_, p₂, hcolon, r₂⟩ := bind_eq_ok.mp r₁
  obtain ⟨colon, hc, h₂⟩ := acceptDelimiter_true (h₁.inSource hp) (expectDelimiter_ok hcolon)
  rw [h₁.symbols] at h₂
  have h₁₂ := h₁.trans h₂
  obtain ⟨o, p₃, ho, r₃⟩ := bind_eq_ok.mp r₂
  cases o with
  | none =>
    obtain rfl := accept_none ho
    cases r₃
    exact ⟨_, .auto hk hc, h₁₂⟩
  | some t =>
    obtain ⟨ht, h₃⟩ := accept_some (h₁₂.inSource hp) ho
    rw [h₁₂.symbols] at h₃
    obtain ⟨type, p₄, htype, r₄⟩ := bind_eq_ok.mp r₃
    obtain ⟨hname, rfl⟩ := liftExcept_ok htype
    cases r₄
    exact ⟨_, .typed hk hc ht hname, h₁₂.trans h₃⟩

theorem declareValue_passes {head : DeclarationHead} {declared : Declared} {n : Node}
    (hp : p.InSource) (h : declareValue head declared p = .ok n p') :
    ∃ ts value type symbols, Expressed p.symbols ts value ∧
      value.typeAs head.type head.typeLocation = .ok type ∧
      n = .binary .assignment
        (declared.identifier head.name.text type head.name.location).toNode value
        head.name.location ∧
      p.symbols.declare? (declared.identifier head.name.text type head.name.location) =
        some symbols ∧
      p.Passes ts symbols p' := by
  obtain ⟨value, p₁, hvalue, r₁⟩ := bind_eq_ok.mp h
  obtain ⟨ts, he, h₁⟩ := expression_passes hp hvalue
  obtain ⟨type, p₂, hlift, r₂⟩ := bind_eq_ok.mp r₁
  obtain ⟨htype, rfl⟩ := liftExcept_ok hlift
  obtain ⟨_, p₃, hdeclare, r₃⟩ := bind_eq_ok.mp r₂
  obtain ⟨symbols, hs, h₂⟩ := declare_ok hdeclare
  rw [h₁.symbols] at hs
  cases r₃
  have h₁₂ := h₁.trans h₂
  rw [List.append_nil] at h₁₂
  exact ⟨ts, value, type, symbols, he, htype, rfl, hs, h₁₂⟩

/-- Behind its head, a declaration reads the rest of what it declares. -/
def ReadsDeclared (p : Parser) (d : Declared) (head : DeclarationHead) (n : Node) (p' : Parser) :
    Prop :=
  ∃ us i symbols, (∀ ts, Head ts head → Declares p.symbols d (ts ++ us) n i) ∧
    p.symbols.declare? i = some symbols ∧ p.Passes us symbols p'

theorem ReadsDeclared.value {p₁ : Parser} {d declared : Declared} {head : DeclarationHead}
    {n : Node} (hp : p.InSource) (ht : Separates d t declared) (h₁ : p.Passes [t] p.symbols p₁)
    (h : declareValue head declared p₁ = .ok n p') : ReadsDeclared p d head n p' := by
  obtain ⟨us, value, type, symbols, he, htype, rfl, hs, h₂⟩ :=
    declareValue_passes (h₁.inSource hp) h
  rw [h₁.symbols] at he hs
  exact ⟨_, _, symbols, fun ts hhead => .value hhead ht he htype, hs, h₁.trans h₂⟩

theorem declareVariable_passes {head : DeclarationHead} {n : Node} (d : Declared)
    (hp : p.InSource) (h : declareVariable head p = .ok n p') : ReadsDeclared p d head n p' := by
  obtain ⟨b, p₁, hb, r₁⟩ := bind_eq_ok.mp h
  cases b with
  | true =>
    obtain ⟨t, ht, h₁⟩ := acceptOperator_true hp hb
    exact ReadsDeclared.value hp (.equals ht) h₁ r₁
  | false =>
    obtain rfl := acceptOperator_false hb
    simp only [Bool.false_eq_true, if_false] at r₁
    by_cases hauto : head.type = .auto
    · simp only [hauto] at r₁
      cases r₁
    by_cases hvoid : head.type = .void
    · simp only [hvoid] at r₁
      cases r₁
    let i := Declared.variable.identifier head.name.text head.type head.name.location
    have r₂ : (do declare i; return i.toNode : Parse Node) p₁ = .ok n p' := by
      rw [← r₁]
      simp only [i]
    obtain ⟨_, p₂, hdeclare, r₃⟩ := bind_eq_ok.mp r₂
    obtain ⟨symbols, hs, h₁⟩ := declare_ok hdeclare
    cases r₃
    refine ⟨[], i, symbols, fun ts hhead => ?_, hs, h₁⟩
    rw [List.append_nil]
    exact .bare hhead hauto hvoid

theorem parameter_passes {n : Node} (hp : p.InSource) (h : parameter p = .ok n p') :
    ∃ ts i symbols, Declares p.symbols .constantVariable ts n i ∧
      p.symbols.declare? i = some symbols ∧ p.Passes ts symbols p' := by
  obtain ⟨head, p₁, hhead, r₁⟩ := bind_eq_ok.mp h
  obtain ⟨ts, hts, h₁⟩ := declarationHead_passes hp hhead
  have hp₁ := h₁.inSource hp
  have hread : ReadsDeclared p₁ .constantVariable head n p' := by
    obtain ⟨b, p₂, hb, r₂⟩ := bind_eq_ok.mp r₁
    cases b with
    | true =>
      obtain ⟨t, ht, h₂⟩ := acceptDelimiter_true hp₁ hb
      exact .value hp₁ (.colon ht) h₂ r₂
    | false =>
      obtain rfl := acceptDelimiter_false hb
      exact declareVariable_passes _ hp₁ r₂
  obtain ⟨us, i, symbols, hd, hs, h₂⟩ := hread
  rw [h₁.symbols] at hs
  refine ⟨_, i, symbols, ?_, hs, h₁.trans h₂⟩
  rw [← h₁.symbols]
  exact hd ts hts

theorem parametersUpTo_passes {n : Nat} {ns : List Node} (hp : p.InSource)
    (h : parametersUpTo n p = .ok ns p') :
    ∃ ts symbols, Parameters p.symbols ts ns symbols ∧ p.Passes ts symbols p' := by
  induction n generalizing p p' ns with
  | zero => cases h
  | succ n ih =>
    unfold parametersUpTo at h
    rw [get_bind] at h
    cases hstart : p.stream.startsDeclaration with
    | false =>
      simp only [hstart] at h
      cases h
    | true =>
      simp only [hstart, Bool.not_true, Bool.false_eq_true, if_false] at h
      obtain ⟨first, p₁, hfirst, r₁⟩ := bind_eq_ok.mp h
      obtain ⟨ts, i, symbols, hd, hs, h₁⟩ := parameter_passes hp hfirst
      have hp₁ := h₁.inSource hp
      obtain ⟨b, p₂, hb, r₂⟩ := bind_eq_ok.mp r₁
      cases b with
      | false =>
        obtain rfl := acceptDelimiter_false hb
        cases r₂
        exact ⟨ts, symbols, .last hd hs, h₁⟩
      | true =>
        obtain ⟨comma, hc, h₂⟩ := acceptDelimiter_true hp₁ hb
        obtain ⟨more, p₃, hmore, r₃⟩ := bind_eq_ok.mp r₂
        obtain ⟨us, symbols', hus, h₃⟩ := ih (h₂.inSource hp₁) hmore
        cases r₃
        rw [h₂.symbols, h₁.symbols] at hus
        exact ⟨_, symbols', .more hd hs hc hus, h₁.trans (h₂.trans h₃)⟩

theorem parameterList_passes {ns : List Node} (hp : p.InSource)
    (h : (if p.stream.current.isDelimiter ")" then pure []
      else parametersUpTo p.stream.tokens.length) p = .ok ns p') :
    ∃ ts symbols, ParameterList p.symbols ts ns symbols ∧ p.Passes ts symbols p' := by
  split at h
  · cases h
    exact ⟨[], _, .none, .refl _⟩
  · obtain ⟨ts, symbols, hts, h₁⟩ := parametersUpTo_passes hp h
    exact ⟨ts, symbols, .some hts, h₁⟩

theorem parameters_passes {ns : List Node} (hp : p.InSource) (h : parameters p = .ok ns p') :
    ∃ opening ts closing symbols, opening.isDelimiter "(" ∧
      ParameterList p.symbols ts ns symbols ∧ closing.isDelimiter ")" ∧
      p.Passes (opening :: ts ++ [closing]) symbols p' := by
  obtain ⟨_, p₁, hopen, r₁⟩ := bind_eq_ok.mp h
  obtain ⟨opening, ho, h₁⟩ := acceptDelimiter_true hp (expectDelimiter_ok hopen)
  have hp₁ := h₁.inSource hp
  have r₂ : ((if p₁.stream.current.isDelimiter ")" then pure []
      else parametersUpTo p₁.stream.tokens.length) >>= fun nodes => do
        expectDelimiter ")"
        return nodes : Parse (List Node)) p₁ = .ok ns p' := by
    rw [get_bind] at r₁
    rw [← r₁]
    split <;> rfl
  obtain ⟨ns', p₂, hns, r₃⟩ := bind_eq_ok.mp r₂
  obtain ⟨ts, symbols, hts, h₂⟩ := parameterList_passes hp₁ hns
  obtain ⟨_, p₃, hclose, r₄⟩ := bind_eq_ok.mp r₃
  obtain ⟨closing, hc, h₃⟩ := acceptDelimiter_true (h₂.inSource hp₁) (expectDelimiter_ok hclose)
  cases r₄
  rw [h₁.symbols] at hts
  rw [h₂.symbols] at h₃
  exact ⟨opening, ts, closing, symbols, ho, hts, hc, h₁.trans (h₂.trans h₃)⟩

theorem resultType_passes {declared returns : DataType} (hp : p.InSource)
    (h : resultType declared p = .ok returns p') :
    ∃ ts, ResultType declared ts returns ∧ p.Passes ts p.symbols p' := by
  obtain ⟨b, p₁, hb, r₁⟩ := bind_eq_ok.mp h
  cases b with
  | false =>
    obtain rfl := acceptOperator_false hb
    cases r₁
    exact ⟨[], .implied, .refl _⟩
  | true =>
    obtain ⟨arrow, ha, h₁⟩ := acceptOperator_true hp hb
    obtain ⟨⟨type, location⟩, p₂, htype, r₂⟩ := bind_eq_ok.mp r₁
    obtain ⟨t, p₃, ht, r₃⟩ := bind_eq_ok.mp htype
    obtain ⟨hk, h₂⟩ := accept_some (h₁.inSource hp) (expect_ok ht)
    obtain ⟨type', p₄, hlift, r₄⟩ := bind_eq_ok.mp r₃
    obtain ⟨hname, rfl⟩ := liftExcept_ok hlift
    cases r₄
    rw [h₁.symbols] at h₂
    simp only at r₂
    split at r₂
    · cases r₂
    · next hauto =>
      cases r₂
      exact ⟨_, .written ha hk hname hauto, h₁.trans h₂⟩

end Parse

end Offside
