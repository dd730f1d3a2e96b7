import Offside.Compile
import Offside.Proofs.LineReading

/-!
# Reading statements and blocks

Whatever the parser reads, the derivation rules allow: a statement with the help of its blocks, the lines of
a block by the number of the tokens, and blocks by their depth.
-/

namespace Offside

set_option autoImplicit false

open Rules Execution

namespace Parser

def state (p : Parser) : State := ⟨p.stream.tokens, p.symbols, p.nextFunction⟩

/-- The parser reads a construct at its level and comes back to that level. -/
structure Reads (p : Parser) (product : Product) (p' : Parser) : Prop where
  derives : Derives p.level p.state product p'.state
  suffix : p'.stream.tokens <:+ p.stream.tokens
  level : p'.level = p.level

/-- The parser reads a line to its end, behind which the names are those of `symbols`. -/
structure Leaves (p : Parser) (line : List Token) (symbols : SymbolTable) (p' : Parser) : Prop where
  line : TakesLine p.stream.tokens line p'.stream.tokens
  symbols : p'.symbols = symbols
  level : p'.level = p.level
  next : p'.nextFunction = p.nextFunction

theorem Leaves.suffix {p p' : Parser} {line : List Token} {symbols : SymbolTable}
    (h : p.Leaves line symbols p') : p'.stream.tokens <:+ p.stream.tokens :=
  TakesLine.suffix h.line

theorem InSource.keyword {p : Parser} (hp : p.InSource)
    (h : p.stream.current.keyword ≠ none) : p.stream.current.endsStatement = false := by
  obtain ⟨all, hall, hs⟩ := hp
  have hmem : p.stream.current ∈ all := hs.subset List.mem_cons_self
  exact hall.endsStatement_of_keyword _ hmem h

end Parser

namespace Parse

variable {p p' : Parser} {t : Token}

/-! ## The end of a line -/

theorem expectEndOfStatement_leaves {p₁ : Parser} {line : List Token} {symbols : SymbolTable}
    (hp : p.InSource) (h₁ : p.Passes line symbols p₁) (h : expectEndOfStatement p₁ = .ok () p') :
    p.Leaves line symbols p' := by
  obtain ⟨stop, p₂, hstop, r₁⟩ := bind_eq_ok.mp h
  cases r₁
  have haccept := expect_ok hstop
  rw [accept_apply] at haccept
  split at haccept
  · next hk =>
    cases haccept
    refine ⟨⟨h₁.words, p₁.stream.current, hk, ?_⟩, h₁.symbols, h₁.level, h₁.next⟩
    rw [h₁.tokens, TokenStream.tokens_advance (h₁.inSource hp).endsAhead (by simp [hk])]
  · cases haccept

theorem endHeader_leaves {p₁ : Parser} {line : List Token} {symbols : SymbolTable}
    (hp : p.InSource) (h₁ : p.Passes line symbols p₁) (h : endHeader p₁ = .ok () p') :
    p.Leaves line symbols p' := by
  obtain ⟨_, p₂, hend, r₁⟩ := bind_eq_ok.mp h
  have hmore : p' = p₂ := by
    unfold expectMore at r₁
    rw [current_bind] at r₁
    split at r₁
    · cases r₁
    · cases r₁
      rfl
  rw [hmore]
  exact expectEndOfStatement_leaves hp h₁ hend

/-! ## Statements -/

/-- The blocks of a construct are read by the rules. -/
def ReadsBody (body : String → Parse Scope) : Prop :=
  ∀ {construct : String} {p p' : Parser} {s : Scope}, p.InSource →
    body construct p = .ok s p' → p.Reads (.body s) p'

variable {body : String → Parse Scope}

theorem framedBody_reads (hbody : ReadsBody body) {p₁ : Parser} {line : List Token}
    {symbols : SymbolTable} {construct : String} {s : Scope} (hp : p.InSource)
    (h₁ : p.Leaves line symbols p₁) (h : framedBody body construct p₁ = .ok s p') :
    Derives p.level ⟨p₁.stream.tokens, symbols.openFrame, p.nextFunction⟩ (.body s) p'.state ∧
      p'.stream.tokens <:+ p₁.stream.tokens ∧ p'.level = p.level := by
  have hp₁ := hp.of_suffix h₁.suffix
  obtain ⟨hderives, hsuffix, hlevel⟩ :=
    hbody (p := { p₁ with symbols := p₁.symbols.openFrame }) hp₁ h
  rw [← h₁.level, ← h₁.symbols, ← h₁.next]
  exact ⟨hderives, hsuffix, hlevel⟩

theorem condition_passes {n : Node} {place : Location} (hp : p.InSource)
    (h : condition place p = .ok n p') :
    ∃ ts, Expressed p.symbols ts n ∧ n.type? = .ok .boolean ∧ p.Passes ts p.symbols p' := by
  obtain ⟨m, p₁, hm, r₁⟩ := bind_eq_ok.mp h
  obtain ⟨ts, he, h₁⟩ := expression_passes hp hm
  obtain ⟨_, p₂, hlift, r₂⟩ := bind_eq_ok.mp r₁
  obtain ⟨hcheck, rfl⟩ := liftExcept_ok hlift
  cases r₂
  refine ⟨ts, he, ?_, h₁⟩
  unfold Node.checkBoolean at hcheck
  cases ht : n.type? with
  | error d => simp [ht, bind, Except.bind] at hcheck
  | ok type =>
    simp only [ht, bind, Except.bind] at hcheck
    split at hcheck
    · cases hcheck
    · next hb => rw [Decidable.not_not.mp hb]

theorem advance_keyword (hp : p.InSource) {keyword : Keyword}
    (hk : p.stream.current.isKeyword keyword) (h : advance p = .ok t p') :
    t = p.stream.current ∧ p.Passes [p.stream.current] p.symbols p' := by
  cases h
  refine ⟨rfl, hp.passes (hp.keyword ?_)⟩
  simp_all [Token.isKeyword]

theorem conditionLine_leaves {p₁ p₂ : Parser} {keyword : Token} {n : Node} {place : Location}
    (hp : p.InSource) (h₁ : p.Passes [keyword] p.symbols p₁)
    (hcond : condition place p₁ = .ok n p₂) (hend : endHeader p₂ = .ok () p') :
    ∃ line, Expressed p.symbols line n ∧ n.type? = .ok .boolean ∧
      p.Leaves (keyword :: line) p.symbols p' := by
  obtain ⟨line, he, hb, h₂⟩ := condition_passes (h₁.inSource hp) hcond
  rw [h₁.symbols] at he h₂
  exact ⟨line, he, hb, endHeader_leaves hp (h₁.trans h₂) hend⟩

theorem branch_reads (hbody : ReadsBody body) {n : Node} (hp : p.InSource)
    (hk : p.stream.current.isKeyword .ifThen) (h : branch body p = .ok n p') :
    p.Reads (.statement n) p' := by
  obtain ⟨t, p₁, hadvance, r₁⟩ := bind_eq_ok.mp h
  obtain ⟨rfl, h₁⟩ := advance_keyword hp hk hadvance
  obtain ⟨test, p₂, hcond, r₂⟩ := bind_eq_ok.mp r₁
  obtain ⟨_, p₃, hend, r₃⟩ := bind_eq_ok.mp r₂
  obtain ⟨line, he, hb, h₃⟩ := conditionLine_leaves hp h₁ hcond hend
  obtain ⟨s, p₄, hs, r₄⟩ := bind_eq_ok.mp r₃
  obtain ⟨hderives, hsuffix, hlevel⟩ := framedBody_reads hbody hp h₃ hs
  obtain ⟨s', p₅, halt, r₅⟩ := bind_eq_ok.mp r₄
  cases r₅
  unfold alternative at halt
  rw [get_bind] at halt
  have hsuffix₄ := hsuffix.trans h₃.suffix
  split at halt
  · next helse =>
    obtain ⟨orElse, p₅, hadvance, r₆⟩ := bind_eq_ok.mp halt
    have hp₄ := hp.of_suffix hsuffix₄
    obtain ⟨rfl, h₅⟩ := advance_keyword hp₄ helse.1 hadvance
    obtain ⟨_, p₆, hend, r₇⟩ := bind_eq_ok.mp r₆
    have h₆ := endHeader_leaves hp₄ h₅ hend
    obtain ⟨s', p₇, hs', r₈⟩ := bind_eq_ok.mp r₇
    cases r₈
    obtain ⟨hderives', hsuffix', hlevel'⟩ := framedBody_reads hbody hp₄ h₆ hs'
    rw [hlevel] at hderives' hlevel'
    exact ⟨.alternative h₃.line hk he hb hderives h₆.line helse.1 (helse.2.trans hlevel) hderives',
      hsuffix'.trans (h₆.suffix.trans hsuffix₄), hlevel'⟩
  · next helse =>
    cases halt
    refine ⟨.branch h₃.line hk he hb hderives ?_, hsuffix₄, hlevel⟩
    rintro t ⟨⟩
    rwa [hlevel] at helse

theorem whileLoop_reads (hbody : ReadsBody body) {n : Node} (hp : p.InSource)
    (hk : p.stream.current.isKeyword .whileLoop) (h : whileLoop body p = .ok n p') :
    p.Reads (.statement n) p' := by
  obtain ⟨t, p₁, hadvance, r₁⟩ := bind_eq_ok.mp h
  obtain ⟨rfl, h₁⟩ := advance_keyword hp hk hadvance
  obtain ⟨test, p₂, hcond, r₂⟩ := bind_eq_ok.mp r₁
  obtain ⟨_, p₃, hend, r₃⟩ := bind_eq_ok.mp r₂
  obtain ⟨line, he, hb, h₃⟩ := conditionLine_leaves hp h₁ hcond hend
  obtain ⟨s, p₄, hs, r₄⟩ := bind_eq_ok.mp r₃
  obtain ⟨hderives, hsuffix, hlevel⟩ := framedBody_reads hbody hp h₃ hs
  cases r₄
  exact ⟨.whileLoop h₃.line hk he hb hderives, hsuffix.trans h₃.suffix, hlevel⟩

/-! ## Declarations -/

theorem not_isFunction_of_declares {symbols : SymbolTable} {d : Declared} {ts : List Token}
    {n : Node} {i : Identifier} (h : Declares symbols d ts n i) : isFunction n = false := by
  cases h <;> rfl

theorem signature_leaves {p₁ p₂ p₃ p₄ : Parser} {ts : List Token} {colon : Token}
    {head : DeclarationHead} {ns : List Node} {returns : DataType} (hp : p.InSource)
    (hts : Head ts head) (hc : colon.isDelimiter ":")
    (h₁ : p.Passes (ts ++ [colon]) p.symbols p₁)
    (hns : parameters { p₁ with symbols := p₁.symbols.openFrame } = .ok ns p₂)
    (hreturns : resultType head.type p₂ = .ok returns p₃) (hend : endHeader p₃ = .ok () p₄) :
    ∃ line inner, Signature p.symbols line head ns returns inner ∧ p.Leaves line inner p₄ := by
  have hp₁ := h₁.inSource hp
  obtain ⟨opening, ps, closing, inner, ho, hps, hclosing, h₂⟩ :=
    parameters_passes (p := { p₁ with symbols := p₁.symbols.openFrame }) hp₁ hns
  have h₁' : p.Passes (ts ++ [colon]) p.symbols.openFrame
      { p₁ with symbols := p₁.symbols.openFrame } :=
    ⟨h₁.tokens, h₁.words, congrArg SymbolTable.openFrame h₁.symbols, h₁.level, h₁.next⟩
  have h₁₂ := h₁'.trans h₂
  obtain ⟨rs, hrs, h₃⟩ := resultType_passes (h₁₂.inSource hp) hreturns
  rw [h₁₂.symbols] at h₃
  have hleaves := endHeader_leaves hp (h₁₂.trans h₃) hend
  have hline : ts ++ [colon] ++ (opening :: ps ++ [closing]) ++ rs =
      ts ++ colon :: opening :: ps ++ closing :: rs := by simp
  rw [hline] at hleaves
  change ParameterList p₁.symbols.openFrame ps ns inner at hps
  rw [h₁.symbols] at hps
  exact ⟨_, inner, .mk hts hc ho hps hclosing hrs, hleaves⟩

theorem declareFunction_reads (hbody : ReadsBody body) {p₁ : Parser} {ts : List Token}
    {colon : Token} {head : DeclarationHead} {n : Node} (hp : p.InSource) (hts : Head ts head)
    (hc : colon.isDelimiter ":") (h₁ : p.Passes (ts ++ [colon]) p.symbols p₁)
    (h : declareFunction body head p₁ = .ok n p') :
    isFunction n ∧ p.Reads (.statement n) p' := by
  obtain ⟨_, _, hopen, r₁⟩ := bind_eq_ok.mp h
  cases hopen
  obtain ⟨ns, p₂, hns, r₂⟩ := bind_eq_ok.mp r₁
  obtain ⟨returns, p₃, hreturns, r₃⟩ := bind_eq_ok.mp r₂
  obtain ⟨_, p₄, hend, r₄⟩ := bind_eq_ok.mp r₃
  obtain ⟨line, inner, hsig, h₄⟩ := signature_leaves hp hts hc h₁ hns hreturns hend
  obtain ⟨frame, p₅, hclose, r₅⟩ := bind_eq_ok.mp r₄
  cases hclose
  obtain ⟨id, p₆, hfresh, r₆⟩ := bind_eq_ok.mp r₅
  cases hfresh
  obtain ⟨_, p₇, hdeclare, r₇⟩ := bind_eq_ok.mp r₆
  obtain ⟨symbols, hs, h₇⟩ := declare_ok hdeclare
  obtain ⟨_, _, hreopen, r₈⟩ := bind_eq_ok.mp r₇
  cases hreopen
  obtain ⟨s, p₈, hbody₈, r₉⟩ := bind_eq_ok.mp r₈
  obtain ⟨_, _, hdefine, r₁₀⟩ := bind_eq_ok.mp r₉
  cases hdefine
  cases r₁₀
  refine ⟨rfl, ?_⟩
  have hp₇ : p₇.InSource := h₇.inSource (hp.of_suffix h₄.suffix)
  have hreads := hbody
    (p := { p₇ with symbols := p₇.symbols.reopen (p₄.symbols.frames.head?.getD []) }) hp₇ hbody₈
  have htokens : p₇.stream.tokens = p₄.stream.tokens := h₇.tokens.symm
  have hlevel : p₇.level = p.level := h₇.level.trans h₄.level
  have hnext : p₇.nextFunction = p.nextFunction + 1 := by
    rw [h₇.next]
    exact congrArg (· + 1) h₄.next
  obtain ⟨hderives, hsuffix, hback⟩ := hreads
  simp only [Parser.state, h₇.symbols, htokens, hlevel, hnext, h₄.symbols] at hderives hsuffix hback
  simp only [h₄.next, h₄.symbols] at hs ⊢
  exact ⟨.function h₄.line hsig hs hderives, hsuffix.trans h₄.suffix, hback⟩

/-- A declaration is that of a function, with its block, or stays inside of its line. -/
theorem declaration_reads (hbody : ReadsBody body) {n : Node} (hp : p.InSource)
    (h : declaration body p = .ok n p') :
    isFunction n ∧ p.Reads (.statement n) p' ∨
      ∃ line i symbols, Declares p.symbols .constant line n i ∧
        p.symbols.declare? i = some symbols ∧ p.Passes line symbols p' := by
  obtain ⟨head, p₁, hhead, r₁⟩ := bind_eq_ok.mp h
  obtain ⟨ts, hts, h₁⟩ := declarationHead_passes hp hhead
  have hp₁ := h₁.inSource hp
  have hdeclared : ReadsDeclared p₁ .constant head n p' → ∃ line i symbols,
      Declares p.symbols .constant line n i ∧ p.symbols.declare? i = some symbols ∧
        p.Passes line symbols p' := by
    rintro ⟨us, i, symbols, hd, hs, h₂⟩
    have hd := hd ts hts
    rw [h₁.symbols] at hs hd
    exact ⟨_, i, symbols, hd, hs, h₁.trans h₂⟩
  obtain ⟨b, p₂, hb, r₂⟩ := bind_eq_ok.mp r₁
  cases b with
  | false =>
    obtain rfl := acceptDelimiter_false hb
    exact .inr (hdeclared (declareVariable_passes _ hp₁ r₂))
  | true =>
    obtain ⟨colon, hc, h₂⟩ := acceptDelimiter_true hp₁ hb
    simp only [if_true] at r₂
    rw [get_bind] at r₂
    split at r₂
    · have h₁₂ := h₁.trans h₂
      rw [h₁.symbols] at h₁₂
      exact .inl (declareFunction_reads hbody hp hts hc h₁₂ r₂)
    · exact .inr (hdeclared (.value hp₁ (.colon hc) h₂ r₂))

theorem declarationStatement_reads (hbody : ReadsBody body) {n : Node} (hp : p.InSource)
    (h : declarationStatement body p = .ok n p') : p.Reads (.statement n) p' := by
  obtain ⟨m, p₁, hm, r₁⟩ := bind_eq_ok.mp h
  rcases declaration_reads hbody hp hm with ⟨hf, hreads⟩ | ⟨line, i, symbols, hd, hs, h₁⟩
  · simp only [hf] at r₁
    cases r₁
    exact hreads
  · simp only [not_isFunction_of_declares hd] at r₁
    obtain ⟨_, p₂, hend, r₂⟩ := bind_eq_ok.mp r₁
    cases r₂
    have h₂ := expectEndOfStatement_leaves hp h₁ hend
    refine ⟨?_, h₂.suffix, h₂.level⟩
    simp only [Parser.state, h₂.symbols, h₂.next]
    exact .declaration h₂.line hd hs

/-! ## Loops -/

theorem loopInit_passes (hbody : ReadsBody body) {o : Option Node} (hp : p.InSource)
    (h : loopInit body t p = .ok o p') :
    ∃ ts symbols, LoopInit p.symbols ts o symbols ∧ p.Passes ts symbols p' := by
  unfold loopInit at h
  rw [get_bind] at h
  split at h
  · obtain ⟨n, p₁, hn, r₁⟩ := bind_eq_ok.mp h
    split at r₁
    · next hinit =>
      cases r₁
      rcases declaration_reads hbody hp hn with ⟨hf, _⟩ | ⟨line, i, symbols, hd, hs, h₁⟩
      · cases n <;> first | cases hinit | cases hf
      · exact ⟨line, symbols, .some hd hinit hs, h₁⟩
    · cases r₁
  · split at h
    · cases h
      exact ⟨[], _, .none, .refl _⟩
    · cases h

theorem loopCondition_passes {o : Option Node} (hp : p.InSource)
    (h : loopCondition t p = .ok o p') :
    ∃ ts, OptionalExpression p.symbols (· = .boolean) ts o ∧ p.Passes ts p.symbols p' := by
  unfold loopCondition at h
  rw [current_bind] at h
  split at h
  · cases h
    exact ⟨[], .none, .refl _⟩
  · obtain ⟨n, p₁, hn, r₁⟩ := bind_eq_ok.mp h
    cases r₁
    obtain ⟨ts, he, hb, h₁⟩ := condition_passes hp hn
    exact ⟨ts, .some he hb rfl, h₁⟩

theorem loopIncrement_passes {o : Option Node} (hp : p.InSource)
    (h : loopIncrement p = .ok o p') :
    ∃ ts, OptionalExpression p.symbols (fun _ => True) ts o ∧ p.Passes ts p.symbols p' := by
  unfold loopIncrement at h
  rw [current_bind] at h
  split at h
  · cases h
    exact ⟨[], .none, .refl _⟩
  · obtain ⟨n, p₁, hn, r₁⟩ := bind_eq_ok.mp h
    obtain ⟨type, p₂, hlift, r₂⟩ := bind_eq_ok.mp r₁
    obtain ⟨htype, rfl⟩ := liftExcept_ok hlift
    cases r₂
    obtain ⟨ts, he, h₁⟩ := expression_passes hp hn
    exact ⟨ts, .some he htype trivial, h₁⟩

theorem threePartLoop_reads (hbody : ReadsBody body) {n : Node} (hp : p.InSource)
    (hk : p.stream.current.isKeyword .forLoop) (h : threePartLoop body p = .ok n p') :
    p.Reads (.statement n) p' := by
  obtain ⟨t, p₁, hadvance, r₁⟩ := bind_eq_ok.mp h
  obtain ⟨rfl, h₁⟩ := advance_keyword hp hk hadvance
  obtain ⟨_, _, hopen, r₂⟩ := bind_eq_ok.mp r₁
  cases hopen
  have h₂ : p.Passes [p.stream.current] p.symbols.openFrame
      { p₁ with symbols := p₁.symbols.openFrame } :=
    ⟨h₁.tokens, h₁.words, congrArg SymbolTable.openFrame h₁.symbols, h₁.level, h₁.next⟩
  obtain ⟨init, p₃, hinit, r₃⟩ := bind_eq_ok.mp r₂
  obtain ⟨ts, inner, hts, h₃⟩ := loopInit_passes hbody (h₂.inSource hp) hinit
  have hp₃ := h₃.inSource (h₂.inSource hp)
  obtain ⟨_, p₄, hcomma, r₄⟩ := bind_eq_ok.mp r₃
  obtain ⟨comma, hc, h₄⟩ := acceptDelimiter_true hp₃ (expectDelimiter_ok hcomma)
  have hp₄ := h₄.inSource hp₃
  obtain ⟨test, p₅, htest, r₅⟩ := bind_eq_ok.mp r₄
  obtain ⟨us, hus, h₅⟩ := loopCondition_passes hp₄ htest
  have hp₅ := h₅.inSource hp₄
  obtain ⟨_, p₆, hcomma', r₆⟩ := bind_eq_ok.mp r₅
  obtain ⟨comma', hc', h₆⟩ := acceptDelimiter_true hp₅ (expectDelimiter_ok hcomma')
  have hp₆ := h₆.inSource hp₅
  obtain ⟨increment, p₇, hincrement, r₇⟩ := bind_eq_ok.mp r₆
  obtain ⟨vs, hvs, h₇⟩ := loopIncrement_passes hp₆ hincrement
  obtain ⟨_, p₈, hend, r₈⟩ := bind_eq_ok.mp r₇
  obtain ⟨s, p₉, hs, r₉⟩ := bind_eq_ok.mp r₈
  cases r₉
  rw [h₂.symbols] at hts
  rw [h₃.symbols] at h₄
  rw [h₄.symbols] at hus h₅
  rw [h₅.symbols] at h₆
  rw [h₆.symbols] at hvs h₇
  have hpasses := h₂.trans (h₃.trans (h₄.trans (h₅.trans (h₆.trans h₇))))
  have hleaves := endHeader_leaves hp hpasses hend
  have hline : [p.stream.current] ++ (ts ++ ([comma] ++ (us ++ ([comma'] ++ vs)))) =
      p.stream.current :: (ts ++ comma :: us ++ comma' :: vs) := by simp
  rw [hline] at hleaves
  obtain ⟨hderives, hsuffix, hlevel⟩ := hbody (hp.of_suffix hleaves.suffix) hs
  simp only [Parser.state, hleaves.symbols, hleaves.level, hleaves.next] at hderives hlevel
  exact ⟨.threePartLoop hleaves.line hk (.mk hts hc hus hc' hvs) hderives,
    hsuffix.trans hleaves.suffix, hlevel⟩

theorem loopName_passes {o : Option Token} (hp : p.InSource) (h : loopName p = .ok o p') :
    ∃ ts, p.Passes ts p.symbols p' ∧
      ((o = none ∧ ts = []) ∨ ∃ name colon, o = some name ∧ ts = [name, colon] ∧
        name.kind = .identifier ∧ colon.isDelimiter ":") := by
  unfold loopName at h
  rw [get_bind] at h
  split at h
  · next hstart =>
    cases h
    simp only [TokenStream.startsDeclaration, Bool.and_eq_true, beq_iff_eq] at hstart
    obtain ⟨hk, hcolon⟩ := hstart
    have h₁ := hp.passes (by simp [Token.endsStatement, hk])
    have hrest : p.stream.rest = p.stream.advance.tokens :=
      (List.cons.inj (TokenStream.tokens_advance hp.endsAhead (by simp [hk]))).2
    have hc : p.stream.advance.current.isDelimiter ":" := by
      rw [hrest] at hcolon
      exact hcolon
    have h₂ := (h₁.inSource hp).passes (endsStatement_of_isDelimiter hc)
    exact ⟨_, h₁.trans h₂, .inr ⟨_, _, rfl, rfl, hk, hc⟩⟩
  · cases h
    exact ⟨[], .refl _, .inl ⟨rfl, rfl⟩⟩

theorem rangeBody_reads (hbody : ReadsBody body) {p₁ : Parser} {keyword : Token}
    {line : List Token} {i : Identifier} {range n : Node} {location : Location} (hp : p.InSource)
    (hk : keyword.isKeyword .forLoop) (hrange : Range p.symbols keyword line i range location)
    (h₁ : p.Leaves (keyword :: line) p.symbols p₁)
    (h : (do
      openFrame
      declare i
      return .rangeLoop (.binary .assignment i.toNode range location) (← body "for")
        keyword.location : Parse Node) p₁ = .ok n p') :
    p.Reads (.statement n) p' := by
  obtain ⟨_, _, hopen, r₁⟩ := bind_eq_ok.mp h
  cases hopen
  obtain ⟨_, p₂, hdeclare, r₂⟩ := bind_eq_ok.mp r₁
  obtain ⟨inner, hinner, h₂⟩ := declare_ok hdeclare
  obtain ⟨s, p₃, hs, r₃⟩ := bind_eq_ok.mp r₂
  cases r₃
  have hp₁ := hp.of_suffix h₁.suffix
  obtain ⟨hderives, hsuffix, hlevel⟩ := hbody (h₂.inSource hp₁) hs
  have htokens : p₂.stream.tokens = p₁.stream.tokens := h₂.tokens.symm
  have hback : p₂.level = p.level := h₂.level.trans h₁.level
  have hnext : p₂.nextFunction = p.nextFunction := h₂.next.trans h₁.next
  change p₁.symbols.openFrame.declare? i = some inner at hinner
  rw [h₁.symbols] at hinner
  simp only [Parser.state, h₂.symbols, htokens, hback, hnext] at hderives hsuffix hlevel
  exact ⟨.rangeLoop h₁.line hk hrange hinner hderives, hsuffix.trans h₁.suffix, hlevel⟩

theorem rangeLoop_reads (hbody : ReadsBody body) {n : Node} (hp : p.InSource)
    (hk : p.stream.current.isKeyword .forLoop) (h : rangeLoop body p = .ok n p') :
    p.Reads (.statement n) p' := by
  obtain ⟨t, p₁, hadvance, r₁⟩ := bind_eq_ok.mp h
  obtain ⟨rfl, h₁⟩ := advance_keyword hp hk hadvance
  have hp₁ := h₁.inSource hp
  obtain ⟨o, p₂, hname, r₂⟩ := bind_eq_ok.mp r₁
  obtain ⟨ts, h₂, ho⟩ := loopName_passes hp₁ hname
  have hp₂ := h₂.inSource hp₁
  obtain ⟨range, p₃, hrange, r₃⟩ := bind_eq_ok.mp r₂
  obtain ⟨us, he, h₃⟩ := expression_passes hp₂ hrange
  obtain ⟨type, p₄, hlift, r₄⟩ := bind_eq_ok.mp r₃
  obtain ⟨htype, rfl⟩ := liftExcept_ok hlift
  obtain ⟨_, p₅, hend, r₅⟩ := bind_eq_ok.mp r₄
  rw [h₁.symbols] at h₂
  rw [h₂.symbols] at he h₃
  have hleaves := endHeader_leaves hp (h₁.trans (h₂.trans h₃)) hend
  rcases ho with ⟨rfl, rfl⟩ | ⟨name, colon, rfl, rfl, hk', hc⟩
  · exact rangeBody_reads hbody hp hk (.mk .implicit he htype) hleaves r₅
  · exact rangeBody_reads hbody hp hk (.mk (.written hk' hc) he htype) hleaves r₅

/-! ## Any statement -/

theorem keywordStatement_reads (hbody : ReadsBody body) {keyword : Keyword} {n : Node}
    (hp : p.InSource) (hk : p.stream.current.isKeyword keyword)
    (h : keywordStatement body keyword p = .ok n p') : p.Reads (.statement n) p' := by
  unfold keywordStatement at h
  rw [get_bind] at h
  split at h
  · cases h
  · cases keyword with
    | ifThen => exact branch_reads hbody hp hk h
    | orElse => cases h
    | whileLoop => exact whileLoop_reads hbody hp hk h
    | forLoop =>
      change forLoop body p = .ok n p' at h
      unfold forLoop at h
      rw [get_bind] at h
      split at h
      · exact threePartLoop_reads hbody hp hk h
      · exact rangeLoop_reads hbody hp hk h

theorem startsDeclaration_of_line {line rest : List Token}
    (h : TakesLine p.stream.tokens line rest) (hd : IsDeclaration line) :
    p.stream.startsDeclaration := by
  obtain ⟨name, colon, more, rfl, hk, hc⟩ := hd
  obtain ⟨stop, -, htokens⟩ := h.stop
  obtain ⟨hcurrent, hrest⟩ := List.cons.inj htokens
  simp [TokenStream.startsDeclaration, hcurrent, hrest, hk, hc]

theorem expressionStatement_reads {n : Node} (hp : p.InSource)
    (hd : p.stream.startsDeclaration = false) (hk : p.stream.current.keyword = none)
    (h : expressionStatement p = .ok n p') : p.Reads (.statement n) p' := by
  obtain ⟨m, p₁, hm, r₁⟩ := bind_eq_ok.mp h
  obtain ⟨line, he, h₁⟩ := expression_passes hp hm
  obtain ⟨type, p₂, hlift, r₂⟩ := bind_eq_ok.mp r₁
  obtain ⟨htype, rfl⟩ := liftExcept_ok hlift
  obtain ⟨_, p₃, hend, r₃⟩ := bind_eq_ok.mp r₂
  cases r₃
  have hleaves := expectEndOfStatement_leaves hp h₁ hend
  refine ⟨?_, hleaves.suffix, hleaves.level⟩
  simp only [Parser.state, hleaves.symbols, hleaves.next]
  refine .expression hleaves.line (fun hline => ?_) ?_ he htype
  · have := startsDeclaration_of_line hleaves.line hline
    simp [hd] at this
  · obtain ⟨stop, -, htokens⟩ := hleaves.line.stop
    cases line with
    | nil => rintro t ⟨⟩
    | cons first more =>
      rintro t ⟨⟩
      rwa [(List.cons.inj htokens).1] at hk

theorem statement_reads (hbody : ReadsBody body) {n : Node} (hp : p.InSource)
    (h : statement body p = .ok n p') : p.Reads (.statement n) p' := by
  unfold statement at h
  rw [get_bind] at h
  split at h
  · exact declarationStatement_reads hbody hp h
  · next hd =>
    cases hk : p.stream.current.keyword with
    | none =>
      simp only [hk] at h
      exact expressionStatement_reads hp (by simpa using hd) hk h
    | some keyword =>
      simp only [hk] at h
      exact keywordStatement_reads hbody hp (by simp [Token.isKeyword, hk]) h

/-! ## Blocks -/

theorem LinePlace.of_eq_here {level line : Nat} {hasStatement : Bool}
    (h : LinePlace.of level hasStatement line = .here) : line = level := by
  unfold LinePlace.of at h
  split at h
  · assumption
  · split at h
    · cases h
    · split at h <;> cases h

theorem LinePlace.of_eq_deeper {level line : Nat} {hasStatement : Bool}
    (h : LinePlace.of level hasStatement line = .deeper) :
    line = level + 1 ∧ hasStatement = true := by
  unfold LinePlace.of at h
  split at h
  · cases h
  · split at h
    · assumption
    · split at h <;> cases h

theorem LinePlace.of_eq_outside {level line : Nat} {hasStatement : Bool}
    (h : LinePlace.of level hasStatement line = .outside) : line + 1 = level := by
  unfold LinePlace.of at h
  split at h
  · cases h
  · split at h
    · cases h
    · split at h
      · assumption
      · cases h

def ReadsBlock (block : Nat → Parse Scope) : Prop :=
  ∀ {level : Nat} {p p' : Parser} {s : Scope}, p.InSource → block level p = .ok s p' →
    Derives level p.state (.block s) p'.state ∧ p'.stream.tokens <:+ p.stream.tokens ∧
      p'.level = p.level

theorem lines_reads {statement : Parse Node} {block : Nat → Parse Scope} {n : Nat}
    {before ns : List Node}
    (hstatement : ∀ {p p' : Parser} {n : Node}, p.InSource → statement p = .ok n p' →
      p.Reads (.statement n) p')
    (hblock : ReadsBlock block) (hp : p.InSource)
    (h : lines statement (block (p.level + 1)) p.level n before p = .ok ns p') :
    ∃ more, ns = before.reverse ++ more ∧ p.Reads (.lines (!before.isEmpty) more) p' := by
  -- The bound on the lines never ends a run that succeeds; `before` has those that were read, reversed.
  induction n generalizing p before with
  | zero => cases h
  | succ n ih =>
    unfold lines at h
    rw [current_bind] at h
    split at h
    · next hk =>
      cases h
      refine ⟨[], by simp, ?_, List.suffix_refl _, rfl⟩
      exact Derives.stop (.inl hk)
    · next hk =>
      cases hplace : LinePlace.of p.level (!before.isEmpty) p.stream.current.level with
      | nowhere =>
        simp only [hplace] at h
        cases h
      | outside =>
        simp only [hplace] at h
        cases h
        refine ⟨[], by simp, ?_, List.suffix_refl _, rfl⟩
        exact Derives.stop (.inr hplace)
      | here =>
        simp only [hplace] at h
        obtain ⟨m, p₁, hm, r₁⟩ := bind_eq_ok.mp h
        have h₁ := hstatement hp hm
        rw [← h₁.level] at r₁
        obtain ⟨more, rfl, h₂⟩ := ih (hp.of_suffix h₁.suffix) r₁
        refine ⟨m :: more, by simp, ?_, h₂.suffix.trans h₁.suffix, h₂.level.trans h₁.level⟩
        have hmore := h₂.derives
        rw [h₁.level] at hmore
        exact Derives.here hk (LinePlace.of_eq_here hplace) h₁.derives hmore
      | deeper =>
        simp only [hplace] at h
        obtain ⟨_, _, hopen, r₁⟩ := bind_eq_ok.mp h
        cases hopen
        obtain ⟨s, p₁, hs, r₂⟩ := bind_eq_ok.mp r₁
        obtain ⟨hderives, hsuffix, hlevel⟩ :=
          hblock (p := { p with symbols := p.symbols.openFrame }) hp hs
        change p₁.level = p.level at hlevel
        rw [← hlevel] at r₂
        obtain ⟨more, rfl, h₂⟩ := ih (hp.of_suffix hsuffix) r₂
        refine ⟨.scope s :: more, by simp, ?_, h₂.suffix.trans hsuffix, h₂.level.trans hlevel⟩
        have hmore := h₂.derives
        rw [hlevel] at hmore
        obtain ⟨hline, hfirst⟩ := LinePlace.of_eq_deeper hplace
        rw [hfirst]
        exact Derives.deeper hk hline hderives hmore

theorem bodyOf_reads {block : Nat → Parse Scope} (hblock : ReadsBlock block) :
    ReadsBody (bodyOf block) := by
  intro construct p p' s hp h
  unfold bodyOf at h
  rw [get_bind] at h
  split at h
  · cases h
  · next hplace =>
    simp only [not_or, Nat.not_le] at hplace
    obtain ⟨hderives, hsuffix, hlevel⟩ := hblock hp h
    exact ⟨.body hplace.1 hplace.2 hderives, hsuffix, hlevel⟩

theorem blockUpTo_reads (depth : Nat) : ReadsBlock (blockUpTo depth) := by
  -- A block hands its bodies and the blocks inside of it one depth less, at which they are read.
  induction depth with
  | zero => exact fun _ h => nomatch h
  | succ depth ih =>
    intro level p p' s hp h
    unfold blockUpTo at h
    rw [get_bind, set_bind] at h
    obtain ⟨ns, p₁, hns, r₁⟩ := bind_eq_ok.mp h
    obtain ⟨_, _, hback, r₂⟩ := bind_eq_ok.mp r₁
    cases hback
    obtain ⟨frame, _, hclose, r₃⟩ := bind_eq_ok.mp r₂
    cases hclose
    cases r₃
    obtain ⟨more, rfl, hderives, hsuffix, hlevel⟩ :=
      lines_reads (p := { p with level }) (statement_reads (bodyOf_reads ih)) ih hp hns
    exact ⟨Derives.block hderives, hsuffix, rfl⟩

theorem block_reads : ReadsBlock block := by
  intro level p p' s hp h
  unfold block at h
  rw [get_bind] at h
  exact blockUpTo_reads _ hp h

end Parse

theorem inSource_ofTokens {tokens : List Token} (h : Lined none tokens) (keywords : List Keyword) :
    (Parser.ofTokens tokens keywords).InSource ∧
      (Parser.ofTokens tokens keywords).stream.tokens = tokens := by
  have htokens : (Parser.ofTokens tokens keywords).stream.tokens = tokens := by
    obtain ⟨t, ht, hk⟩ := h.getLast?_endOfFile
    have hclosed : TokenStream.closed tokens = tokens := by simp [TokenStream.closed, ht, hk]
    unfold Parser.ofTokens TokenStream.ofTokens
    rw [hclosed]
    cases tokens with
    | nil => cases ht
    | cons => rfl
  exact ⟨⟨tokens, h, by simp [htokens]⟩, htokens⟩

/-- The state in which a program is read. -/
def Parser.atStart (tokens : List Token) : Parser :=
  { Parser.ofTokens tokens statementKeywords with symbols := SymbolTable.empty.openFrame }

/-- A program is one block, in the only frame that is open. -/
theorem parse_eq (tokens : List Token) :
    parse tokens =
      match Parse.block 0 (.atStart tokens) with
      | .ok s _ => .ok s
      | .error d _ => .error d := by
  unfold parse Parse.openFrame
  dsimp only
  rw [modify_bind]
  change (match Parse.block 0 (.atStart tokens) with
    | .ok s _ => Except.ok s
    | .error d _ => .error d) = _
  cases Parse.block 0 (.atStart tokens) <;> rfl

theorem parse_eq_ok {tokens : List Token} {s : Scope} (h : parse tokens = .ok s) :
    ∃ p', Parse.block 0 (.atStart tokens) = .ok s p' := by
  rw [parse_eq] at h
  split at h
  · next p' hblock =>
    cases h
    exact ⟨p', hblock⟩
  · cases h

/-- A block ends in front of the end of the file or of a line that is shallower. -/
theorem Derives.stops {level : Nat} {before after : State} {product : Product}
    (h : Derives level before product after) :
    match product with
    | .lines _ _ | .block _ =>
      ∃ t rest, after.tokens = t :: rest ∧ (t.kind = .endOfFile ∨ t.level + 1 = level)
    | _ => True := by
  induction h with
  | stop hstop => exact ⟨_, _, rfl, hstop.imp_right Parse.LinePlace.of_eq_outside⟩
  | here _ _ _ _ _ ih | deeper _ _ _ _ _ ih | block _ ih => exact ih
  | _ => trivial

/-- The tree of a source text is what the rules make of its tokens, to their end. -/
theorem compile_derives {file source : String} {s : Scope} (h : compile file source = .ok s) :
    ∃ tokens stop symbols next, tokenize source file = .ok tokens ∧ stop.kind = .endOfFile ∧
      Derives 0 ⟨tokens, SymbolTable.empty.openFrame, 0⟩ (.block s) ⟨[stop], symbols, next⟩ := by
  unfold compile at h
  cases ht : tokenize source file with
  | error d => simp [ht, bind, Except.bind] at h
  | ok tokens =>
    simp only [ht, bind, Except.bind] at h
    obtain ⟨p', hblock⟩ := parse_eq_ok h
    have hlined := lined_tokenize ht
    obtain ⟨hp, htokens⟩ := inSource_ofTokens hlined statementKeywords
    let p := Parser.ofTokens tokens statementKeywords
    obtain ⟨hderives, hsuffix, -⟩ := Parse.block_reads (p := .atStart tokens) hp hblock
    obtain ⟨stop, rest, hrest, hk | hlevel⟩ := hderives.stops
    · change p'.stream.tokens = stop :: rest at hrest
      change p'.stream.tokens <:+ p.stream.tokens at hsuffix
      rw [hrest, htokens] at hsuffix
      obtain rfl := hlined.eq_nil_of_endOfFile hsuffix hk
      refine ⟨tokens, stop, p'.symbols, p'.nextFunction, rfl, hk, ?_⟩
      rw [← htokens, ← hrest]
      exact hderives
    · cases hlevel

end Offside
