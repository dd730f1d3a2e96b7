import Offside.Proofs.NameResolution

/-!
# What an action adds to the frames

The parser moves on along its tokens and adds the names that it declares to the innermost frame, whatever
the tokens are. All that a line has besides its declarations leaves the frames alone.
-/

namespace Offside

set_option autoImplicit false

open Execution

/-- What a declaration declares, as its node shows it. -/
def Node.declared? : Node → Option Identifier
  | .var v | .binary _ (.var v) _ _ => some (.var v)
  | .binary _ (.constant c) _ _ => some (.constant c)
  | .function f _ _ => some (.function f)
  | _ => none

/-- What the nodes of a header declare. -/
def entries (header : List Node) : Frame := header.filterMap Node.declared?

/-- The blocks of a statement, each behind the nodes of its header that declare names in it. -/
def Node.blocks : Node → List (List Node × Scope)
  | .function _ parameters (some body) => [(parameters, body)]
  | .scope s => [([], s)]
  | .branch _ consequence alternative _ => ([], consequence) :: alternative.toList.map ([], ·)
  | .whileLoop _ body _ => [([], body)]
  | .forLoop init _ _ body _ => [(init.toList, body)]
  | .rangeLoop range body _ => [([range], body)]
  | _ => []

/-! ## Frames that grow -/

/-- The names of `new` are free in the frame, and differ. -/
structure Frame.Gains (frame new : Frame) : Prop where
  nodup : new.names.Nodup
  disjoint : frame.names.Disjoint new.names

namespace Frame

variable {frame new more : Frame}

theorem names_append (frame new : Frame) : (frame ++ new).names = frame.names ++ new.names :=
  List.map_append

theorem gains_nil (frame : Frame) : frame.Gains [] :=
  ⟨List.nodup_nil, List.disjoint_nil_right _⟩

theorem gains_single {i : Identifier} (h : i.name ∉ frame.names) : frame.Gains [i] :=
  ⟨List.nodup_singleton _, List.disjoint_singleton.mpr h⟩

theorem Gains.append (h : frame.Gains new) (h' : (frame ++ new).Gains more) :
    frame.Gains (new ++ more) := by
  have hdisjoint := h'.disjoint
  rw [names_append, List.disjoint_append_left] at hdisjoint
  constructor
  · rw [names_append]
    exact h.nodup.append h'.nodup hdisjoint.2
  · rw [names_append, List.disjoint_append_right]
    exact ⟨h.disjoint, hdisjoint.1⟩

theorem Gains.nodup_append (h : frame.Gains new) (hn : frame.names.Nodup) :
    (frame ++ new).names.Nodup := by
  rw [names_append]
  exact hn.append h.nodup h.disjoint

end Frame

/-! ## Streams that move on -/

/-- Between two places of a stream no token comes back, and the end of the file stays ahead. -/
structure TokenStream.Onward (s s' : TokenStream) : Prop where
  endsAhead : s.EndsAhead → s'.EndsAhead
  length_le : s'.tokens.length ≤ s.tokens.length

namespace TokenStream

variable {s s₁ s' : TokenStream}

theorem Onward.refl (s : TokenStream) : s.Onward s := ⟨id, Nat.le_refl _⟩

theorem Onward.trans (h : s.Onward s₁) (h' : s₁.Onward s') : s.Onward s' :=
  ⟨fun hs => h'.endsAhead (h.endsAhead hs), Nat.le_trans h'.length_le h.length_le⟩

theorem onward_advance (s : TokenStream) : s.Onward s.advance := by
  refine ⟨EndsAhead.advance, ?_⟩
  unfold advance tokens
  split
  · exact Nat.le_refl _
  · next hrest =>
    split
    · exact Nat.le_refl _
    · simp [hrest]

/-- A place further on, with a token or more in between if the end of the file is ahead. -/
structure Beyond (s s' : TokenStream) : Prop extends s.Onward s' where
  length_lt : s.EndsAhead → s'.tokens.length < s.tokens.length

theorem Onward.beyond (h : s.Onward s₁) (h' : s₁.Beyond s') : s.Beyond s' :=
  ⟨h.trans h'.toOnward, fun hs => Nat.lt_of_lt_of_le (h'.length_lt (h.endsAhead hs)) h.length_le⟩

theorem Beyond.onward (h : s.Beyond s₁) (h' : s₁.Onward s') : s.Beyond s' :=
  ⟨h.toOnward.trans h', fun hs => Nat.lt_of_le_of_lt h'.length_le (h.length_lt hs)⟩

theorem beyond_advance (hk : s.current.kind ≠ .endOfFile) : s.Beyond s.advance := by
  refine ⟨onward_advance s, fun hs => ?_⟩
  rw [tokens_advance hs hk]
  exact Nat.lt_succ_self _

end TokenStream

namespace Expression

open TokenStream (Onward)

variable {symbols : SymbolTable} {t : Token} {e e' : Expression}

/-- What is on the stack of operands is part of an expression. -/
def HasOperands (e : Expression) : Prop := ∀ n ∈ e.operands, n.IsExpression

/-- An action takes tokens, and leaves parts of an expression on the stack of operands. -/
structure Gathers (e e' : Expression) : Prop where
  stream : e.stream.Onward e'.stream
  operands : e.HasOperands → e'.HasOperands

theorem Gathers.refl (e : Expression) : e.Gathers e := ⟨.refl _, id⟩

theorem Gathers.trans {e₁ : Expression} (h : e.Gathers e₁) (h' : e₁.Gathers e') : e.Gathers e' :=
  ⟨h.stream.trans h'.stream, fun he => h'.operands (h.operands he)⟩

theorem reduce_gathers {top : PendingOperator} (h : reduce top e = .ok () e') : e.Gathers e' := by
  refine ⟨(length_reduce h).2.1 ▸ .refl _, fun he => ?_⟩
  rw [HasOperands] at he
  obtain ⟨-, operand, rest, ho, rfl⟩ | ⟨-, right, left, rest, ho, rfl⟩ := reduce_eq_ok h
  · rw [ho] at he
    obtain ⟨hn, hrest⟩ := List.forall_mem_cons.mp he
    exact List.forall_mem_cons.mpr ⟨.unary hn, hrest⟩
  · rw [ho] at he
    obtain ⟨hr, hleft⟩ := List.forall_mem_cons.mp he
    obtain ⟨hl, hrest⟩ := List.forall_mem_cons.mp hleft
    exact List.forall_mem_cons.mpr ⟨.binary hl hr, hrest⟩

theorem reduceWhile_gathers {ready : Operator → Bool} {stack : List PendingOperator}
    (h : reduceWhile ready stack e = .ok () e') : e.Gathers e' := by
  refine reduceWhile_relates Gathers.refl Gathers.trans (fun htop => ?_) h
  obtain ⟨hstream, hoperands⟩ := reduce_gathers htop
  exact ⟨hstream, hoperands⟩

theorem closeParenthesis_gathers (h : closeParenthesis e = .ok () e') : e.Gathers e' := by
  obtain ⟨-, e₁, h₁, rfl⟩ := closeParenthesis_eq_ok.mp h
  obtain ⟨hstream, hoperands⟩ := reduceWhile_gathers h₁
  exact ⟨(TokenStream.onward_advance _).trans hstream, hoperands⟩

theorem literal_gathers (h : literal t e = .ok () e') : e.Gathers e' := by
  obtain ⟨-, l, -, rfl⟩ := literal_eq_ok.mp h
  exact ⟨TokenStream.onward_advance _, fun he => List.forall_mem_cons.mpr ⟨.literal l, he⟩⟩

theorem identifier_gathers (h : identifier symbols t e = .ok () e') : e.Gathers e' := by
  obtain ⟨-, ⟨v, -, rfl⟩ | ⟨f, -, rfl⟩⟩ := identifier_eq_ok.mp h
  · exact ⟨TokenStream.onward_advance _, fun he => List.forall_mem_cons.mpr ⟨.var v, he⟩⟩
  · exact ⟨TokenStream.onward_advance _, fun he => List.forall_mem_cons.mpr ⟨.reference f, he⟩⟩

theorem operator_gathers (h : operator symbols t e = .ok () e') : e.Gathers e' := by
  obtain ⟨_, _, e₁, -, -, h₁, rfl⟩ := operator_eq_ok.mp h
  obtain ⟨hstream, hoperands⟩ := reduceWhile_gathers h₁
  exact ⟨(TokenStream.onward_advance _).trans hstream, hoperands⟩

theorem step_gathers {b : Bool} (h : step symbols e = .ok b e') : e.Gathers e' := by
  rcases step_eq_ok h with ⟨-, rfl, -⟩ | ⟨-, -, x, hacts, hx⟩
  · exact .refl _
  · cases hacts with
    | literal => exact literal_gathers hx
    | identifier => exact identifier_gathers hx
    | operator => exact operator_gathers hx
    | opening =>
      obtain ⟨-, rfl⟩ := openParenthesis_eq_ok.mp hx
      exact ⟨TokenStream.onward_advance _, id⟩
    | closing => exact closeParenthesis_gathers hx
    | stuck => cases hx

theorem steps_gathers {n : Nat} (h : steps symbols n e = .ok () e') : e.Gathers e' := by
  induction n generalizing e with
  | zero => cases h
  | succ n ih =>
    obtain ⟨b, e₁, h₁, h₂⟩ := bind_eq_ok.mp h
    cases b with
    | false =>
      cases h₂
      exact step_gathers h₁
    | true => exact (step_gathers h₁).trans (ih h₂)

theorem tree_gathers {n : Node} {stream : TokenStream}
    (h : tree symbols (.start stream) = .ok n e') :
    stream.Onward e'.stream ∧ n.IsExpression := by
  have hsplit : ∃ e₁, steps symbols stream.tokens.length (.start stream) = .ok () e₁ ∧
      finish e₁ = .ok n e' := bind_unit_eq_ok.mp h
  obtain ⟨e₁, h₁, h₂⟩ := hsplit
  obtain ⟨-, e₂, h₃, hn, rfl⟩ := finish_eq_ok.mp h₂
  obtain ⟨hstream, hoperands⟩ := (steps_gathers h₁).trans (reduceWhile_gathers h₃)
  have he₂ := hoperands (List.forall_mem_nil _)
  rw [HasOperands, hn] at he₂
  exact ⟨hstream, he₂ n List.mem_cons_self⟩

end Expression

/-! ## Actions that declare nothing -/

/-- The parser moves on and adds `new` to the innermost frame. -/
structure Parser.Adds (p : Parser) (new : Frame) (p' : Parser) : Prop where
  stream : p.stream.Onward p'.stream
  level : p'.level = p.level
  frames : ∀ {frame outer}, p.symbols.frames = frame :: outer →
    p'.symbols.frames = (frame ++ new) :: outer ∧ frame.Gains new

namespace Parser

variable {p p₁ p' : Parser} {new more : Frame}

theorem adds_of_frames (hs : p.stream.Onward p'.stream) (hl : p'.level = p.level)
    (hf : p'.symbols.frames = p.symbols.frames) : p.Adds [] p' where
  stream := hs
  level := hl
  frames {frame outer} h := by
    rw [hf, h, List.append_nil]
    exact ⟨rfl, frame.gains_nil⟩

theorem Adds.refl (p : Parser) : p.Adds [] p := adds_of_frames (.refl _) rfl rfl

theorem Adds.trans (h : p.Adds new p₁) (h' : p₁.Adds more p') : p.Adds (new ++ more) p' where
  stream := h.stream.trans h'.stream
  level := h'.level.trans h.level
  frames {frame outer} hp := by
    obtain ⟨hp₁, hnew⟩ := h.frames hp
    obtain ⟨hp', hmore⟩ := h'.frames hp₁
    rw [hp', List.append_assoc]
    exact ⟨rfl, hnew.append hmore⟩

theorem Adds.then (h : p.Adds new p₁) (h' : p₁.Adds [] p') : p.Adds new p' := by
  have htrans := h.trans h'
  rwa [List.append_nil] at htrans

end Parser

namespace Parse

/-- The action moves on at most. -/
def Quiet {α : Type} (x : Parse α) : Prop := ∀ {p p' a}, x p = .ok a p' → p.Adds [] p'

section Quiet

variable {α β : Type}

theorem quiet_pure (a : α) : Quiet (pure a) := by
  intro p p' _ h
  cases h
  exact .refl p

theorem quiet_bind {x : Parse α} {f : α → Parse β} (hx : Quiet x) (hf : ∀ a, Quiet (f a)) :
    Quiet (x >>= f) := by
  intro p p' b h
  obtain ⟨a, p₁, h₁, h₂⟩ := bind_eq_ok.mp h
  exact (hx h₁).trans (hf a h₂)

theorem quiet_throw (d : Diagnostic) : Quiet (throw d : Parse α) := nofun

theorem quiet_fail (fault : Fault) : Quiet (fail fault : Parse α) := nofun

theorem quiet_get : Quiet (get : Parse Parser) := by
  intro p p' _ h
  cases h
  exact .refl p

theorem quiet_liftExcept (x : Except Diagnostic α) : Quiet (liftExcept x) := by
  intro p p' a h
  obtain ⟨-, rfl⟩ := liftExcept_ok h
  exact .refl p'

theorem quiet_current : Quiet current := by
  intro p p' t h
  cases h
  exact .refl p

theorem quiet_advance : Quiet advance := by
  intro p p' t h
  cases h
  exact Parser.adds_of_frames (TokenStream.onward_advance _) rfl rfl

theorem quiet_accept (kind : Token.Kind) : Quiet (accept kind) := by
  refine quiet_bind quiet_current fun t => ?_
  split
  · exact quiet_bind quiet_advance fun _ => quiet_pure _
  · exact quiet_pure _

theorem quiet_acceptDelimiter (text : String) : Quiet (acceptDelimiter text) := by
  refine quiet_bind quiet_current fun t => ?_
  split
  · exact quiet_bind quiet_advance fun _ => quiet_pure _
  · exact quiet_pure _

theorem quiet_acceptOperator (text : String) : Quiet (acceptOperator text) := by
  refine quiet_bind quiet_current fun t => ?_
  split
  · exact quiet_bind quiet_advance fun _ => quiet_pure _
  · exact quiet_pure _

theorem quiet_expect (kind : Token.Kind) (what : String) : Quiet (expect kind what) := by
  refine quiet_bind (quiet_accept kind) fun o => ?_
  cases o with
  | none => exact quiet_fail _
  | some t => exact quiet_pure t

theorem quiet_expectDelimiter (text : String) : Quiet (expectDelimiter text) := by
  refine quiet_bind (quiet_acceptDelimiter text) fun b => ?_
  cases b with
  | false => exact quiet_fail _
  | true => exact quiet_pure _

theorem quiet_expectEndOfStatement : Quiet expectEndOfStatement :=
  quiet_bind (quiet_expect _ _) fun _ => quiet_pure _

theorem quiet_expectMore : Quiet expectMore := by
  refine quiet_bind quiet_current fun t => ?_
  split
  · exact quiet_fail _
  · exact quiet_pure _

theorem quiet_endHeader : Quiet endHeader :=
  quiet_bind quiet_expectEndOfStatement fun _ => quiet_expectMore

theorem expression_adds {p p' : Parser} {n : Node} (h : expression p = .ok n p') :
    p.Adds [] p' ∧ n.IsExpression := by
  obtain ⟨m, p₁, hm, h₂⟩ := bind_eq_ok.mp h
  obtain ⟨hfold, rfl⟩ := liftExcept_ok h₂
  unfold expressionTree at hm
  split at hm
  · next htree =>
    cases hm
    obtain ⟨hstream, hm⟩ := Expression.tree_gathers htree
    refine ⟨Parser.adds_of_frames hstream rfl rfl, ?_⟩
    rcases Node.fold_eq_ok hfold with rfl | ⟨l, -, rfl⟩
    · exact hm
    · exact .literal l
  · cases hm

theorem quiet_expression : Quiet expression := fun h => (expression_adds h).1

theorem quiet_condition (place : Location) : Quiet (condition place) :=
  quiet_bind quiet_expression fun _ => quiet_bind (quiet_liftExcept _) fun _ => quiet_pure _

theorem quiet_loopCondition (t : Token) : Quiet (loopCondition t) := by
  refine quiet_bind quiet_current fun u => ?_
  split
  · exact quiet_pure _
  · exact quiet_bind (quiet_condition _) fun _ => quiet_pure _

theorem quiet_loopIncrement : Quiet loopIncrement := by
  refine quiet_bind quiet_current fun t => ?_
  split
  · exact quiet_pure _
  · exact quiet_bind quiet_expression fun _ => quiet_bind (quiet_liftExcept _) fun _ => quiet_pure _

theorem quiet_loopName : Quiet loopName := by
  refine quiet_bind quiet_get fun p => ?_
  split
  · exact quiet_bind quiet_advance fun _ => quiet_bind quiet_advance fun _ => quiet_pure _
  · exact quiet_pure _

theorem quiet_resultType (declared : DataType) : Quiet (resultType declared) := by
  refine quiet_bind (quiet_acceptOperator _) fun b => ?_
  split
  · refine quiet_bind (quiet_bind (quiet_expect _ _) fun _ => quiet_bind (quiet_liftExcept _)
      fun _ => quiet_pure _) fun result => ?_
    dsimp only
    split
    · exact quiet_throw _
    · exact quiet_pure _
  · exact quiet_pure _

theorem expect_beyond {p p' : Parser} {kind : Token.Kind} {what : String} {t : Token}
    (hk : kind ≠ .endOfFile) (h : expect kind what p = .ok t p') :
    t = p.stream.current ∧ p.stream.Beyond p'.stream := by
  have haccept := expect_ok h
  rw [accept_apply] at haccept
  split at haccept
  · next hkind =>
    cases haccept
    exact ⟨rfl, TokenStream.beyond_advance (hkind ▸ hk)⟩
  · cases haccept

theorem expectEndOfStatement_beyond {p p' : Parser} (h : expectEndOfStatement p = .ok () p') :
    p.stream.Beyond p'.stream := by
  obtain ⟨t, p₁, ht, r₁⟩ := bind_eq_ok.mp h
  cases r₁
  exact (expect_beyond (by decide) ht).2

theorem endHeader_beyond {p p' : Parser} (h : endHeader p = .ok () p') :
    p.stream.Beyond p'.stream := by
  obtain ⟨_, p₁, hend, r₁⟩ := bind_eq_ok.mp h
  exact (expectEndOfStatement_beyond hend).onward (quiet_expectMore r₁).stream

theorem declarationHead_adds {p p' : Parser} {head : DeclarationHead}
    (h : declarationHead p = .ok head p') :
    p.Adds [] p' ∧ p.stream.Beyond p'.stream ∧ head.name = p.stream.current := by
  obtain ⟨name, p₁, hname, r₁⟩ := bind_eq_ok.mp h
  obtain ⟨hcurrent, hbeyond⟩ := expect_beyond (by decide) hname
  obtain ⟨_, p₂, hcolon, r₂⟩ := bind_eq_ok.mp r₁
  obtain ⟨o, p₃, ho, r₃⟩ := bind_eq_ok.mp r₂
  have h₃ : p₁.Adds [] p₃ := (quiet_expectDelimiter _ hcolon).then (quiet_accept _ ho)
  cases o with
  | none =>
    cases r₃
    exact ⟨(quiet_expect _ _ hname).then h₃, hbeyond.onward h₃.stream, hcurrent⟩
  | some t =>
    obtain ⟨type, p₄, htype, r₄⟩ := bind_eq_ok.mp r₃
    obtain ⟨-, rfl⟩ := liftExcept_ok htype
    cases r₄
    exact ⟨(quiet_expect _ _ hname).then h₃, hbeyond.onward h₃.stream, hcurrent⟩

end Quiet

/-! ## Declarations -/

variable {p p' : Parser} {head : DeclarationHead} {n : Node}

theorem declare_adds {i : Identifier} (h : declare i p = .ok () p') : p.Adds [i] p' := by
  obtain ⟨symbols, hs, hpasses⟩ := declare_ok h
  have htokens : p'.stream.tokens = p.stream.tokens := hpasses.tokens.symm
  refine ⟨⟨fun hend => ?_, Nat.le_of_eq (congrArg List.length htokens)⟩, hpasses.level, ?_⟩
  · rwa [TokenStream.EndsAhead, htokens]
  · intro frame outer hframes
    have hs' : SymbolTable.declare? i ⟨frame :: outer⟩ = some symbols := by rw [← hframes, hs]
    obtain ⟨hfresh, rfl⟩ := declare?_eq_some hs'
    refine ⟨by rw [hpasses.symbols], Frame.gains_single ?_⟩
    intro hmem
    obtain ⟨j, hj, hname⟩ := List.mem_map.mp hmem
    exact hfresh j hj hname

theorem declareValue_adds {declared : Declared} (h : declareValue head declared p = .ok n p') :
    ∃ i, n.declared? = some i ∧ i.name = head.name.text ∧ n.blocks = [] ∧ p.Adds [i] p' := by
  obtain ⟨value, p₁, hvalue, r₁⟩ := bind_eq_ok.mp h
  obtain ⟨type, p₂, hlift, r₂⟩ := bind_eq_ok.mp r₁
  obtain ⟨-, rfl⟩ := liftExcept_ok hlift
  obtain ⟨_, p₃, hdeclare, r₃⟩ := bind_eq_ok.mp r₂
  cases r₃
  refine ⟨_, ?_, declared.name_identifier .., rfl,
    (quiet_expression hvalue).trans (declare_adds hdeclare)⟩
  cases declared <;> rfl

theorem declareVariable_adds (h : declareVariable head p = .ok n p') :
    ∃ i, n.declared? = some i ∧ i.name = head.name.text ∧ n.blocks = [] ∧ p.Adds [i] p' := by
  obtain ⟨b, p₁, hb, r₁⟩ := bind_eq_ok.mp h
  have h₁ := quiet_acceptOperator _ hb
  cases b with
  | true =>
    obtain ⟨i, hn, hi, hblocks, h₂⟩ := declareValue_adds r₁
    exact ⟨i, hn, hi, hblocks, h₁.trans h₂⟩
  | false =>
    simp only [Bool.false_eq_true, if_false] at r₁
    by_cases hauto : head.type = .auto
    · simp only [hauto] at r₁
      cases r₁
    by_cases hvoid : head.type = .void
    · simp only [hvoid] at r₁
      cases r₁
    let i := Declared.variable.identifier head.name.text head.type head.name.location
    have r₂ : (do declare i; return i.toNode : Parse Node) p₁ = .ok n p' := by
      rw [← r₁]
      simp only [i]
    obtain ⟨_, p₂, hdeclare, r₃⟩ := bind_eq_ok.mp r₂
    cases r₃
    exact ⟨i, rfl, rfl, rfl, h₁.trans (declare_adds hdeclare)⟩

theorem parameter_adds (h : parameter p = .ok n p') :
    ∃ i, n.declared? = some i ∧ p.Adds [i] p' := by
  obtain ⟨head, p₁, hhead, r₁⟩ := bind_eq_ok.mp h
  obtain ⟨h₁, -⟩ := declarationHead_adds hhead
  obtain ⟨b, p₂, hb, r₂⟩ := bind_eq_ok.mp r₁
  have h₂ := h₁.then (quiet_acceptDelimiter _ hb)
  cases b with
  | true =>
    obtain ⟨i, hn, -, -, h₃⟩ := declareValue_adds r₂
    exact ⟨i, hn, h₂.trans h₃⟩
  | false =>
    obtain ⟨i, hn, -, -, h₃⟩ := declareVariable_adds r₂
    exact ⟨i, hn, h₂.trans h₃⟩

theorem entries_cons {n : Node} {i : Identifier} (h : n.declared? = some i) (ns : List Node) :
    entries (n :: ns) = i :: entries ns :=
  List.filterMap_cons_some h

theorem parametersUpTo_adds {bound : Nat} {ns : List Node}
    (h : parametersUpTo bound p = .ok ns p') : p.Adds (entries ns) p' := by
  induction bound generalizing p ns with
  | zero => cases h
  | succ bound ih =>
    unfold parametersUpTo at h
    rw [get_bind] at h
    split at h
    · cases h
    · obtain ⟨first, p₁, hfirst, r₁⟩ := bind_eq_ok.mp h
      obtain ⟨i, hn, h₁⟩ := parameter_adds hfirst
      obtain ⟨b, p₂, hb, r₂⟩ := bind_eq_ok.mp r₁
      have h₂ := h₁.then (quiet_acceptDelimiter _ hb)
      cases b with
      | false =>
        cases r₂
        rw [entries_cons hn]
        exact h₂
      | true =>
        obtain ⟨more, p₃, hmore, r₃⟩ := bind_eq_ok.mp r₂
        cases r₃
        rw [entries_cons hn]
        exact h₂.trans (ih hmore)

theorem parameters_adds {ns : List Node} (h : parameters p = .ok ns p') :
    p.Adds (entries ns) p' := by
  obtain ⟨_, p₁, hopen, r₁⟩ := bind_eq_ok.mp h
  have h₁ := quiet_expectDelimiter _ hopen
  have r₂ : ((if p₁.stream.current.isDelimiter ")" then pure []
      else parametersUpTo p₁.stream.tokens.length) >>= fun nodes => do
        expectDelimiter ")"
        return nodes : Parse (List Node)) p₁ = .ok ns p' := by
    rw [get_bind] at r₁
    rw [← r₁]
    split <;> rfl
  obtain ⟨ns', p₂, hns, r₃⟩ := bind_eq_ok.mp r₂
  obtain ⟨_, p₃, hclose, r₄⟩ := bind_eq_ok.mp r₃
  cases r₄
  have h₂ : p₁.Adds (entries ns) p₂ := by
    split at hns
    · cases hns
      exact .refl p₁
    · exact parametersUpTo_adds hns
  exact (h₁.trans h₂).then (quiet_expectDelimiter _ hclose)

end Parse

end Offside
