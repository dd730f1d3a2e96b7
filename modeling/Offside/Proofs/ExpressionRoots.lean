import Offside.Proofs.DeclaredTypes
import Offside.Proofs.ExpressionPlaces
import Offside.Proofs.WordPlaces

/-!
# The expressions of a tree

A tree shows its expressions as whole nodes: conditions, increments, ranges, values of declarations, and
statements of their own. A declaration with a value looks like an assignment, and only its place tells them
apart: a declaration has the place of its name, an assignment that of its operator.
-/

namespace Offside

set_option autoImplicit false

open Rules

mutual

/-- The expressions that stand in a statement, each with all of its parts. -/
def Node.expressions : Node → List Node
  | .function _ parameters body => Node.expressionsAll parameters ++ Scope.expressionsOption body
  | .scope s => s.expressions
  | .branch condition consequence alternative _ =>
    condition :: consequence.expressions ++ Scope.expressionsOption alternative
  | .whileLoop condition body _ => condition :: body.expressions
  | .forLoop init condition increment body _ =>
    Node.expressionsOption init ++ condition.toList ++ increment.toList ++ body.expressions
  | .rangeLoop range body _ => range.expressions ++ body.expressions
  | .binary o left right place =>
    if left.location? = some place then [right] else [.binary o left right place]
  | n => [n]

def Node.expressionsAll : List Node → List Node
  | [] => []
  | n :: ns => n.expressions ++ Node.expressionsAll ns

def Node.expressionsOption : Option Node → List Node
  | none => []
  | some n => n.expressions

def Scope.expressions : Scope → List Node
  | ⟨statements, _⟩ => Node.expressionsAll statements

def Scope.expressionsOption : Option Scope → List Node
  | none => []
  | some s => s.expressions

end

/-- A whole expression of the source, or the name of a variable that is declared without a value. -/
def Node.IsRoot (n : Node) : Prop :=
  (∃ symbols ts, Expressed symbols ts n) ∨ ∃ v, n = .var v

/-- A word that is no operator stands there. -/
def NameAt (all : List Token) (place : Location) : Prop :=
  ∃ t ∈ all, t.endsStatement = false ∧ t.kind ≠ .operator ∧ t.location = place

/-- Every declared name stands at such a word. -/
abbrev NamesAt (all : List Token) (symbols : SymbolTable) : Prop :=
  symbols.Every fun i => NameAt all i.location

variable {all line ts : List Token} {symbols symbols' : SymbolTable}

/-- Words of the source text, in their order. -/
structure Words (all line : List Token) : Prop where
  tokens : line.Sublist all
  words : ∀ t ∈ line, t.endsStatement = false

theorem Words.sublist (h : Words all line) (hts : ts.Sublist line) : Words all ts :=
  ⟨hts.trans h.tokens, fun t ht => h.words t (hts.subset ht)⟩

theorem Words.nameAt (h : Words all line) {t : Token} (ht : t ∈ line) (hk : t.kind ≠ .operator) :
    NameAt all t.location :=
  ⟨t, h.tokens.subset ht, h.words t ht, hk, rfl⟩

theorem TakesLine.words_sublist {tokens rest : List Token} (h : TakesLine tokens line rest)
    (htokens : tokens <:+ all) : Words all line := by
  obtain ⟨stop, -, rfl⟩ := h.stop
  exact ⟨(List.sublist_append_left line _).trans htokens.sublist, h.words⟩

/-! ## Assignments and declarations -/

/-- An expression has the place of a token, or that of the name that it consists of. -/
theorem Phrase.Grammatical.location {q : Phrase} (h : q.Grammatical symbols) :
    ∃ place, q.node.location? = some place ∧
      (Placed q.tokens place ∨ ∃ frame ∈ symbols.frames, ∃ i ∈ frame, i.location = place) := by
  induction h with
  | @operand t n hn =>
    cases hn with
    | literal _ hl =>
      have hplace := (Expression.location_ofToken t).1 _ hl
      exact ⟨_, rfl, .inl ⟨t, List.mem_singleton_self t, hplace.symm⟩⟩
    | var _ hl =>
      obtain ⟨frame, hframe, hi⟩ := SymbolTable.mem_of_lookup? hl
      exact ⟨_, rfl, .inr ⟨frame, hframe, _, hi, rfl⟩⟩
    | reference _ hl =>
      obtain ⟨frame, hframe, hi⟩ := SymbolTable.mem_of_lookup? hl
      exact ⟨_, rfl, .inr ⟨frame, hframe, _, hi, rfl⟩⟩
  | @enclosed a b p _ _ _ ih =>
    obtain ⟨place, hplace, ⟨t, ht, htp⟩ | hname⟩ := ih
    · refine ⟨place, hplace, .inl ⟨t, ?_, htp⟩⟩
      exact List.mem_append_left _ (List.mem_cons_of_mem _ ht)
    · exact ⟨place, hplace, .inr hname⟩
  | before => exact ⟨_, rfl, .inl ⟨_, List.mem_cons_self .., rfl⟩⟩
  | behind => exact ⟨_, rfl, .inl ⟨_, List.mem_cons_of_mem _ (List.mem_cons_self ..), rfl⟩⟩
  | between => exact ⟨_, rfl, .inl ⟨_, List.mem_append_right _ (List.mem_cons_self ..), rfl⟩⟩

/-- No operator stands where its left operand does. -/
theorem Phrase.Grammatical.location_left {q : Phrase} (h : q.Grammatical symbols) (hall : Apart all)
    (hs : NamesAt all symbols) (hq : Words all q.tokens) {o : Operator} {left right : Node}
    {place : Location} (hnode : q.node = .binary o left right place) : left.location? ≠ some place := by
  induction h with
  | operand hn => cases hn <;> cases hnode
  | @enclosed a b p _ _ _ ih =>
    have hinner : p.tokens.Sublist (Phrase.enclosed a p b).tokens :=
      (List.sublist_cons_self a _).trans (List.sublist_append_left _ _)
    exact ih (hq.sublist hinner) hnode
  | before => cases hnode
  | behind => cases hnode
  | @between l r t o hl ht _ _ _ _ =>
    cases hnode
    have hop : t ∈ (Phrase.between l t o r).tokens := List.mem_append_right _ (List.mem_cons_self ..)
    have hopword := hq.words t hop
    intro hsame
    obtain ⟨place, hplace, ⟨u, hu, huplace⟩ | ⟨frame, hframe, i, hi, hiplace⟩⟩ := hl.location
    · have hne := Apart.of_append (hall.sublist hq.tokens) hu (List.mem_cons_self ..)
        (hq.words u (List.mem_append_left _ hu)) hopword
      rw [hplace] at hsame
      exact hne (huplace.trans (Option.some.inj hsame))
    · obtain ⟨u, hu, huword, hukind, huplace⟩ := hs frame hframe i hi
      rw [hplace] at hsame
      have heq : u = t := hall.eq_of_location hu (hq.tokens.subset hop) huword hopword
        (huplace.trans (hiplace.trans (Option.some.inj hsame)))
      rw [heq] at hukind
      exact hukind (Token.kind_of_isOperator ht)

/-- As a statement, an expression is taken for what it is. -/
theorem Expressed.expressions {n : Node} (h : Expressed symbols line n) (hall : Apart all)
    (hs : NamesAt all symbols) (hline : Words all line) : n.expressions = [n] := by
  have hn := h.isExpression
  obtain ⟨q, hq, -, rfl, -, -, hfold⟩ := h
  cases hn with
  | literal | var | reference | unary => rfl
  | binary =>
    rw [Node.expressions, if_neg]
    rcases Node.fold_eq_ok hfold with hnode | ⟨l, -, hl⟩
    · exact hq.location_left hall hs hline hnode.symm
    · cases hl

namespace Rules

theorem Declares.roots {d : Declared} {n : Node} {i : Identifier} (h : Declares symbols d ts n i) :
    ∀ e ∈ n.expressions, e.IsRoot := by
  cases h with
  | @value _ us head _ declared value type _ _ he =>
    have hplace := (declared.identifier head.name.text type head.name.location).location?_toNode
    rw [declared.location_identifier] at hplace
    rw [Node.expressions, if_pos hplace]
    exact List.forall_mem_singleton.mpr (.inl ⟨symbols, us, he⟩)
  | bare => exact List.forall_mem_singleton.mpr (.inr ⟨_, rfl⟩)

/-- A declaration stands at the name in front of it. -/
theorem Declares.nameAt {d : Declared} {n : Node} {i : Identifier} (h : Declares symbols d ts n i)
    (hts : Words all ts) : NameAt all i.location := by
  cases h with
  | @value _ us head t declared _ _ hhead =>
    obtain ⟨more, rfl, hk⟩ := hhead.first
    rw [declared.location_identifier]
    exact hts.nameAt (List.mem_append_left _ (List.mem_cons_self ..)) (by simp [hk])
  | @bare _ head hhead =>
    obtain ⟨more, rfl, hk⟩ := hhead.first
    exact hts.nameAt (List.mem_cons_self ..) (by simp [hk])

theorem Parameters.roots {ns : List Node} (h : Parameters symbols ts ns symbols')
    (hs : NamesAt all symbols) (hts : Words all ts) :
    NamesAt all symbols' ∧ ∀ e ∈ Node.expressionsAll ns, e.IsRoot := by
  induction h with
  | last hd hi =>
    refine ⟨hs.declare? (hd.nameAt hts) hi, ?_⟩
    exact List.forall_mem_append.mpr ⟨hd.roots, List.forall_mem_nil _⟩
  | @more _ _ _ ts us _ _ _ comma hd hi _ _ ih =>
    have hfirst := hts.sublist (List.sublist_append_left ts (comma :: us))
    have hmore := hts.sublist ((List.sublist_cons_self comma us).trans (List.sublist_append_right ts _))
    obtain ⟨hafter, hroots⟩ := ih (hs.declare? (hd.nameAt hfirst) hi) hmore
    exact ⟨hafter, List.forall_mem_append.mpr ⟨hd.roots, hroots⟩⟩

theorem Signature.roots {head : DeclarationHead} {ns : List Node} {returns : DataType}
    {inner : SymbolTable} (h : Signature symbols line head ns returns inner)
    (hs : NamesAt all symbols) (hline : Words all line) :
    NamesAt all inner ∧ NameAt all head.name.location ∧
      ∀ e ∈ Node.expressionsAll ns, e.IsRoot := by
  obtain @⟨ts, ps, rs, colon, opening, closing, _, _, _, _, hhead, -, -, hps, -, -⟩ := h
  obtain ⟨more, rfl, hk⟩ := hhead.first
  have hname : NameAt all head.name.location := hline.nameAt (by simp) (by simp [hk])
  cases hps with
  | none => exact ⟨hs.openFrame, hname, List.forall_mem_nil _⟩
  | some hps =>
    have hlist : Words all ps := by
      refine hline.sublist ?_
      refine List.Sublist.trans ?_ (List.sublist_append_left _ _)
      refine List.Sublist.trans ?_ (List.sublist_append_right _ _)
      exact (List.sublist_cons_self _ ps).trans (List.sublist_cons_self _ _)
    obtain ⟨hinner, hroots⟩ := hps.roots hs.openFrame hlist
    exact ⟨hinner, hname, hroots⟩

theorem OptionalExpression.roots {allowed : DataType → Prop} {o : Option Node}
    (h : OptionalExpression symbols allowed ts o) : ∀ e ∈ o.toList, e.IsRoot := by
  cases h with
  | none => exact List.forall_mem_nil _
  | some he => exact List.forall_mem_singleton.mpr (.inl ⟨symbols, ts, he⟩)

theorem LoopInit.roots {o : Option Node} (h : LoopInit symbols ts o symbols')
    (hs : NamesAt all symbols) (hts : Words all ts) :
    NamesAt all symbols' ∧ ∀ e ∈ Node.expressionsOption o, e.IsRoot := by
  cases h with
  | none => exact ⟨hs, List.forall_mem_nil _⟩
  | some hd _ hi => exact ⟨hs.declare? (hd.nameAt hts) hi, hd.roots⟩

theorem Range.roots {keyword : Token} {i : Identifier} {range : Node} {place : Location}
    (h : Range symbols keyword line i range place) (hline : Words all (keyword :: line))
    (hk : keyword.kind ≠ .operator) :
    NameAt all i.location ∧
      ∀ e ∈ (Node.binary .assignment i.toNode range place).expressions, e.IsRoot := by
  obtain @⟨ts, us, name, _, _, type, hname, he, -⟩ := h
  constructor
  · cases hname with
    | implicit => exact hline.nameAt (List.mem_cons_self ..) hk
    | written hkind =>
      exact hline.nameAt (List.mem_cons_of_mem _ (List.mem_cons_self ..)) (by simp [hkind])
  · have hplace : (Declared.variable.identifier name type place).toNode.location? = some place := rfl
    rw [Node.expressions, if_pos hplace]
    exact List.forall_mem_singleton.mpr (.inl ⟨symbols, us, he⟩)

def Product.expressions : Product → List Node
  | .statement n => n.expressions
  | .lines _ ns => Node.expressionsAll ns
  | .block s | .body s => s.expressions

end Rules

/-! ## The tree -/

/-- What is read up to a state belongs to the source text. -/
structure Within (all : List Token) (state : State) : Prop where
  tokens : state.tokens <:+ all
  names : NamesAt all state.symbols

theorem Derives.roots {level : Nat} {before after : State} {product : Product}
    (h : Derives level before product after) (hall : Apart all)
    (hkeyword : ∀ t ∈ all, t.keyword ≠ none → t.kind ≠ .operator) (hb : Within all before) :
    Within all after ∧ ∀ e ∈ product.expressions, e.IsRoot := by
  induction h with
  | expression hline _ _ he =>
    have hwords := hline.words_sublist hb.tokens
    refine ⟨⟨hline.suffix.trans hb.tokens, hb.names⟩, ?_⟩
    rw [Product.expressions, he.expressions hall hb.names hwords]
    exact List.forall_mem_singleton.mpr (.inl ⟨_, _, he⟩)
  | declaration hline hd hi =>
    have hwords := hline.words_sublist hb.tokens
    exact ⟨⟨hline.suffix.trans hb.tokens, hb.names.declare? (hd.nameAt hwords) hi⟩, hd.roots⟩
  | @function _ _ _ _ _ _ _ next head _ returns _ _ hline hsig hi _ ih =>
    have hwords := hline.words_sublist hb.tokens
    obtain ⟨hinner, hname, hparameters⟩ := hsig.roots hb.names hwords
    have hdeclared := hinner.close.2.declare? (P := fun i => NameAt all i.location)
      (i := .function ⟨next, head.name.text, returns, head.name.location⟩) hname hi
    obtain ⟨hafter, hbody⟩ :=
      ih ⟨hline.suffix.trans hb.tokens, hdeclared.reopen hinner.close.1⟩
    exact ⟨hafter, List.forall_mem_append.mpr ⟨hparameters, hbody⟩⟩
  | branch hline _ he _ _ _ ih =>
    obtain ⟨hafter, hbody⟩ := ih ⟨hline.suffix.trans hb.tokens, hb.names.openFrame⟩
    have htest : Node.IsRoot _ := .inl ⟨_, _, he⟩
    exact ⟨hafter, List.forall_mem_cons.mpr ⟨htest, List.forall_mem_append.mpr
      ⟨hbody, List.forall_mem_nil _⟩⟩⟩
  | alternative hline _ he _ _ hline' _ _ _ ih ih' =>
    obtain ⟨hbetween, hbody⟩ := ih ⟨hline.suffix.trans hb.tokens, hb.names.openFrame⟩
    obtain ⟨hafter, hbody'⟩ := ih' ⟨hline'.suffix.trans hbetween.tokens, hbetween.names.openFrame⟩
    have htest : Node.IsRoot _ := .inl ⟨_, _, he⟩
    exact ⟨hafter, List.forall_mem_cons.mpr ⟨htest, List.forall_mem_append.mpr ⟨hbody, hbody'⟩⟩⟩
  | whileLoop hline _ he _ _ ih =>
    obtain ⟨hafter, hbody⟩ := ih ⟨hline.suffix.trans hb.tokens, hb.names.openFrame⟩
    have htest : Node.IsRoot _ := .inl ⟨_, _, he⟩
    exact ⟨hafter, List.forall_mem_cons.mpr ⟨htest, hbody⟩⟩
  | threePartLoop hline _ hparts _ ih =>
    obtain @⟨ts, us, vs, comma, comma', _, _, _, _, hinit, -, htest, -, hincrement⟩ := hparts
    have hwords := hline.words_sublist hb.tokens
    have hfirst : Words all ts := by
      refine hwords.sublist (List.Sublist.trans ?_ (List.sublist_cons_self _ _))
      exact (List.sublist_append_left ts _).trans (List.sublist_append_left _ _)
    obtain ⟨hinner, hroots⟩ := hinit.roots hb.names.openFrame hfirst
    obtain ⟨hafter, hbody⟩ := ih ⟨hline.suffix.trans hb.tokens, hinner⟩
    have hheader := List.forall_mem_append.mpr ⟨hroots, htest.roots⟩
    have hheader := List.forall_mem_append.mpr ⟨hheader, hincrement.roots⟩
    exact ⟨hafter, List.forall_mem_append.mpr ⟨hheader, hbody⟩⟩
  | @rangeLoop _ _ _ _ _ _ _ keyword _ _ _ _ _ hline hk hrange hi _ ih =>
    have hwords := hline.words_sublist hb.tokens
    have hmem : keyword ∈ all := hwords.tokens.subset (List.mem_cons_self ..)
    have hword : keyword.keyword ≠ none := by simp_all [Token.isKeyword]
    obtain ⟨hname, hroots⟩ := hrange.roots hwords (hkeyword keyword hmem hword)
    obtain ⟨hafter, hbody⟩ :=
      ih ⟨hline.suffix.trans hb.tokens, hb.names.openFrame.declare? hname hi⟩
    exact ⟨hafter, List.forall_mem_append.mpr ⟨hroots, hbody⟩⟩
  | stop => exact ⟨hb, List.forall_mem_nil _⟩
  | here _ _ _ _ ih ih' =>
    obtain ⟨hbetween, hfirst⟩ := ih hb
    obtain ⟨hafter, hmore⟩ := ih' hbetween
    exact ⟨hafter, List.forall_mem_append.mpr ⟨hfirst, hmore⟩⟩
  | deeper _ _ _ _ ih ih' =>
    obtain ⟨hbetween, hblock⟩ := ih ⟨hb.tokens, hb.names.openFrame⟩
    obtain ⟨hafter, hmore⟩ := ih' hbetween
    exact ⟨hafter, List.forall_mem_append.mpr ⟨hblock, hmore⟩⟩
  | block _ ih =>
    obtain ⟨hafter, hlines⟩ := ih hb
    exact ⟨⟨hafter.tokens, hafter.names.close.2⟩, hlines⟩
  | body _ _ _ ih => exact ih hb

theorem Lined.kind_of_keyword {level : Option Nat} {ts : List Token} (h : Lined level ts) :
    ∀ t ∈ ts, t.keyword ≠ none → t.kind ≠ .operator := by
  induction h with
  | done _ hk => exact List.forall_mem_singleton.mpr fun h => absurd hk h
  | first hw _ ih | word hw _ ih =>
    refine List.forall_mem_cons.mpr ⟨fun hk => ?_, ih⟩
    rw [hw.keyword_iff.mp (Option.isSome_iff_ne_none.mpr hk)]
    nofun
  | stop _ hk _ ih => exact List.forall_mem_cons.mpr ⟨fun h => absurd hk h, ih⟩

theorem roots_compile {file source : String} {s : Scope} (h : compile file source = .ok s) :
    ∀ e ∈ s.expressions, e.IsRoot := by
  obtain ⟨tokens, stop, symbols, next, htokens, -, hderives⟩ := compile_derives h
  have hstart : Within tokens ⟨tokens, SymbolTable.empty.openFrame, 0⟩ :=
    ⟨List.suffix_rfl, SymbolTable.every_empty.openFrame⟩
  exact (hderives.roots (apart_tokenize htokens) (lined_tokenize htokens).kind_of_keyword hstart).2

/-- Folding changes no type and leaves nothing to fold, so that no expression of a tree can be folded. -/
theorem fold_stable :
    (∀ n m : Node, n.fold = .ok m →
      m.type? = n.type? ∧ (m = n ∨ ∃ l, m = .literal l) ∧ m.fold = .ok m) ∧
    ∀ (file source : String) (s : Scope), compile file source = .ok s →
      ∀ e ∈ s.expressions, e.fold = .ok e := by
  constructor
  · intro n m h
    refine ⟨Node.type?_fold h, ?_, Node.fold_fold h⟩
    rcases Node.fold_eq_ok h with heq | ⟨l, -, hl⟩
    · exact .inl heq
    · exact .inr ⟨l, hl⟩
  · intro file source s h e he
    rcases roots_compile h e he with ⟨symbols, ts, q, -, -, -, -, -, hfold⟩ | ⟨v, rfl⟩
    · exact Node.fold_fold hfold
    · rfl

/-- A value that is folded, and an assignment of one that is not, since the name in front of it has none. -/
theorem fold_stable_assignment :
    (∃ n m : Node, n.fold = .ok m ∧ n.literal?.isNone ∧ m.type? = n.type? ∧
      (m = n ∨ ∃ l, m = .literal l) ∧ m.fold = .ok m) ∧
    ∃ s, compile "" "a := 1 + 2\na = 3 - 1\n" = .ok s ∧
      s.expressions.map Node.binaryOperator? = [none, some .assignment] ∧
      ∀ e ∈ s.expressions, e.fold = .ok e := by
  constructor
  · let one : Node := .literal ⟨.int 1, ⟨"", 1, 6⟩⟩
    have hfold : (Node.binary .add one one ⟨"", 1, 8⟩).fold =
        .ok (.literal ⟨.int 2, ⟨"", 1, 6⟩⟩) := rfl
    exact ⟨_, _, hfold, rfl, fold_stable.1 _ _ hfold⟩
  · have hok : ((compile "" "a := 1 + 2\na = 3 - 1\n").map fun s =>
        s.expressions.map Node.binaryOperator?).toOption = some [none, some .assignment] := by
      decide +kernel
    obtain ⟨s, hs, hoperators⟩ := Execution.exists_ok_of_map hok
    exact ⟨s, hs, hoperators, fold_stable.2 "" _ s hs⟩

end Offside
