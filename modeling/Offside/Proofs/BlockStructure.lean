import Mathlib.Data.List.Forall2
import Offside.Proofs.BlockReading

/-!
# Blocks are indentation

The tree of a source text has one entry for each of its lines, in their order. The entry of a line is the
statement that the line says, and stands as deep in the tree as the line is indented.
-/

namespace Offside

set_option autoImplicit false

open Rules

/-- The tokens in front of each end of statement. -/
def logicalLines : List Token → List (List Token)
  | [] => []
  | t :: rest =>
    if t.kind = .endOfStatement then [] :: logicalLines rest
    else
      match logicalLines rest with
      | [] => []
      | line :: lines => (t :: line) :: lines

theorem logicalLines_of_takesLine {tokens line rest : List Token}
    (h : TakesLine tokens line rest) : logicalLines tokens = line :: logicalLines rest := by
  obtain ⟨stop, hk, rfl⟩ := h.stop
  have hwords := h.words
  clear h
  induction line with
  | nil => simp [logicalLines, hk]
  | cons t line ih =>
    obtain ⟨ht, hline⟩ := List.forall_mem_cons.mp hwords
    have hne : t.kind ≠ .endOfStatement := by
      intro h
      simp [Token.endsStatement, h] at ht
    rw [List.cons_append, logicalLines, if_neg hne, ih hline]

/-- What a line says of the statement that begins on it: all of it but its block. -/
inductive BeginsStatement : List Token → Node → Prop where
  | expression {symbols : SymbolTable} {line : List Token} {n : Node} : Expressed symbols line n →
      BeginsStatement line n
  | declaration {symbols : SymbolTable} {line : List Token} {n : Node} {i : Identifier} :
      Declares symbols .constant line n i → BeginsStatement line n
  | function {symbols inner : SymbolTable} {line : List Token} {head : DeclarationHead}
      {ns : List Node} {returns : DataType} {id : FunctionId} {body : Option Scope} :
      Signature symbols line head ns returns inner →
      BeginsStatement line (.function ⟨id, head.name.text, returns, head.name.location⟩ ns body)
  | branch {symbols : SymbolTable} {keyword : Token} {line : List Token} {test : Node} {s : Scope}
      {alternative : Option Scope} : keyword.isKeyword .ifThen → Expressed symbols line test →
      BeginsStatement (keyword :: line) (.branch test s alternative keyword.location)
  | whileLoop {symbols : SymbolTable} {keyword : Token} {line : List Token} {test : Node}
      {s : Scope} : keyword.isKeyword .whileLoop → Expressed symbols line test →
      BeginsStatement (keyword :: line) (.whileLoop test s keyword.location)
  | threePartLoop {symbols inner : SymbolTable} {keyword : Token} {line : List Token}
      {init test increment : Option Node} {s : Scope} : keyword.isKeyword .forLoop →
      ThreeParts symbols line init test increment inner →
      BeginsStatement (keyword :: line) (.forLoop init test increment s keyword.location)
  | rangeLoop {symbols : SymbolTable} {keyword : Token} {line : List Token} {i : Identifier}
      {range : Node} {location : Location} {s : Scope} : keyword.isKeyword .forLoop →
      Range symbols keyword line i range location →
      BeginsStatement (keyword :: line)
        (.rangeLoop (.binary .assignment i.toNode range location) s keyword.location)

/-- An entry of a tree: how deep it stands, the keyword that it begins with, and its statement. An
alternative is no statement of its own. -/
structure Entry where
  depth : Nat
  keyword : Option Keyword
  statement : Option Node

mutual

/-- The entries of a statement that stands at `depth`, in the order of the source. -/
def Node.outline (depth : Nat) (n : Node) : List Entry :=
  match n with
  | .scope s => s.outline (depth + 1)
  | .function _ _ body => ⟨depth, none, some n⟩ :: Scope.outlineOption (depth + 1) [] body
  | .branch _ consequence alternative _ =>
    ⟨depth, some .ifThen, some n⟩ :: consequence.outline (depth + 1) ++
      Scope.outlineOption (depth + 1) [⟨depth, some .orElse, none⟩] alternative
  | .whileLoop _ body _ => ⟨depth, some .whileLoop, some n⟩ :: body.outline (depth + 1)
  | .forLoop _ _ _ body _ | .rangeLoop _ body _ =>
    ⟨depth, some .forLoop, some n⟩ :: body.outline (depth + 1)
  | .literal _ | .var _ | .constant _ | .reference _ | .unary _ _ _ | .binary _ _ _ _ =>
    [⟨depth, none, some n⟩]

def Node.outlineAll (depth : Nat) : List Node → List Entry
  | [] => []
  | n :: ns => n.outline depth ++ Node.outlineAll depth ns

def Scope.outline (depth : Nat) : Scope → List Entry
  | ⟨statements, _⟩ => Node.outlineAll depth statements

/-- A block that may be missing, behind the entry of its own that it has. -/
def Scope.outlineOption (depth : Nat) (own : List Entry) : Option Scope → List Entry
  | none => []
  | some s => own ++ s.outline depth

end

/-- The line says the statement of the entry and begins with its keyword, and all of its tokens are as deep
as the entry. The line of an alternative is the keyword alone. -/
structure Entry.Fits (e : Entry) (line : List Token) : Prop where
  first : ∃ t ∈ line.head?, t.keyword = e.keyword
  level : ∀ t ∈ line, t.level = e.depth
  begins : ∀ n ∈ e.statement, BeginsStatement line n
  alone : e.statement = none → line.length = 1

/-- An expression or a declaration: a statement that has no block. -/
def Node.isLine : Node → Bool
  | .literal _ | .var _ | .constant _ | .reference _ | .unary _ _ _ | .binary _ _ _ _ => true
  | .function _ _ _ | .scope _ | .branch _ _ _ _ | .whileLoop _ _ _ | .forLoop _ _ _ _ _
  | .rangeLoop _ _ _ => false

mutual

/-- Each block that no statement has for its own stands right behind a statement that has no block. The
outline alone would not tell such a block from a part of the block in front of it. -/
def Node.BlocksApart : Node → Prop
  | .scope s => s.BlocksApart
  | .function _ _ body => Scope.BlocksApartOption body
  | .branch _ consequence alternative _ =>
    consequence.BlocksApart ∧ Scope.BlocksApartOption alternative
  | .whileLoop _ body _ | .forLoop _ _ _ body _ | .rangeLoop _ body _ => body.BlocksApart
  | .literal _ | .var _ | .constant _ | .reference _ | .unary _ _ _ | .binary _ _ _ _ => True

/-- `behind` says that the statement in front of them has no block. -/
def Node.BlocksApartAll (behind : Bool) : List Node → Prop
  | [] => True
  | n :: ns =>
    (n.scope?.isSome → behind = true) ∧ n.BlocksApart ∧ Node.BlocksApartAll n.isLine ns

def Scope.BlocksApart : Scope → Prop
  | ⟨statements, _⟩ => Node.BlocksApartAll false statements

def Scope.BlocksApartOption : Option Scope → Prop
  | none => True
  | some s => s.BlocksApart

end

def Rules.Product.outline (level : Nat) : Product → List Entry
  | .statement n => n.outline level
  | .lines _ ns => Node.outlineAll level ns
  | .block s => s.outline level
  | .body s => s.outline (level + 1)

theorem Node.IsExpression.isLine {n : Node} (h : n.IsExpression) : n.isLine = true := by
  cases h <;> rfl

theorem isLine_of_declares {symbols : SymbolTable} {d : Declared} {ts : List Token} {n : Node}
    {i : Identifier} (h : Declares symbols d ts n i) : n.isLine = true := by
  cases h <;> rfl

theorem Node.outline_of_isLine {n : Node} (h : n.isLine = true) (depth : Nat) :
    n.outline depth = [⟨depth, none, some n⟩] := by
  cases n with
  | literal | var | constant | reference | unary | binary => rfl
  | _ => cases h

theorem first_of_declares {symbols : SymbolTable} {d : Declared} {ts : List Token} {n : Node}
    {i : Identifier} (h : Declares symbols d ts n i) :
    ∃ name more, ts = name :: more ∧ name.kind = .identifier := by
  cases h with
  | value hhead =>
    obtain ⟨more, rfl, hk⟩ := hhead.first
    exact ⟨_, _, rfl, hk⟩
  | bare hhead =>
    obtain ⟨more, rfl, hk⟩ := hhead.first
    exact ⟨_, _, rfl, hk⟩

theorem keyword_of_identifier {t : Token} (h : IsWord t) (hk : t.kind = .identifier) :
    t.keyword = none := by
  have := h.keyword_iff
  cases hkw : t.keyword with
  | none => rfl
  | some => simp [hkw, hk] at this

/-- The entries are those of the lines between two places of the tokens. -/
structure Outlines (entries : List Entry) (before after : List Token) : Prop where
  lined : Lined none after
  lines : ∃ lines, logicalLines before = lines ++ logicalLines after ∧
    List.Forall₂ Entry.Fits entries lines

theorem Outlines.refl {tokens : List Token} (h : Lined none tokens) : Outlines [] tokens tokens :=
  ⟨h, [], rfl, .nil⟩

theorem Outlines.trans {es fs : List Entry} {ts us vs : List Token} (h₁ : Outlines es ts us)
    (h₂ : Outlines fs us vs) : Outlines (es ++ fs) ts vs := by
  obtain ⟨_, lines, hl, hfits⟩ := h₁
  obtain ⟨hlined, more, hm, hmore⟩ := h₂
  refine ⟨hlined, lines ++ more, ?_, List.rel_append hfits hmore⟩
  rw [hl, hm, List.append_assoc]

/-- The line of a statement. -/
theorem Outlines.line {tokens line rest : List Token} {depth : Nat} {k : Option Keyword} {n : Node}
    (h : Lined none tokens) (ht : TakesLine tokens line rest)
    (hdepth : ∀ t ∈ tokens.head?, t.level = depth)
    (hkeyword : ∀ t more, line = t :: more → IsWord t → t.keyword = k) (hn : BeginsStatement line n) :
    Outlines [⟨depth, k, some n⟩] tokens rest := by
  obtain ⟨first, more, rfl, hwords, hrest⟩ := h.takesLine ht
  have hlevel : first.level = depth := by
    obtain ⟨stop, -, rfl⟩ := ht.stop
    exact hdepth first rfl
  refine ⟨hrest, [first :: more], logicalLines_of_takesLine ht, .cons ⟨?_, ?_, ?_, nofun⟩ .nil⟩
  · exact ⟨first, rfl, hkeyword first more rfl (hwords first List.mem_cons_self).1⟩
  · exact fun t ht => (hwords t ht).2.trans hlevel
  · rintro n ⟨⟩
    exact hn

theorem Outlines.header {tokens line rest : List Token} {t : Token} {k : Keyword} {depth : Nat}
    {n : Node} (h : Lined none tokens) (ht : TakesLine tokens (t :: line) rest) (hk : t.isKeyword k)
    (hdepth : ∀ t ∈ tokens.head?, t.level = depth) (hn : BeginsStatement (t :: line) n) :
    Outlines [⟨depth, some k, some n⟩] tokens rest := by
  refine .line h ht hdepth (fun u more hline _ => ?_) hn
  obtain ⟨rfl, -⟩ := List.cons.inj hline
  simpa [Token.isKeyword] using hk

theorem Outlines.alternative {tokens rest : List Token} {t : Token} (h : Lined none tokens)
    (ht : TakesLine tokens [t] rest) (hk : t.isKeyword .orElse) :
    Outlines [⟨t.level, some .orElse, none⟩] tokens rest := by
  obtain ⟨first, more, hline, -, hrest⟩ := h.takesLine ht
  refine ⟨hrest, [[t]], logicalLines_of_takesLine ht, .cons ⟨⟨t, rfl, ?_⟩, ?_, nofun, ?_⟩ .nil⟩
  · simpa [Token.isKeyword] using hk
  · exact List.forall_mem_singleton.mpr rfl
  · exact fun _ => rfl

theorem Derives.outlines {level : Nat} {before after : State} {product : Product}
    (h : Derives level before product after) (hlined : Lined none before.tokens)
    (hlevel : ∀ n, product = .statement n → ∀ t ∈ before.tokens.head?, t.level = level) :
    Outlines (product.outline level) before.tokens after.tokens := by
  induction h with
  | expression ht _ hk he =>
    rw [Product.outline, Node.outline_of_isLine he.isExpression.isLine]
    exact .line hlined ht (hlevel _ rfl) (fun t more hline _ => hk t (by simp [hline])) (.expression he)
  | declaration ht hd =>
    rw [Product.outline, Node.outline_of_isLine (isLine_of_declares hd)]
    refine .line hlined ht (hlevel _ rfl) (fun t more hline hw => ?_) (.declaration hd)
    obtain ⟨name, _, hname, hk⟩ := first_of_declares hd
    obtain ⟨rfl, -⟩ := List.cons.inj (hname.symm.trans hline)
    exact keyword_of_identifier hw hk
  | @function level tokens _ rest _ _ _ next head ns returns s _ ht hsig _ _ ih =>
    have hline : Outlines [⟨level, none, some (.function
        ⟨next, head.name.text, returns, head.name.location⟩ ns (some s))⟩] tokens rest := by
      refine .line hlined ht (hlevel _ rfl) (fun t more hline hw => ?_) (.function hsig)
      cases hsig with
      | mk hhead =>
        obtain ⟨_, rfl, hk⟩ := hhead.first
        obtain ⟨rfl, -⟩ := List.cons.inj hline
        exact keyword_of_identifier hw hk
    exact hline.trans (ih hline.lined nofun)
  | @branch _ _ _ _ _ _ _ _ s _ ht hk he _ _ _ ih =>
    have hline := Outlines.header (n := .branch _ s none _) hlined ht hk (hlevel _ rfl) (.branch hk he)
    have hbody := hline.trans (ih hline.lined nofun)
    simp only [Product.outline, Node.outline, Scope.outlineOption, List.append_nil]
    exact hbody
  | @alternative level _ _ _ _ _ _ _ _ _ _ _ _ s s' _ ht hk he _ _ ht' hk' hl' _ ih ih' =>
    have hline := Outlines.header (n := .branch _ s (some s') _) hlined ht hk (hlevel _ rfl)
      (.branch hk he)
    have hbody := hline.trans (ih hline.lined nofun)
    -- Of all lines that follow the block, only an alternative of this level belongs to the branch.
    have helse := Outlines.alternative hbody.lined ht' hk'
    rw [hl'] at helse
    have hbody' := hbody.trans (helse.trans (ih' helse.lined nofun))
    exact hbody'
  | @whileLoop _ _ _ _ _ _ _ _ s _ ht hk he _ _ ih =>
    have hline := Outlines.header (n := .whileLoop _ s _) hlined ht hk (hlevel _ rfl)
      (.whileLoop hk he)
    exact hline.trans (ih hline.lined nofun)
  | @threePartLoop _ _ _ _ _ _ _ _ _ _ _ s _ ht hk hparts _ ih =>
    have hline := Outlines.header (n := .forLoop _ _ _ s _) hlined ht hk (hlevel _ rfl)
      (.threePartLoop hk hparts)
    exact hline.trans (ih hline.lined nofun)
  | @rangeLoop _ _ _ _ _ _ _ _ _ _ _ s _ ht hk hrange _ _ ih =>
    have hline := Outlines.header (n := .rangeLoop _ s _) hlined ht hk (hlevel _ rfl)
      (.rangeLoop hk hrange)
    exact hline.trans (ih hline.lined nofun)
  | stop => exact .refl hlined
  | here _ hl _ _ ih ih' =>
    have hfirst := ih hlined (by rintro _ _ _ ⟨⟩; exact hl)
    exact hfirst.trans (ih' hfirst.lined nofun)
  | deeper _ _ _ _ ih ih' =>
    have hblock := ih hlined nofun
    exact hblock.trans (ih' hblock.lined nofun)
  | block _ ih => exact ih hlined nofun
  | body _ _ _ ih => exact ih hlined nofun

/-! ## Blocks that no statement has for its own -/

/-- The next line is no deeper than `level`. -/
def AtMost (level : Nat) (tokens : List Token) : Prop :=
  ∀ t ∈ tokens.head?, t.kind = .endOfFile ∨ t.level ≤ level

theorem Derives.atMost_of_block {level : Nat} {before after : State} {s : Scope}
    (h : Derives (level + 1) before (.block s) after) : AtMost level after.tokens := by
  obtain ⟨stop, rest, hrest, hstop⟩ := h.stops
  rw [hrest]
  rintro t ⟨⟩
  exact hstop.imp_right fun h => (Nat.succ.inj h).le

theorem Derives.atMost_of_body {level : Nat} {before after : State} {s : Scope}
    (h : Derives level before (.body s) after) : AtMost level after.tokens := by
  cases h with
  | body _ _ hblock => exact hblock.atMost_of_block

/-- What a product says about its blocks. Behind a statement that has a block no line is deeper, and so no
other block begins there. -/
def Rules.Product.BlocksApart (level : Nat) (before after : List Token) : Product → Prop
  | .statement n => n.scope? = none ∧ n.BlocksApart ∧ (n.isLine = false → AtMost level after)
  | .lines hasStatement ns =>
    ∀ behind : Bool, (hasStatement = true → behind = false → AtMost level before) →
      Node.BlocksApartAll behind ns
  | .block s | .body s => s.BlocksApart

theorem Rules.Product.blocksApart_of_isLine {n : Node} (h : n.isLine = true) (level : Nat)
    (before after : List Token) : (Product.statement n).BlocksApart level before after := by
  cases n with
  | literal | var | constant | reference | unary | binary => exact ⟨rfl, trivial, nofun⟩
  | _ => cases h

theorem Derives.blocksApart {level : Nat} {before after : State} {product : Product}
    (h : Derives level before product after) :
    product.BlocksApart level before.tokens after.tokens := by
  induction h with
  | expression _ _ _ he => exact Product.blocksApart_of_isLine he.isExpression.isLine _ _ _
  | declaration _ hd => exact Product.blocksApart_of_isLine (isLine_of_declares hd) _ _ _
  | function _ _ _ hbody ih | whileLoop _ _ _ _ hbody ih | threePartLoop _ _ _ hbody ih
  | rangeLoop _ _ _ _ hbody ih => exact ⟨rfl, ih, fun _ => hbody.atMost_of_body⟩
  | branch _ _ _ _ hbody _ ih => exact ⟨rfl, ⟨ih, trivial⟩, fun _ => hbody.atMost_of_body⟩
  | alternative _ _ _ _ _ _ _ _ hbody' ih ih' =>
    exact ⟨rfl, ⟨ih, ih'⟩, fun _ => hbody'.atMost_of_body⟩
  | stop => exact fun _ _ => trivial
  | here _ _ _ _ ih ih' =>
    obtain ⟨hscope, hapart, hbehind⟩ := ih
    exact fun _ _ => ⟨by simp [hscope], hapart, ih' _ fun _ => hbehind⟩
  | deeper hk hl hblock _ ih ih' =>
    intro behind hbehind
    refine ⟨fun _ => ?_, ih, ih' _ fun _ _ => hblock.atMost_of_block⟩
    cases behind with
    | true => rfl
    | false =>
      -- A statement that has a block ends in front of a line that is too shallow to begin this one.
      have := (hbehind rfl rfl _ rfl).resolve_left hk
      omega
  | block _ ih => exact ih false nofun
  | body _ _ _ ih => exact ih

/-- The tree of a source text has one entry for each line, in the order of the lines. The line of an entry
says its statement, stands as deep as the entry, and begins with a keyword of a branch, of its alternative or
of a loop just where the entry is one of these. A block of its own stands behind a statement that has none,
so that no line is in another block than its place in the outline shows. -/
theorem compile_outline {file source : String} {s : Scope} (h : compile file source = .ok s) :
    ∃ tokens, tokenize source file = .ok tokens ∧
      List.Forall₂ Entry.Fits (s.outline 0) (logicalLines tokens) ∧ s.BlocksApart := by
  obtain ⟨tokens, stop, symbols, next, ht, hstop, hderives⟩ := compile_derives h
  obtain ⟨-, lines, hlines, hfits⟩ := hderives.outlines (lined_tokenize ht) nofun
  have hend : logicalLines [stop] = [] := by simp [logicalLines, hstop]
  refine ⟨tokens, ht, ?_, hderives.blocksApart⟩
  rw [hlines, hend, List.append_nil]
  exact hfits

/-- A block inside of a branch, and the alternative to the branch. -/
theorem compile_outline_branch :
    ∃ s tokens, compile "" "if true\n    1\n        2\n    3\nelse\n    4\n" = .ok s ∧
      ((s.outline 0).map fun e => (e.depth, e.keyword)) =
        [(0, some .ifThen), (1, none), (2, none), (1, none), (0, some .orElse), (1, none)] ∧
      tokenize "if true\n    1\n        2\n    3\nelse\n    4\n" "" = .ok tokens ∧
      List.Forall₂ Entry.Fits (s.outline 0) (logicalLines tokens) ∧ s.BlocksApart := by
  have hok : ((compile "" "if true\n    1\n        2\n    3\nelse\n    4\n").map
      fun s => (s.outline 0).map fun e => (e.depth, e.keyword)).toOption =
        some [(0, some .ifThen), (1, none), (2, none), (1, none), (0, some .orElse), (1, none)] := by
    decide +kernel
  cases hs : compile "" "if true\n    1\n        2\n    3\nelse\n    4\n" with
  | error d => simp [hs, Except.map, Except.toOption] at hok
  | ok s =>
    simp only [hs, Except.map, Except.toOption, Option.some.injEq] at hok
    obtain ⟨tokens, ht, hfits⟩ := compile_outline hs
    exact ⟨s, tokens, rfl, hok, ht, hfits⟩

end Offside
