import Offside.Proofs.LineVariation
import Offside.Proofs.TopLevelComma

/-!
# Two runs over statements and blocks

A block goes on until the text ends, so that the second run may find more of it where the first one ends.
Whatever is behind a block of the first run then succeeds: nothing is left to go wrong.
-/

namespace Offside

set_option autoImplicit false

open Execution

/-- Nothing is ahead, not even an `else`. -/
def Parser.AtEnd (p : Parser) : Prop :=
  p.stream.current.kind = .endOfFile ∧ p.stream.current.keyword = none

/-- The line of a loop that begins with a declaration is divided by commas. -/
theorem TokenStream.hasComma_of_startsThreePartLoop {s : TokenStream} (h : s.startsThreePartLoop)
    (hd : s.advance.startsDeclaration) : hasComma 0 s.advance.tokens = true := by
  rw [startsThreePartLoop, Bool.or_eq_true, Bool.and_eq_true] at h
  rcases h with hcomma | ⟨-, hcomma⟩
  · have hk := (of_startsDeclaration hd).1
    rw [Token.kind_of_isDelimiter hcomma] at hk
    cases hk
  · exact hcomma

theorem Parse.advance_bind {α : Type} (f : Token → Parse α) (p : Parser) :
    (advance >>= f) p = f p.stream.current { p with stream := p.stream.advance } := rfl

namespace Variation

variable {v : Variation} {α β γ δ : Type} {p q : Parser}

/-- The runs of an action that ends in front of a line. -/
def Across (v : Variation) {α β : Type} (related : α → β → Prop) :
    EStateM.Result Diagnostic Parser α → EStateM.Result Diagnostic Parser β → Prop :=
  v.Agree (fun _ p => p.AtEnd) fun a b p q => related a b ∧ v.Front p q

theorem Agree.imp {σ : Type} {ended ended' : α → σ → Prop} {related related' : α → β → σ → σ → Prop}
    {r : EStateM.Result Diagnostic σ α} {r' : EStateM.Result Diagnostic σ β}
    (h : v.Agree ended related r r') (hended : ∀ a s, ended a s → ended' a s)
    (hrelated : ∀ a b s t, related a b s t → related' a b s t) : v.Agree ended' related' r r' := by
  cases h with
  | ok h => exact .ok (hrelated _ _ _ _ h)
  | error h => exact .error h
  | missing hgoes hd => exact .missing hgoes hd
  | ended hgoes h => exact .ended hgoes (hended _ _ h)

theorem Across.bind {ended : γ → Parser → Prop} {related : α → β → Prop}
    {related' : γ → δ → Parser → Parser → Prop} {x : Parse α} {y : Parse β} {f : α → Parse γ}
    {g : β → Parse δ} (h : v.Across related (x p) (y q))
    (hf : ∀ a b p' q', related a b → v.Front p' q' → v.Agree ended related' (f a p') (g b q'))
    (hend : ∀ a p' r, v.goesOn → p'.AtEnd → v.Agree ended related' (f a p') r) :
    v.Agree ended related' ((x >>= f) p) ((y >>= g) q) :=
  Agree.bind h (fun a b p' q' hab => hf a b p' q' hab.1 hab.2) fun a p' r _ => hend a p' r

/-- A result that is put together from that of an action which may end with the text. -/
theorem Across.map {related : α → β → Prop} {related' : γ → δ → Prop} {x : Parse α} {y : Parse β}
    {f : α → γ} {g : β → δ} (h : v.Across related (x p) (y q))
    (hf : ∀ a b, related a b → related' (f a) (g b)) :
    v.Across related' ((x >>= fun a => pure (f a)) p) ((y >>= fun b => pure (g b)) q) :=
  h.bind (fun a b _ _ hab h => .ok ⟨hf a b hab, h⟩) fun _ _ _ hgoes hend => .ended hgoes hend

/-- The blocks of the constructs in a statement come out alike. -/
def Bodies (v : Variation) (body body' : String → Parse Scope) : Prop :=
  ∀ construct {p q : Parser}, v.Inside p q →
    v.Across (Scope.Like v.words) (body construct p) (body' construct q)

variable {body body' : String → Parse Scope} {head head' : DeclarationHead} {t u : Token}
  {l l' : Location}

theorem Inside.framedBody (h : v.Inside p q) (hbody : v.Bodies body body') (construct : String) :
    v.Across (Scope.Like v.words) (Parse.framedBody body construct p)
      (Parse.framedBody body' construct q) :=
  h.openFrame.bind fun _ _ _ _ _ h => hbody construct h

/-- In front of a line that both runs have, or at the end of the first text. -/
theorem Front.inside_or_atEnd (h : v.Front p q) : v.Inside p q ∨ v.goesOn ∧ p.AtEnd := by
  by_cases hend : v.goesOn ∧ p.stream.current.kind = .endOfFile
  · obtain ⟨hgoes, hk⟩ := hend
    refine .inr ⟨hgoes, hk, ?_⟩
    by_contra hkeyword
    have hw := (h.source hgoes).keyword hkeyword
    simp [Token.endsStatement, hk] at hw
  · exact .inl (h.inside fun hgoes hk => hend ⟨hgoes, hk⟩)

/-! ## Declarations -/

theorem isFunction_eq {n m : Node} (h : n.Like v.words m) : Parse.isFunction m = Parse.isFunction n := by
  cases h <;> rfl

/-- The runs of a declaration: behind a function the line has ended, behind anything else it goes on. -/
def Declaring (v : Variation) :
    EStateM.Result Diagnostic Parser Node → EStateM.Result Diagnostic Parser Node → Prop :=
  v.Agree (fun n p => Parse.isFunction n = true ∧ p.AtEnd) fun n m p q =>
    n.Like v.words m ∧ (Parse.isFunction n = true ∧ v.Front p q ∨ v.Inside p q)

theorem Inline.declaring {r r' : EStateM.Result Diagnostic Parser Node}
    (h : v.Inline (Node.Like v.words) r r') : v.Declaring r r' :=
  Agree.imp h (fun _ _ h => h.elim) fun _ _ _ _ h => ⟨h.1, .inr h.2⟩

namespace Inside

theorem declareFunction (h : v.Inside p q) (hbody : v.Bodies body body')
    (hh : head.Like v.words head') :
    v.Declaring (Parse.declareFunction body head p) (Parse.declareFunction body' head' q) := by
  refine h.openFrame.bind fun _ _ p q _ h => ?_
  refine h.parameters.bind fun ns ms p q hns h => ?_
  rw [hh.type]
  refine (h.resultType _).bind fun returns returns' p q hreturns h => ?_
  subst hreturns
  refine h.endHeader.bind fun _ _ p q _ h => ?_
  refine h.closeFrame.bind fun frame frame' p q hframe h => ?_
  refine h.freshFunction.bind fun id id' p q hid h => ?_
  subst hid
  rw [hh.text]
  have hf : (Identifier.function ⟨id, head.name.text, returns, head.name.location⟩).Like v.words
      (.function ⟨id, head.name.text, returns, head'.name.location⟩) := .function hh.place
  refine (h.declare hf).bind fun _ _ p q _ h => ?_
  refine (h.reopenFrame hframe).bind fun _ _ p q _ h => ?_
  refine (hbody "function" h).bind (fun s s' p q hs h => ?_) fun _ _ _ hgoes hend =>
    .ended hgoes ⟨rfl, hend⟩
  exact .ok ⟨.function hf hns (.some hs), .inl ⟨rfl, ⟨h.level, h.symbols, h.keywords, h.next⟩,
    h.shares, h.source⟩⟩

theorem declaration (h : v.Inside p q) (hbody : v.Bodies body body') :
    v.Declaring (Parse.declaration body p) (Parse.declaration body' q) := by
  refine h.declarationHead.bind fun head head' p q hh h => ?_
  refine (h.acceptDelimiter ":").bind fun a b p q hab h => ?_
  subst hab
  cases a with
  | false => exact (h.declareVariable hh).declaring
  | true =>
    simp only [if_true]
    rw [get_bind, get_bind, h.streams.startsParameters]
    split
    · exact h.declareFunction hbody hh
    · exact (h.declareValue hh .constant).declaring

theorem declarationStatement (h : v.Inside p q) (hbody : v.Bodies body body') :
    v.Across (Node.Like v.words) (Parse.declarationStatement body p)
      (Parse.declarationStatement body' q) := by
  refine (h.declaration hbody).bind (fun n m p q ⟨hn, hplace⟩ => ?_)
    fun n p r _ hgoes ⟨hf, hend⟩ => ?_
  · rw [isFunction_eq hn]
    cases hf : Parse.isFunction n with
    | true =>
      refine .ok ⟨hn, ?_⟩
      rcases hplace with ⟨-, hfront⟩ | hinside
      · exact hfront
      · exact hinside.front
    | false =>
      rcases hplace with ⟨hf', -⟩ | hinside
      · rw [hf] at hf'
        cases hf'
      · exact hinside.expectEndOfStatement.bind (fun _ _ _ _ h => .ok ⟨hn, h⟩)
          fun _ _ _ _ _ h => h.elim
  · rw [hf]
    exact .ended hgoes hend

end Inside

/-! ## Branches -/

theorem alternative_atEnd (h : p.AtEnd) : Parse.alternative body p = .ok none p := by
  unfold Parse.alternative
  rw [get_bind, if_neg (by simp [Token.isKeyword, h.2])]
  rfl

theorem initializesVariable_eq {n m : Node} (h : n.Like v.words m) :
    Parse.initializesVariable m = Parse.initializesVariable n := by
  cases h with
  | binary hl => cases hl <;> rfl
  | _ => rfl

namespace Inside

/-- A keyword is no end of a line, so that the line goes on behind it. -/
theorem passed (h : v.Inside p q) {keyword : Keyword}
    (hk : p.stream.current.keyword = some keyword) :
    v.Inside { p with stream := p.stream.advance } { q with stream := q.stream.advance } :=
  h.advanced fun hgoes => (h.front.source hgoes).keyword (by simp [hk])

theorem keyword (h : v.Inside p q) {keyword : Keyword}
    (hk : p.stream.current.keyword = some keyword) :
    v.Inline (fun t u => v.words t.location u.location) (Parse.advance p) (Parse.advance q) :=
  .ok ⟨h.streams.current.word (.inr (by simp [hk])), h.passed hk⟩

end Inside

/-- At the end of the first text there is no `else` any more. -/
theorem Front.alternative (h : v.Front p q) (hbody : v.Bodies body body') :
    v.Across (Option.Rel (Scope.Like v.words)) (Parse.alternative body p)
      (Parse.alternative body' q) := by
  rcases h.inside_or_atEnd with h | ⟨hgoes, hend⟩
  · have hcurrent := h.streams.current
    have helse : q.stream.current.isKeyword .orElse ∧ q.stream.current.level = q.level ↔
        p.stream.current.isKeyword .orElse ∧ p.stream.current.level = p.level := by
      rw [hcurrent.isKeyword]
      refine and_congr_right fun hkeyword => ?_
      have hk : p.stream.current.keyword ≠ none := by
        rintro hnone
        simp [Token.isKeyword, hnone] at hkeyword
      rw [hcurrent.level (.inr hk), h.level, Nat.add_right_cancel_iff]
    unfold Parse.alternative
    rw [get_bind, get_bind]
    by_cases hkeyword : p.stream.current.isKeyword .orElse ∧ p.stream.current.level = p.level
    · rw [if_pos hkeyword, if_pos (helse.mpr hkeyword)]
      have hk : p.stream.current.keyword = some .orElse := by simpa [Token.isKeyword] using hkeyword.1
      refine (h.keyword hk).bind fun _ _ p q _ h => ?_
      refine h.endHeader.bind fun _ _ p q _ h => ?_
      exact (h.framedBody hbody "else").map fun s s' hs => .some hs
    · rw [if_neg hkeyword, if_neg fun h' => hkeyword (helse.mp h')]
      exact .ok ⟨.none, h.front⟩
  · rw [alternative_atEnd hend]
    exact .ended hgoes hend

namespace Inside

theorem branch (h : v.Inside p q) (hbody : v.Bodies body body') {keyword : Keyword}
    (hk : p.stream.current.keyword = some keyword) :
    v.Across (Node.Like v.words) (Parse.branch body p) (Parse.branch body' q) := by
  refine (h.keyword hk).bind fun t u p q hplace h => ?_
  refine (h.condition hplace).bind fun test test' p q htest h => ?_
  refine h.endHeader.bind fun _ _ p q _ h => ?_
  refine (h.framedBody hbody "if").bind (fun s s' p q hs h => ?_) fun s p r hgoes hend => ?_
  · exact (h.alternative hbody).map fun a b hab => .branch htest hs hab hplace
  · rw [bind_apply, alternative_atEnd hend]
    exact .ended hgoes hend

theorem whileLoop (h : v.Inside p q) (hbody : v.Bodies body body') {keyword : Keyword}
    (hk : p.stream.current.keyword = some keyword) :
    v.Across (Node.Like v.words) (Parse.whileLoop body p) (Parse.whileLoop body' q) := by
  refine (h.keyword hk).bind fun t u p q hplace h => ?_
  refine (h.condition hplace).bind fun test test' p q htest h => ?_
  refine h.endHeader.bind fun _ _ p q _ h => ?_
  exact (h.framedBody hbody "while").map fun s s' hs => .whileLoop htest hs hplace

/-! ## Loops -/

/-- In front of a comma there is no function, whose block the end of the text could cut short. -/
theorem loopInit (h : v.Inside p q) (hbody : v.Bodies body body')
    (hplace : v.words t.location u.location)
    (hcomma : p.stream.startsDeclaration = true → TokenStream.hasComma 0 p.stream.tokens = true) :
    v.Inline (Option.Rel (Node.Like v.words)) (Parse.loopInit body t p)
      (Parse.loopInit body' u q) := by
  unfold Parse.loopInit
  rw [get_bind, get_bind, h.streams.startsDeclaration, h.streams.current.isDelimiter]
  split
  · next hdeclaration =>
    refine (h.declaration hbody).bind (fun n m p q ⟨hn, hplaced⟩ => ?_)
      fun n p' r hrun hgoes ⟨hf, _⟩ => ?_
    · rw [initializesVariable_eq hn]
      cases hinit : Parse.initializesVariable n with
      | true =>
        rcases hplaced with ⟨hf, -⟩ | h
        · cases n <;> first | cases hinit | cases hf
        · exact .ok ⟨.some hn, h⟩
      | false =>
        have hplace := hn.locationOr hplace
        exact .error ⟨v.stops_of_words hplace⟩
    · have hnone := Parse.declaration_hasComma (h.front.source hgoes) hrun hf
      rw [hcomma hdeclaration] at hnone
      cases hnone
  · split
    · exact .ok ⟨.none, h⟩
    · exact h.fail _

theorem threePartLoop (h : v.Inside p q) (hbody : v.Bodies body body') {keyword : Keyword}
    (hk : p.stream.current.keyword = some keyword) (hloop : p.stream.startsThreePartLoop = true) :
    v.Across (Node.Like v.words) (Parse.threePartLoop body p) (Parse.threePartLoop body' q) := by
  have hplace := h.streams.current.word (.inr (by simp [hk]))
  have hpassed := h.passed hk
  have hopen := hpassed.with_symbols hpassed.symbols.openFrame
  unfold Parse.threePartLoop Parse.openFrame
  rw [Parse.advance_bind, Parse.advance_bind, modify_bind, modify_bind]
  have hcomma := TokenStream.hasComma_of_startsThreePartLoop hloop
  refine (hopen.loopInit hbody hplace hcomma).bind fun init init' p q hinit h => ?_
  refine (h.expectDelimiter ",").bind fun _ _ p q _ h => ?_
  refine (h.loopCondition hplace).bind fun test test' p q htest h => ?_
  refine (h.expectDelimiter ",").bind fun _ _ p q _ h => ?_
  refine h.loopIncrement.bind fun increment increment' p q hincrement h => ?_
  refine h.endHeader.bind fun _ _ p q _ h => ?_
  exact (hbody "for" h).map fun s s' hs => .forLoop hinit htest hincrement hs hplace

theorem rangeLoop (h : v.Inside p q) (hbody : v.Bodies body body') {keyword : Keyword}
    (hk : p.stream.current.keyword = some keyword) :
    v.Across (Node.Like v.words) (Parse.rangeLoop body p) (Parse.rangeLoop body' q) := by
  refine (h.keyword hk).bind fun t u p q hplace h => ?_
  refine h.loopName.bind fun name name' p q hname h => ?_
  refine h.expression.bind fun range range' p q hrange h => ?_
  refine (h.liftExcept (Node.type?_like hrange)).bind fun type type' p q htype h => ?_
  subst htype
  refine h.endHeader.bind fun _ _ p q _ h => ?_
  have hnamed : ∀ {text : String} {l l' : Location}, v.words l l' →
      v.Across (Node.Like v.words)
        ((do
          Parse.openFrame
          Parse.declare (Declared.variable.identifier text type l)
          return .rangeLoop (.binary .assignment (Declared.variable.identifier text type l).toNode range l)
            (← body "for") t.location : Parse Node) p)
        ((do
          Parse.openFrame
          Parse.declare (Declared.variable.identifier text type l')
          return .rangeLoop (.binary .assignment (Declared.variable.identifier text type l').toNode range' l')
            (← body' "for") u.location : Parse Node) q) := by
    intro text l l' hl
    have hi := Declared.variable.like text type hl
    refine h.openFrame.bind fun _ _ p q _ h => ?_
    refine (h.declare hi).bind fun _ _ p q _ h => ?_
    exact (hbody "for" h).map fun s s' hs => .rangeLoop (.binary hi.toNode hrange hl) hs hplace
  cases hname with
  | none => exact hnamed hplace
  | @some name name' hname =>
    dsimp only
    rw [hname.1]
    exact hnamed hname.2

theorem forLoop (h : v.Inside p q) (hbody : v.Bodies body body') {keyword : Keyword}
    (hk : p.stream.current.keyword = some keyword) :
    v.Across (Node.Like v.words) (Parse.forLoop body p) (Parse.forLoop body' q) := by
  unfold Parse.forLoop
  have hstarts := (h.passed hk).streams
  have hparts : q.stream.startsThreePartLoop = p.stream.startsThreePartLoop := by
    unfold TokenStream.startsThreePartLoop
    dsimp only
    rw [hstarts.current.isDelimiter, hstarts.startsDeclaration, Within.hasComma hstarts]
  rw [get_bind, get_bind, hparts]
  split
  · next hloop => exact h.threePartLoop hbody hk hloop
  · exact h.rangeLoop hbody hk

/-! ## Statements -/

theorem keywordStatement (h : v.Inside p q) (hbody : v.Bodies body body') {keyword : Keyword}
    (hk : p.stream.current.keyword = some keyword) :
    v.Across (Node.Like v.words) (Parse.keywordStatement body keyword p)
      (Parse.keywordStatement body' keyword q) := by
  unfold Parse.keywordStatement
  rw [get_bind, get_bind, h.keywords]
  split
  · exact h.fail _
  · cases keyword with
    | ifThen => exact h.branch hbody hk
    | whileLoop => exact h.whileLoop hbody hk
    | forLoop => exact h.forLoop hbody hk
    | orElse => exact h.fail _

theorem expressionStatement (h : v.Inside p q) :
    v.Across (Node.Like v.words) (Parse.expressionStatement p) (Parse.expressionStatement q) := by
  refine h.expression.bind fun n m p q hn h => ?_
  refine (h.liftExcept (Node.type?_like hn)).bind fun _ _ p q _ h => ?_
  exact h.expectEndOfStatement.bind (fun _ _ _ _ h => .ok ⟨hn, h⟩) fun _ _ _ _ _ h => h.elim

theorem statement (h : v.Inside p q) (hbody : v.Bodies body body') :
    v.Across (Node.Like v.words) (Parse.statement body p) (Parse.statement body' q) := by
  unfold Parse.statement
  rw [get_bind, get_bind, h.streams.startsDeclaration, h.streams.current.keyword]
  split
  · exact h.declarationStatement hbody
  · cases hk : p.stream.current.keyword with
    | some keyword => exact h.keywordStatement hbody hk
    | none => exact h.expressionStatement

end Inside

/-! ## Blocks -/

theorem LinePlace.of_add (level line d : Nat) (hasStatement : Bool) :
    Parse.LinePlace.of (level + d) hasStatement (line + d) =
      Parse.LinePlace.of level hasStatement line := by
  unfold Parse.LinePlace.of
  have hdeeper : line + d = level + d + 1 ↔ line = level + 1 := by omega
  have houtside : line + d + 1 = level + d ↔ line + 1 = level := by omega
  simp only [Nat.add_right_cancel_iff, hdeeper, houtside]

variable {statement statement' : Parse Node} {nested nested' : Parse Scope} {before after : List Node}
  {level n m : Nat}

/-- At the end of the first text its block is complete, unless there are no steps left to see that. -/
theorem lines_atEnd {related : List Node → List Node → Parser → Parser → Prop}
    {r : EStateM.Result Diagnostic Parser (List Node)} (hgoes : v.goesOn) (hend : p.AtEnd) :
    v.Agree (fun _ p => p.AtEnd) related (Parse.lines statement nested level n before p) r := by
  cases n with
  | zero => exact .missing hgoes rfl
  | succ n =>
    unfold Parse.lines
    rw [Parse.current_bind, if_pos hend.1]
    exact .ended hgoes hend

theorem Front.lines (h : v.Front p q)
    (hstatement : ∀ {p q : Parser}, v.Inside p q →
      v.Across (Node.Like v.words) (statement p) (statement' q))
    (hnested : ∀ {p q : Parser}, v.Inside p q →
      v.Across (Scope.Like v.words) (nested p) (nested' q))
    (hbounds : v.Bounds n m) (hbefore : List.Forall₂ (Node.Like v.words) before after) :
    v.Across (List.Forall₂ (Node.Like v.words)) (Parse.lines statement nested level n before p)
      (Parse.lines statement' nested' (level + v.deeper) m after q) := by
  induction n generalizing m p q before after with
  | zero =>
    rcases hbounds.zero with hgoes | ⟨hends, rfl⟩
    · exact .missing hgoes rfl
    · exact (h.inside_of_ends hends).fail _
  | succ n ih =>
    obtain ⟨m, rfl, hfewer⟩ := hbounds.succ
    rcases h.inside_or_atEnd with h | ⟨hgoes, hend⟩
    · have hcurrent := h.streams.current
      have hempty : after.isEmpty = before.isEmpty := by cases hbefore <;> rfl
      unfold Parse.lines
      rw [Parse.current_bind, Parse.current_bind, hcurrent.kind, hempty]
      split
      · exact .ok ⟨List.rel_reverse hbefore, h.front⟩
      · next hk =>
        rw [hcurrent.level (.inl hk), LinePlace.of_add]
        cases Parse.LinePlace.of level (!before.isEmpty) p.stream.current.level with
        | here =>
          refine (hstatement h).bind (fun n m p q hn h => ?_) fun n p r hgoes hend => ?_
          · exact ih h hfewer (.cons hn hbefore)
          · exact lines_atEnd hgoes hend
        | deeper =>
          refine h.openFrame.bind fun _ _ p q _ h => ?_
          refine (hnested h).bind (fun s s' p q hs h => ?_) fun s p r hgoes hend => ?_
          · exact ih h hfewer (.cons (.scope hs) hbefore)
          · exact lines_atEnd hgoes hend
        | outside => exact .ok ⟨List.rel_reverse hbefore, h.front⟩
        | nowhere => exact h.fail _
    · exact lines_atEnd hgoes hend

theorem Inside.bodyOf {block block' : Nat → Parse Scope} (h : v.Inside p q) (construct : String)
    (hblock : ∀ {level : Nat} {p q : Parser}, v.Front p q →
      v.Across (Scope.Like v.words) (block level p) (block' (level + v.deeper) q)) :
    v.Across (Scope.Like v.words) (Parse.bodyOf block construct p)
      (Parse.bodyOf block' construct q) := by
  have hcurrent := h.streams.current
  have hnone : q.stream.current.kind = .endOfFile ∨ q.stream.current.level ≤ q.level ↔
      p.stream.current.kind = .endOfFile ∨ p.stream.current.level ≤ p.level := by
    rw [hcurrent.kind]
    refine or_congr_right' fun hk => ?_
    rw [hcurrent.level (.inl hk), h.level, Nat.add_le_add_iff_right]
  unfold Parse.bodyOf
  rw [get_bind, get_bind]
  by_cases hempty : p.stream.current.kind = .endOfFile ∨ p.stream.current.level ≤ p.level
  · rw [if_pos hempty, if_pos (hnone.mpr hempty)]
    exact h.fail _
  · rw [if_neg hempty, if_neg fun h' => hempty (hnone.mp h'), h.level, Nat.add_right_comm]
    exact hblock h.front

theorem Front.blockUpTo (h : v.Front p q) (hbounds : v.Bounds n m) :
    v.Across (Scope.Like v.words) (Parse.blockUpTo n level p)
      (Parse.blockUpTo m (level + v.deeper) q) := by
  induction n generalizing m level p q with
  | zero =>
    rcases hbounds.zero with hgoes | ⟨hends, rfl⟩
    · exact .missing hgoes rfl
    · exact (h.inside_of_ends hends).fail _
  | succ n ih =>
    obtain ⟨m, rfl, hfewer⟩ := hbounds.succ
    have hbody : v.Bodies (Parse.bodyOf (Parse.blockUpTo n)) (Parse.bodyOf (Parse.blockUpTo m)) :=
      fun construct _ _ h => h.bodyOf construct fun h => ih h hfewer
    have hnested : ∀ {p q : Parser}, v.Inside p q → v.Across (Scope.Like v.words)
        (Parse.blockUpTo n (level + 1) p) (Parse.blockUpTo m (level + v.deeper + 1) q) := by
      intro p q h
      rw [Nat.add_right_comm]
      exact ih h.front hfewer
    have hlevel : v.Front { p with level } { q with level := level + v.deeper } :=
      ⟨⟨rfl, h.symbols, h.keywords, h.next⟩, h.shares, h.source⟩
    unfold Parse.blockUpTo
    rw [get_bind, get_bind, set_bind, set_bind]
    refine (hlevel.lines (fun h => h.statement hbody) hnested h.shares.length .nil).bind
      (fun ns ms p₁ q₁ hns h₁ => ?_) fun ns p₁ r hgoes hend => ?_
    · exact .ok ⟨.mk hns h₁.symbols.close.1, ⟨h.level, h₁.symbols.close.2, h₁.keywords, h₁.next⟩,
        h₁.shares, h₁.source⟩
    · exact .ended hgoes hend

theorem Front.block (h : v.Front p q) :
    v.Across (Scope.Like v.words) (Parse.block level p) (Parse.block (level + v.deeper) q) := by
  unfold Parse.block
  rw [get_bind, get_bind]
  exact h.blockUpTo h.shares.length

/-! ## Whole texts -/

variable {ts us : List Token}

theorem Shares.of_pairs (h : List.Forall₂ v.Pair ts us) : v.Shares ts us := by
  induction h with
  | nil => exact .nil
  | cons ht _ ih => exact .cons ht ih

theorem Pair.endAt (h : v.stops l l') : v.Pair (.endAt l) (.endAt l') where
  kind := rfl
  type := rfl
  keyword := rfl
  level := by simp [Token.endAt, Token.plain]
  text := nofun
  place := h
  word := by simp [Token.endAt, Token.plain, Token.endsStatement]

theorem pairs_getLast? (h : List.Forall₂ v.Pair ts us) : Option.Rel v.Pair ts.getLast? us.getLast? := by
  induction h with
  | nil => exact .none
  | @cons t u ts us ht hmore ih =>
    cases hmore with
    | nil => exact .some ht
    | cons => rwa [List.getLast?_cons_cons, List.getLast?_cons_cons]

/-- The ends that are put behind the tokens belong together too. -/
theorem pairs_closed (hnowhere : v.stops .nowhere .nowhere) (h : List.Forall₂ v.Pair ts us) :
    List.Forall₂ v.Pair (TokenStream.closed ts) (TokenStream.closed us) := by
  have hlast := pairs_getLast? h
  unfold TokenStream.closed
  generalize ts.getLast? = a at hlast
  generalize us.getLast? = b at hlast
  cases hlast with
  | none => exact .cons (.endAt hnowhere) .nil
  | @some t u htu =>
    dsimp only
    rw [htu.kind]
    split
    · exact h
    · exact List.rel_append h (.cons (.endAt htu.place) .nil)

theorem Shares.ofTokens_of_pairs (hnowhere : v.stops .nowhere .nowhere) (h : List.Forall₂ v.Pair ts us) :
    v.Shares (TokenStream.ofTokens ts).tokens (TokenStream.ofTokens us).tokens := by
  have hclosed := pairs_closed hnowhere h
  unfold TokenStream.ofTokens
  generalize TokenStream.closed ts = as at hclosed
  generalize TokenStream.closed us = bs at hclosed
  cases hclosed with
  | nil => exact .cons (.endAt hnowhere) .nil
  | cons ht hmore => exact .cons ht (.of_pairs hmore)

theorem Shares.ofTokens (hts : Lined none ts) (hus : Lined none us) (h : v.Shares ts us) :
    v.Shares (TokenStream.ofTokens ts).tokens (TokenStream.ofTokens us).tokens := by
  rwa [← (inSource_ofTokens hts statementKeywords).2, ← (inSource_ofTokens hus statementKeywords).2] at h

theorem front_atStart (hlevel : v.deeper = 0)
    (hshares : v.Shares (TokenStream.ofTokens ts).tokens (TokenStream.ofTokens us).tokens)
    (hsource : v.goesOn → Lined none ts) : v.Front (.atStart ts) (.atStart us) where
  level := by
    rw [hlevel]
    rfl
  symbols := .openFrame ⟨.nil⟩
  keywords := rfl
  next := rfl
  shares := hshares
  source := fun hgoes => (inSource_ofTokens (hsource hgoes) statementKeywords).1

theorem block_atStart (hlevel : v.deeper = 0)
    (hshares : v.Shares (TokenStream.ofTokens ts).tokens (TokenStream.ofTokens us).tokens)
    (hsource : v.goesOn → Lined none ts) :
    v.Across (Scope.Like v.words) (Parse.block 0 (.atStart ts)) (Parse.block 0 (.atStart us)) := by
  have hblock := @Front.block v _ _ 0 (front_atStart hlevel hshares hsource)
  rwa [hlevel] at hblock

/-- The first fault of the first text is that of the second one, unless it is that the text ends. -/
theorem parse_error (hlevel : v.deeper = 0)
    (hshares : v.Shares (TokenStream.ofTokens ts).tokens (TokenStream.ofTokens us).tokens)
    (hsource : v.goesOn → Lined none ts) {d : Diagnostic} (h : parse ts = .error d) :
    v.goesOn ∧ d.fault = .unexpectedEnd ∨ ∃ e, parse us = .error e ∧ d.Like v.stops e := by
  have hblock := block_atStart hlevel hshares hsource
  rw [parse_eq] at h ⊢
  generalize Parse.block 0 (.atStart ts) = r at hblock h
  generalize Parse.block 0 (.atStart us) = r' at hblock
  cases hblock with
  | ok | ended => cases h
  | error hd =>
    cases h
    exact .inr ⟨_, rfl, hd⟩
  | missing hgoes hd =>
    cases h
    exact .inl ⟨hgoes, hd⟩

theorem parse_ok (hlevel : v.deeper = 0)
    (hshares : v.Shares (TokenStream.ofTokens ts).tokens (TokenStream.ofTokens us).tokens)
    (hends : ¬ v.goesOn) {s : Scope} (h : parse ts = .ok s) :
    ∃ s', parse us = .ok s' ∧ s.Like v.words s' := by
  have hblock := block_atStart hlevel hshares fun hgoes => absurd hgoes hends
  rw [parse_eq] at h ⊢
  generalize Parse.block 0 (.atStart ts) = r at hblock h
  generalize Parse.block 0 (.atStart us) = r' at hblock
  cases hblock with
  | ok hs =>
    cases h
    exact ⟨_, rfl, hs.1⟩
  | error | missing => cases h
  | ended hgoes => exact absurd hgoes hends

end Variation

end Offside
