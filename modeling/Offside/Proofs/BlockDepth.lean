import Offside.Proofs.BlockFrames

/-!
# The bound on the depth of blocks

Every block that belongs to a statement comes behind the end of a header, so it has fewer tokens ahead than
the statement. A bound that covers the tokens ahead is therefore never reached, and a block is read by the
same functions as the blocks inside of it.
-/

namespace Offside

set_option autoImplicit false

open Execution TokenStream

namespace Parse

variable {body body' : String → Parse Scope} {block block' : Nat → Parse Scope} {s : TokenStream}
  {p : Parser}

theorem bind_congr {α β : Type} {x x' : Parse α} {f f' : α → Parse β} (hx : x p = x' p)
    (hf : ∀ a p₁, x p = .ok a p₁ → f a p₁ = f' a p₁) : (x >>= f) p = (x' >>= f') p := by
  rw [bind_apply, bind_apply, ← hx]
  cases h : x p with
  | error d p₁ => rfl
  | ok a p₁ => exact hf a p₁ h

/-- The same action, with different ones behind it. -/
theorem then_congr {α β : Type} {x : Parse α} {f f' : α → Parse β}
    (hf : ∀ a p₁, x p = .ok a p₁ → f a p₁ = f' a p₁) : (x >>= f) p = (x >>= f') p :=
  bind_congr rfl hf

/-! ## Statements -/

/-- The two ways to read the block of a construct agree wherever tokens have been passed since `s`. -/
def AgreeBeyond (s : TokenStream) (body body' : String → Parse Scope) : Prop :=
  ∀ construct p, s.Beyond p.stream → body construct p = body' construct p

theorem framedBody_congr (h : AgreeBeyond s body body') {construct : String}
    (hp : s.Beyond p.stream) : framedBody body construct p = framedBody body' construct p := by
  refine then_congr fun _ p₁ hopen => h construct p₁ ?_
  cases hopen
  exact hp

theorem alternative_congr (h : AgreeBeyond s body body') (hp : s.Onward p.stream) :
    alternative body p = alternative body' p := by
  unfold alternative
  rw [get_bind, get_bind]
  split
  · refine then_congr fun t p₁ hadvance => then_congr fun _ p₂ hend => ?_
    have hp₁ := hp.trans (quiet_advance hadvance).stream
    exact bind_congr (framedBody_congr h (hp₁.beyond (endHeader_beyond hend))) fun _ _ _ => rfl
  · rfl

theorem branch_congr (hbody : ClosesFrame body) (h : AgreeBeyond s body body')
    (hp : s.Onward p.stream) : branch body p = branch body' p := by
  refine then_congr fun t p₁ hadvance => then_congr fun test p₂ hcond =>
    then_congr fun _ p₃ hend => ?_
  have hp₃ := hp.beyond (conditionLine_adds hadvance hcond hend).2
  refine bind_congr (framedBody_congr h hp₃) fun consequence p₄ hs => ?_
  have hp₄ := hp₃.onward (framedBody_opens hbody hs).1.stream
  exact bind_congr (alternative_congr h hp₄.toOnward) fun _ _ _ => rfl

theorem whileLoop_congr (h : AgreeBeyond s body body') (hp : s.Onward p.stream) :
    whileLoop body p = whileLoop body' p := by
  refine then_congr fun t p₁ hadvance => then_congr fun test p₂ hcond =>
    then_congr fun _ p₃ hend => ?_
  have hp₃ := hp.beyond (conditionLine_adds hadvance hcond hend).2
  exact bind_congr (framedBody_congr h hp₃) fun _ _ _ => rfl

theorem rangeLoop_congr (h : AgreeBeyond s body body') (hp : s.Onward p.stream) :
    rangeLoop body p = rangeLoop body' p := by
  refine then_congr fun t p₁ hadvance => then_congr fun o p₂ hname =>
    then_congr fun range p₃ hrange => then_congr fun type p₄ hlift =>
    then_congr fun _ p₅ hend => then_congr fun _ p₆ hopen => then_congr fun _ p₇ hdeclare => ?_
  have hp₅ := hp.beyond (rangeLine_adds hadvance hname hrange hlift hend).2
  have hp₇ := hp₅.onward (openFrame_enters hopen (declare_adds hdeclare)).stream
  exact bind_congr (h _ _ hp₇) fun _ _ _ => rfl

theorem declareFunction_congr (h : AgreeBeyond s body body') {head : DeclarationHead}
    (hp : s.Beyond p.stream) : declareFunction body head p = declareFunction body' head p := by
  refine then_congr fun _ p₁ hopen => then_congr fun ns p₂ hns =>
    then_congr fun returns p₃ hreturns => then_congr fun _ p₄ hend =>
    then_congr fun frame p₅ hclose => then_congr fun id p₆ hfresh =>
    then_congr fun _ p₇ hdeclare => then_congr fun _ p₈ hreopen => ?_
  have henters := openFrame_enters hopen (signature_adds hns hreturns hend)
  have hp₅ := hp.onward (closeFrame_adds henters hclose).2.stream
  have hp₆ : s.Beyond p₆.stream := by
    cases hfresh
    exact hp₅
  have hp₈ : s.Beyond p₈.stream := by
    cases hreopen
    exact hp₆.onward (declare_adds hdeclare).stream
  exact bind_congr (h _ _ hp₈) fun _ _ _ => rfl

theorem declaration_congr (h : AgreeBeyond s body body') (hp : s.Onward p.stream) :
    declaration body p = declaration body' p := by
  refine then_congr fun head p₁ hhead => then_congr fun b p₂ hb => ?_
  have hp₂ := (hp.beyond (declarationHead_adds hhead).2.1).onward (quiet_acceptDelimiter _ hb).stream
  cases b with
  | false => rfl
  | true =>
    simp only [if_true]
    rw [get_bind, get_bind]
    split
    · exact declareFunction_congr h hp₂
    · rfl

theorem loopInit_congr (h : AgreeBeyond s body body') {t : Token} (hp : s.Onward p.stream) :
    loopInit body t p = loopInit body' t p := by
  unfold loopInit
  rw [get_bind, get_bind]
  split
  · exact bind_congr (declaration_congr h hp) fun _ _ _ => rfl
  · rfl

theorem threePartLoop_congr (hbody : ClosesFrame body) (h : AgreeBeyond s body body')
    (hp : s.Onward p.stream) : threePartLoop body p = threePartLoop body' p := by
  refine then_congr fun t p₁ hadvance => then_congr fun _ p₂ hopen => ?_
  have hp₂ := (hp.trans (quiet_advance hadvance).stream).trans
    (openFrame_enters hopen (.refl p₂)).stream
  refine bind_congr (loopInit_congr h hp₂) fun init p₃ hinit => ?_
  refine then_congr fun _ p₄ hcomma => then_congr fun test p₅ htest =>
    then_congr fun _ p₆ hcomma' => then_congr fun increment p₇ hincrement =>
    then_congr fun _ p₈ hend => ?_
  have hbeyond := (loopLine_adds hbody hinit hcomma htest hcomma' hincrement hend).2
  exact bind_congr (h _ _ (hp₂.beyond hbeyond)) fun _ _ _ => rfl

theorem keywordStatement_congr (hbody : ClosesFrame body) (h : AgreeBeyond s body body')
    {keyword : Keyword} (hp : s.Onward p.stream) :
    keywordStatement body keyword p = keywordStatement body' keyword p := by
  unfold keywordStatement
  rw [get_bind, get_bind]
  split
  · rfl
  · cases keyword with
    | ifThen => exact branch_congr hbody h hp
    | orElse => rfl
    | whileLoop => exact whileLoop_congr h hp
    | forLoop =>
      change forLoop body p = forLoop body' p
      unfold forLoop
      rw [get_bind, get_bind]
      split
      · exact threePartLoop_congr hbody h hp
      · exact rangeLoop_congr h hp

/-- A statement reads blocks behind its own header only. -/
theorem statement_congr (hbody : ClosesFrame body) (h : AgreeBeyond p.stream body body') :
    statement body p = statement body' p := by
  have hp : p.stream.Onward p.stream := .refl _
  unfold statement
  rw [get_bind, get_bind]
  split
  · exact bind_congr (declaration_congr h hp) fun _ _ _ => rfl
  · cases p.stream.current.keyword with
    | none => rfl
    | some keyword => exact keywordStatement_congr hbody h hp

/-! ## Blocks -/

theorem statement_beyond (hbody : ClosesFrame body) {n : Node} {p' : Parser}
    (h : statement body p = .ok n p') : p.stream.Beyond p'.stream := by
  rcases statement_executes hbody h with ⟨-, _, -, -, hexecutes⟩ | ⟨-, hexecutes⟩
  · exact hexecutes.beyond
  · exact hexecutes.beyond

theorem bodyOf_congr (h : ∀ level p, s.Beyond p.stream → block level p = block' level p) :
    AgreeBeyond s (bodyOf block) (bodyOf block') := by
  intro construct p hp
  unfold bodyOf
  rw [get_bind, get_bind]
  split
  · rfl
  · exact h _ p hp

theorem lines_congr (hblock : ClosesBlock block)
    (h : ∀ level p, s.Beyond p.stream → block level p = block' level p) {level bound : Nat}
    {before : List Node} (hp : s.Onward p.stream) (hbefore : before ≠ [] → s.Beyond p.stream) :
    lines (statement (bodyOf block)) (block (level + 1)) level bound before p =
      lines (statement (bodyOf block')) (block' (level + 1)) level bound before p := by
  have hbody := closesFrame_bodyOf hblock
  -- A block stands behind a statement of the block that it is inside of, so tokens have been passed.
  induction bound generalizing p before with
  | zero =>
    unfold lines
    rfl
  | succ bound ih =>
    unfold lines
    rw [current_bind, current_bind]
    split
    · rfl
    · cases hplace : LinePlace.of level (!before.isEmpty) p.stream.current.level with
      | nowhere => rfl
      | outside => rfl
      | here =>
        have hagree : AgreeBeyond p.stream (bodyOf block) (bodyOf block') :=
          bodyOf_congr fun level q hq => h level q (hp.beyond hq)
        refine bind_congr (statement_congr hbody hagree) fun n p₁ hn => ?_
        have hp₁ := hp.beyond (statement_beyond hbody hn)
        exact ih hp₁.toOnward fun _ => hp₁
      | deeper =>
        have hp' : s.Beyond p.stream := by
          refine hbefore ?_
          rintro rfl
          obtain ⟨-, hfirst⟩ := LinePlace.of_eq_deeper hplace
          cases hfirst
        refine then_congr fun _ _ hopen => ?_
        cases hopen
        refine bind_congr (h _ _ hp') fun inner p₁ hinner => ?_
        have hp₁ := hp'.onward (nested_adds hblock hinner).stream
        exact ih hp₁.toOnward fun _ => hp₁

theorem blockWith_congr (hblock : ClosesBlock block)
    (h : ∀ level q, p.stream.Beyond q.stream → block level q = block' level q) (level : Nat) :
    blockWith (statement (bodyOf block)) block level p =
      blockWith (statement (bodyOf block')) block' level p := by
  unfold blockWith
  rw [get_bind, get_bind, set_bind, set_bind]
  refine bind_congr ?_ fun _ _ _ => rfl
  exact lines_congr hblock h (.refl _) fun hne => absurd rfl hne

/-- Two bounds that cover the tokens ahead make no difference. -/
theorem blockUpTo_congr {depth depth' level : Nat} (hp : p.stream.EndsAhead)
    (hd : p.stream.tokens.length ≤ depth) (hd' : p.stream.tokens.length ≤ depth') :
    blockUpTo depth level p = blockUpTo depth' level p := by
  induction depth generalizing depth' level p with
  | zero => cases hd
  | succ depth ih =>
    cases depth' with
    | zero => cases hd'
    | succ depth' =>
      rw [blockUpTo_succ, blockUpTo_succ]
      refine blockWith_congr (closesBlock_blockUpTo depth) ?_ level
      intro level q hq
      have hlt := hq.length_lt hp
      exact ih (hq.endsAhead hp) (by omega) (by omega)

theorem block_apply (level : Nat) :
    Parse.block level p = blockUpTo p.stream.tokens.length level p := by
  unfold Parse.block
  rw [get_bind]

/-- A block reads its statements and the blocks inside of it as blocks of their own. -/
theorem block_eq_blockWith (hp : p.stream.EndsAhead) (level : Nat) :
    Parse.block level p = blockWith (statement Parse.body) Parse.block level p := by
  have hbody : Parse.body = bodyOf Parse.block := rfl
  obtain ⟨depth, hdepth⟩ : ∃ depth, p.stream.tokens.length = depth + 1 := ⟨_, rfl⟩
  rw [block_apply, hdepth, blockUpTo_succ, hbody]
  refine blockWith_congr (closesBlock_blockUpTo depth) (fun level q hq => ?_) level
  have hlt := hq.length_lt hp
  rw [block_apply]
  exact blockUpTo_congr (hq.endsAhead hp) (by omega) (Nat.le_refl _)

end Parse

end Offside
