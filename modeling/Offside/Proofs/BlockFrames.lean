import Offside.Proofs.StatementFrames

/-!
# Blocks and their frames

A block adds to the frame that is open for it what its own declarations declare, one after the other, and
closes that frame. The blocks inside of it leave no trace there.
-/

namespace Offside

set_option autoImplicit false

open Execution

namespace Parser

/-- Statements and blocks, read one after the other; `new` is what those of the statements declare that
begin as a declaration. -/
inductive Lists (statement : Parse Node) (block : Nat → Parse Scope) :
    Parser → List Node → Frame → Parser → Prop where
  | done (p : Parser) : Lists statement block p [] [] p
  | declaration {p p₁ p' : Parser} {n : Node} {ns : List Node} {i : Identifier} {new : Frame} :
      p.stream.startsDeclaration = true → statement p = .ok n p₁ → n.declared? = some i →
      Lists statement block p₁ ns new p' → Lists statement block p (n :: ns) (i :: new) p'
  | other {p p₁ p' : Parser} {n : Node} {ns : List Node} {new : Frame} :
      p.stream.startsDeclaration = false → statement p = .ok n p₁ →
      Lists statement block p₁ ns new p' → Lists statement block p (n :: ns) new p'
  | nested {p p₁ p' : Parser} {s : Scope} {ns : List Node} {new : Frame} :
      block (p.level + 1) { p with symbols := p.symbols.openFrame } = .ok s p₁ →
      Lists statement block p₁ ns new p' → Lists statement block p (.scope s :: ns) new p'

end Parser

namespace Parse

variable {statement : Parse Node} {block : Nat → Parse Scope} {p p' : Parser}

/-- A statement declares itself, if it begins as a declaration, and nothing else. -/
def DeclaresItself (statement : Parse Node) : Prop :=
  ∀ p n p', statement p = .ok n p' →
    (p.stream.startsDeclaration = true ∧ ∃ i, n.declared? = some i ∧ p.Adds [i] p') ∨
      (p.stream.startsDeclaration = false ∧ p.Adds [] p')

theorem statement_declaresItself {body : String → Parse Scope} (hbody : ClosesFrame body) :
    DeclaresItself (Parse.statement body) := by
  intro p n p' h
  rcases statement_executes hbody h with ⟨hstart, i, hn, -, hexecutes⟩ | ⟨hstart, hexecutes⟩
  · exact .inl ⟨hstart, i, hn, hexecutes.adds⟩
  · exact .inr ⟨hstart, hexecutes.adds⟩

/-- A way to read blocks that closes the frame that is open for a block. -/
def ClosesBlock (block : Nat → Parse Scope) : Prop :=
  ∀ level p s p', block level p = .ok s p' → p.Closes p'

theorem nested_adds (hblock : ClosesBlock block) {level : Nat} {s : Scope}
    (h : block level { p with symbols := p.symbols.openFrame } = .ok s p') : p.Adds [] p' := by
  have hcloses := hblock _ _ _ _ h
  have hopen : p.symbols.openFrame.frames = [] :: p.symbols.frames := rfl
  exact Parser.adds_of_frames hcloses.stream hcloses.level (hcloses.frames hopen)

theorem lines_lists (hstatement : DeclaresItself statement) (hblock : ClosesBlock block)
    {bound : Nat} {before ns : List Node}
    (h : lines statement (block (p.level + 1)) p.level bound before p = .ok ns p') :
    ∃ more new, ns = before.reverse ++ more ∧ p.Lists statement block more new p' ∧
      p.Adds new p' := by
  -- `before` has the statements that were read, the last one first.
  induction bound generalizing p before with
  | zero => cases h
  | succ bound ih =>
    unfold lines at h
    rw [current_bind] at h
    split at h
    · cases h
      exact ⟨[], [], by simp, .done _, .refl _⟩
    · cases hplace : LinePlace.of p.level (!before.isEmpty) p.stream.current.level with
      | nowhere =>
        simp only [hplace] at h
        cases h
      | outside =>
        simp only [hplace] at h
        cases h
        exact ⟨[], [], by simp, .done _, .refl _⟩
      | here =>
        simp only [hplace] at h
        obtain ⟨n, p₁, hn, r₁⟩ := bind_eq_ok.mp h
        rcases hstatement _ _ _ hn with ⟨hstart, i, hi, h₁⟩ | ⟨hstart, h₁⟩
        · rw [← h₁.level] at r₁
          obtain ⟨more, new, rfl, hlists, h₂⟩ := ih r₁
          exact ⟨n :: more, i :: new, by simp, .declaration hstart hn hi hlists, h₁.trans h₂⟩
        · rw [← h₁.level] at r₁
          obtain ⟨more, new, rfl, hlists, h₂⟩ := ih r₁
          exact ⟨n :: more, new, by simp, .other hstart hn hlists, h₁.trans h₂⟩
      | deeper =>
        simp only [hplace] at h
        obtain ⟨_, _, hopen, r₁⟩ := bind_eq_ok.mp h
        cases hopen
        obtain ⟨s, p₁, hs, r₂⟩ := bind_eq_ok.mp r₁
        have h₁ := nested_adds hblock hs
        rw [← h₁.level] at r₂
        obtain ⟨more, new, rfl, hlists, h₂⟩ := ih r₂
        exact ⟨.scope s :: more, new, by simp, .nested hs hlists, h₁.trans h₂⟩

/-- One block, with a way to read its statements and the blocks inside of it. -/
def blockWith (statement : Parse Node) (block : Nat → Parse Scope) (level : Nat) : Parse Scope := do
  let p ← get
  set { p with level }
  let statements ← lines statement (block (level + 1)) level p.stream.tokens.length []
  modify fun q => { q with level := p.level }
  return ⟨statements, ← closeFrame⟩

theorem blockUpTo_succ (depth level : Nat) : blockUpTo (depth + 1) level =
    blockWith (Parse.statement (bodyOf (blockUpTo depth))) (blockUpTo depth) level := rfl

/-- A block closes the frame that is open for it, which has gained what the block declares. -/
theorem blockWith_closes (hstatement : DeclaresItself statement) (hblock : ClosesBlock block)
    {level : Nat} {s : Scope} (h : blockWith statement block level p = .ok s p') :
    p.Closes p' ∧ ∃ new q, { p with level }.Lists statement block s.statements new q ∧
      ∀ {frame outer}, p.symbols.frames = frame :: outer →
        s.frame = frame ++ new ∧ frame.Gains new := by
  unfold blockWith at h
  rw [get_bind, set_bind] at h
  obtain ⟨ns, p₁, hns, r₁⟩ := bind_eq_ok.mp h
  obtain ⟨_, _, hback, r₂⟩ := bind_eq_ok.mp r₁
  cases hback
  obtain ⟨frame, _, hclose, r₃⟩ := bind_eq_ok.mp r₂
  cases hclose
  cases r₃
  obtain ⟨more, new, hmore, hlists, hadds⟩ :=
    @lines_lists statement block { p with level } p₁ hstatement hblock _ [] ns hns
  obtain rfl : ns = more := by simpa using hmore
  refine ⟨⟨hadds.stream, rfl, ?_⟩, new, p₁, hlists, ?_⟩
  · intro frame outer hp
    obtain ⟨hp₁, -⟩ := hadds.frames hp
    simp [hp₁]
  · intro frame outer hp
    obtain ⟨hp₁, hgains⟩ := hadds.frames hp
    exact ⟨by simp [hp₁], hgains⟩

theorem closesFrame_bodyOf (hblock : ClosesBlock block) : ClosesFrame (bodyOf block) := by
  intro construct p s p' h
  unfold bodyOf at h
  rw [get_bind] at h
  split at h
  · cases h
  · exact hblock _ _ _ _ h

theorem closesBlock_blockUpTo (depth : Nat) : ClosesBlock (blockUpTo depth) := by
  -- A block hands one depth less to its bodies and to the blocks inside of it.
  induction depth with
  | zero =>
    intro level p s p' h
    cases h
  | succ depth ih =>
    intro level p s p' h
    rw [blockUpTo_succ] at h
    exact (blockWith_closes (statement_declaresItself (closesFrame_bodyOf ih)) ih h).1

theorem closesBlock_block : ClosesBlock Parse.block := by
  intro level p s p' h
  unfold Parse.block at h
  rw [get_bind] at h
  exact closesBlock_blockUpTo _ _ _ _ _ h

theorem closesFrame_body : ClosesFrame body := closesFrame_bodyOf closesBlock_block

end Parse

end Offside
