import Offside.Proofs.Lookahead

/-!
# Loops come to an end

In every round a loop of the parser passes a token before it goes on. Unrolled as often as there are tokens
ahead, it therefore never comes to what is put at the end of the unrolling.
-/

namespace Offside

set_option autoImplicit false

open Execution TokenStream

/-! ## Loops in general -/

section Loops

variable {σ α β : Type} {stream : σ → TokenStream}
  {round : (α → EStateM Diagnostic σ β) → α → EStateM Diagnostic σ β}

/-- A round runs the rest of the loop only where tokens have been passed since the round began. -/
def Progresses (stream : σ → TokenStream)
    (round : (α → EStateM Diagnostic σ β) → α → EStateM Diagnostic σ β) : Prop :=
  ∀ s rest rest', (∀ y t, (stream s).Beyond (stream t) → rest y t = rest' y t) →
    ∀ x, round rest x s = round rest' x s

/-- Unrolled at least as often as there are tokens ahead the loop is `loop`, whatever is at the end. -/
def Unrolls (stream : σ → TokenStream)
    (round : (α → EStateM Diagnostic σ β) → α → EStateM Diagnostic σ β)
    (loop : α → EStateM Diagnostic σ β) : Prop :=
  ∀ s, (stream s).EndsAhead → ∀ n, (stream s).tokens.length ≤ n → ∀ stuck x,
    round^[n] stuck x s = loop x s

/-- Two unrollings that cover the tokens ahead make no difference, nor does what is at their ends. -/
theorem Progresses.iterate (h : Progresses stream round) {s : σ} (hs : (stream s).EndsAhead)
    {n m : Nat} (hn : (stream s).tokens.length ≤ n) (hm : (stream s).tokens.length ≤ m)
    (stuck stuck' : α → EStateM Diagnostic σ β) (x : α) :
    round^[n] stuck x s = round^[m] stuck' x s := by
  induction n generalizing m s x with
  | zero => cases hn
  | succ n ih =>
    cases m with
    | zero => cases hm
    | succ m =>
      rw [Function.iterate_succ_apply', Function.iterate_succ_apply']
      refine h s _ _ (fun y t ht => ?_) x
      have hlt := ht.length_lt hs
      exact ih (ht.endsAhead hs) (by omega) (by omega) y

variable (bounded : Nat → α → EStateM Diagnostic σ β)

/-- A loop with a bound is an unrolling that gives up at the end. -/
theorem iterate_bounded (hb : ∀ n, bounded (n + 1) = round (bounded n)) (n : Nat) :
    round^[n] (bounded 0) = bounded n := by
  induction n with
  | zero => rfl
  | succ n ih => rw [Function.iterate_succ_apply', ih, hb]

theorem Progresses.bounded_eq (h : Progresses stream round)
    (hb : ∀ n, bounded (n + 1) = round (bounded n)) {s : σ} (hs : (stream s).EndsAhead) {n m : Nat}
    (hn : (stream s).tokens.length ≤ n) (hm : (stream s).tokens.length ≤ m) (x : α) :
    bounded n x s = bounded m x s := by
  rw [← iterate_bounded bounded hb n, ← iterate_bounded bounded hb m]
  exact h.iterate hs hn hm _ _ x

theorem Progresses.unrolls (h : Progresses stream round)
    (hb : ∀ n, bounded (n + 1) = round (bounded n)) :
    Unrolls stream round fun x s => bounded (stream s).tokens.length x s := by
  intro s hs n hn stuck x
  dsimp only
  rw [← iterate_bounded bounded hb (stream s).tokens.length]
  exact h.iterate hs hn (Nat.le_refl _) stuck _ x

end Loops

/-! ## Expressions -/

namespace Expression

variable {symbols : SymbolTable}

def stepRound (symbols : SymbolTable) (rest : Unit → Build Unit) (_ : Unit) : Build Unit := do
  if ← step symbols then rest ()

theorem stepRound_progresses : Progresses Expression.stream (stepRound symbols) := by
  intro e rest rest' h x
  unfold stepRound
  rw [bind_apply, bind_apply]
  cases hstep : step symbols e with
  | error d e₁ => rfl
  | ok b e₁ =>
    cases b with
    | false => rfl
    | true => exact h () e₁ (step_takes hstep).beyond

theorem steps_congr {e : Expression} (he : e.stream.EndsAhead) {n m : Nat}
    (hn : e.stream.tokens.length ≤ n) (hm : e.stream.tokens.length ≤ m) :
    steps symbols n e = steps symbols m e :=
  stepRound_progresses.bounded_eq (fun n _ => steps symbols n) (fun _ => rfl) he hn hm ()

theorem steps_unrolls : Unrolls Expression.stream (stepRound symbols)
    fun _ e => steps symbols e.stream.tokens.length e :=
  stepRound_progresses.unrolls (fun n _ => steps symbols n) fun _ => rfl

end Expression

namespace Parse

variable {p p' : Parser}

/-! ## Parameters -/

def parameterRound (rest : Unit → Parse (List Node)) (_ : Unit) : Parse (List Node) := do
  if !(← get).stream.startsDeclaration then fail (.expected "parameter declaration")
  let first ← parameter
  if ← acceptDelimiter "," then return first :: (← rest ())
  else return [first]

theorem parameter_beyond {n : Node} (h : parameter p = .ok n p') : p.stream.Beyond p'.stream := by
  obtain ⟨head, p₁, hhead, r₁⟩ := bind_eq_ok.mp h
  obtain ⟨b, p₂, hb, r₂⟩ := bind_eq_ok.mp r₁
  have hp₂ := (declarationHead_adds hhead).2.1.onward (quiet_acceptDelimiter _ hb).stream
  cases b with
  | true =>
    obtain ⟨_, -, -, -, h₃⟩ := declareValue_adds r₂
    exact hp₂.onward h₃.stream
  | false =>
    obtain ⟨_, -, -, -, h₃⟩ := declareVariable_adds r₂
    exact hp₂.onward h₃.stream

theorem parameterRound_progresses : Progresses Parser.stream parameterRound := by
  intro p rest rest' h x
  unfold parameterRound
  rw [get_bind, get_bind]
  split
  · rfl
  · refine then_congr fun first p₁ hfirst => then_congr fun b p₂ hb => ?_
    have hp₂ := (parameter_beyond hfirst).onward (quiet_acceptDelimiter _ hb).stream
    cases b with
    | false => rfl
    | true => exact bind_congr (h () p₂ hp₂) fun _ _ _ => rfl

theorem parametersUpTo_congr (hp : p.stream.EndsAhead) {n m : Nat}
    (hn : p.stream.tokens.length ≤ n) (hm : p.stream.tokens.length ≤ m) :
    parametersUpTo n p = parametersUpTo m p :=
  parameterRound_progresses.bounded_eq (fun n _ => parametersUpTo n) (fun _ => rfl) hp hn hm ()

theorem parametersUpTo_unrolls : Unrolls Parser.stream parameterRound
    fun _ p => parametersUpTo p.stream.tokens.length p :=
  parameterRound_progresses.unrolls (fun n _ => parametersUpTo n) fun _ => rfl

/-! ## The search for a comma -/

def seekRound (rest : Nat → Parse Bool) (depth : Nat) : Parse Bool := do
  if (← current).endsStatement then return false
  else
    let t ← advance
    if t.isDelimiter "(" then rest (depth + 1)
    else if t.isDelimiter ")" then rest (depth - 1)
    else if t.isDelimiter "," && depth == 0 then return true
    else rest depth

theorem seekRound_progresses : Progresses Parser.stream seekRound := by
  intro p rest rest' h depth
  unfold seekRound
  rw [current_bind, current_bind]
  split
  · rfl
  · next hend =>
    refine then_congr fun t p₁ hadvance => ?_
    have hp₁ : p.stream.Beyond p₁.stream := by
      cases hadvance
      refine beyond_advance fun hk => hend ?_
      simp [Token.endsStatement, hk]
    split
    · exact h _ _ hp₁
    · split
      · exact h _ _ hp₁
      · split
        · rfl
        · exact h _ _ hp₁

theorem seekComma_congr (hp : p.stream.EndsAhead) {n m : Nat} (hn : p.stream.tokens.length ≤ n)
    (hm : p.stream.tokens.length ≤ m) (depth : Nat) : seekComma n depth p = seekComma m depth p :=
  seekRound_progresses.bounded_eq seekComma (fun _ => rfl) hp hn hm depth

theorem seekComma_unrolls : Unrolls Parser.stream seekRound
    fun depth p => seekComma p.stream.tokens.length depth p :=
  seekRound_progresses.unrolls seekComma fun _ => rfl

/-! ## Lines -/

variable {statement : Parse Node} {nested : Parse Scope} {level : Nat}

def lineRound (statement : Parse Node) (nested : Parse Scope) (level : Nat)
    (rest : List Node → Parse (List Node)) (before : List Node) : Parse (List Node) := do
  let t ← current
  if t.kind = .endOfFile then return before.reverse
  match LinePlace.of level (!before.isEmpty) t.level with
  | .here => rest ((← statement) :: before)
  | .deeper =>
    openFrame
    rest (.scope (← nested) :: before)
  | .outside => return before.reverse
  | .nowhere => fail .scopeChange

/-- A statement passes a token or more. -/
def PassesStatement (statement : Parse Node) : Prop :=
  ∀ p n p', statement p = .ok n p' → p.stream.Beyond p'.stream

/-- A block that begins in front of a line of its own passes a token or more. -/
def PassesBlock (level : Nat) (block : Parse Scope) : Prop :=
  ∀ p s p', p.stream.current.kind ≠ .endOfFile → p.stream.current.level = level →
    block p = .ok s p' → p.stream.Beyond p'.stream

theorem lineRound_progresses (hstatement : PassesStatement statement)
    (hnested : PassesBlock (level + 1) nested) :
    Progresses Parser.stream (lineRound statement nested level) := by
  intro p rest rest' h before
  unfold lineRound
  rw [current_bind, current_bind]
  split
  · rfl
  · next hk =>
    cases hplace : LinePlace.of level (!before.isEmpty) p.stream.current.level with
    | nowhere => rfl
    | outside => rfl
    | here => exact then_congr fun n p₁ hn => h _ _ (hstatement _ _ _ hn)
    | deeper =>
      refine then_congr fun _ p₁ hopen => then_congr fun s p₂ hs => ?_
      cases hopen
      have hp₂ := hnested { p with symbols := p.symbols.openFrame } _ _ hk
        (LinePlace.of_eq_deeper hplace).1 hs
      exact h _ _ hp₂

theorem lines_bounded_eq (hstatement : PassesStatement statement)
    (hnested : PassesBlock (level + 1) nested) (hp : p.stream.EndsAhead) {n m : Nat}
    (hn : p.stream.tokens.length ≤ n) (hm : p.stream.tokens.length ≤ m) (before : List Node) :
    lines statement nested level n before p = lines statement nested level m before p :=
  (lineRound_progresses hstatement hnested).bounded_eq (lines statement nested level) (fun _ => rfl)
    hp hn hm before

theorem lines_unrolls (hstatement : PassesStatement statement)
    (hnested : PassesBlock (level + 1) nested) :
    Unrolls Parser.stream (lineRound statement nested level)
      fun before p => lines statement nested level p.stream.tokens.length before p :=
  (lineRound_progresses hstatement hnested).unrolls (lines statement nested level) fun _ => rfl

/-! ## Blocks -/

variable {block : Nat → Parse Scope}

theorem passesStatement (hblock : ClosesBlock block) :
    PassesStatement (Parse.statement (bodyOf block)) :=
  fun _ _ _ h => statement_beyond (closesFrame_bodyOf hblock) h

/-- The first line of a block is a statement, if it is at the level of the block. -/
theorem lines_beyond (hstatement : PassesStatement statement) (hdeclares : DeclaresItself statement)
    (hblock : ClosesBlock block) {bound : Nat} {ns : List Node}
    (hk : p.stream.current.kind ≠ .endOfFile) (hl : p.stream.current.level = p.level)
    (h : lines statement (block (p.level + 1)) p.level bound [] p = .ok ns p') :
    p.stream.Beyond p'.stream := by
  cases bound with
  | zero => cases h
  | succ bound =>
    unfold lines at h
    rw [current_bind, if_neg hk, hl] at h
    have hplace : LinePlace.of p.level (!([] : List Node).isEmpty) p.level = .here := by
      simp [LinePlace.of]
    simp only [hplace] at h
    obtain ⟨n, p₁, hn, r₁⟩ := bind_eq_ok.mp h
    have hlevel : p₁.level = p.level := by
      rcases hdeclares _ _ _ hn with ⟨-, i, -, hadds⟩ | ⟨-, hadds⟩ <;> exact hadds.level
    rw [← hlevel] at r₁
    obtain ⟨_, _, -, -, hadds⟩ := lines_lists hdeclares hblock r₁
    exact (hstatement _ _ _ hn).onward hadds.stream

theorem blockWith_passes (hstatement : PassesStatement statement) (hdeclares : DeclaresItself statement)
    (hblock : ClosesBlock block) : PassesBlock level (blockWith statement block level) := by
  intro p s p' hk hl h
  unfold blockWith at h
  rw [get_bind, set_bind] at h
  obtain ⟨ns, p₁, hns, r₁⟩ := bind_eq_ok.mp h
  have hbeyond : p.stream.Beyond p₁.stream :=
    lines_beyond (p := { p with level }) hstatement hdeclares hblock hk hl hns
  obtain ⟨_, _, hback, r₂⟩ := bind_eq_ok.mp r₁
  cases hback
  obtain ⟨frame, _, hclose, r₃⟩ := bind_eq_ok.mp r₂
  cases hclose
  cases r₃
  exact hbeyond

theorem blockUpTo_passes (depth level : Nat) : PassesBlock level (blockUpTo depth level) := by
  cases depth with
  | zero =>
    intro p s p' hk hl h
    cases h
  | succ depth =>
    have hblock := closesBlock_blockUpTo depth
    rw [blockUpTo_succ]
    exact blockWith_passes (passesStatement hblock)
      (statement_declaresItself (closesFrame_bodyOf hblock)) hblock

theorem block_passes (level : Nat) : PassesBlock level (Parse.block level) := by
  intro p s p' hk hl h
  rw [block_apply] at h
  exact blockUpTo_passes _ level _ _ _ hk hl h

/-- A block reads its statements, and `rest` the blocks inside of it. -/
def blockRound (rest : Nat → Parse Scope) (level : Nat) : Parse Scope :=
  blockWith (Parse.statement (bodyOf rest)) rest level

theorem block_unrolls : Unrolls Parser.stream blockRound Parse.block := by
  intro p hp n hn stuck level
  induction n generalizing p level with
  | zero => cases hn
  | succ n ih =>
    rw [Function.iterate_succ_apply', block_eq_blockWith hp]
    refine (blockWith_congr closesBlock_block (fun level q hq => ?_) level).symm
    have hlt := hq.length_lt hp
    exact (ih q (hq.endsAhead hp) (by omega) level).symm

end Parse

end Offside
