import Offside.Proofs.Coupling

/-!
# Coupled runs of the parser

No action of the parser tells streams apart that are coupled.
-/

namespace Offside.Parse

set_option autoImplicit false

open Execution TokenStream

abbrev Couples (R : TokenStream → TokenStream → Prop) {α : Type} (x : Parse α) : Prop :=
  Respects (Parser.Coupled R) x

variable {R : TokenStream → TokenStream → Prop} (hR : Coupling R) {α : Type}

/-! ## The state -/

theorem couples_get {f : Parser → Parse α}
    (h : ∀ p t, R p.stream t → f p = f { p with stream := t }) (hf : ∀ p, Couples R (f p)) :
    Couples R (get >>= f) := by
  refine respects_get ?_ hf
  rintro p _ ⟨t, ht, rfl⟩
  exact h p t ht

theorem couples_modify {f : Parser → Parser} (hstream : ∀ p, (f p).stream = p.stream)
    (hf : ∀ p t, f { p with stream := t } = { f p with stream := t }) :
    Couples R (modify f : Parse Unit) := by
  refine respects_modify ?_
  rintro p _ ⟨t, ht, rfl⟩
  exact ⟨t, (hstream p).symm ▸ ht, hf p t⟩

theorem couples_openFrame : Couples R openFrame := couples_modify (fun _ => by rfl) fun _ _ => by rfl

theorem couples_reopenFrame (frame : Frame) : Couples R (reopenFrame frame) :=
  couples_modify (fun _ => by rfl) fun _ _ => by rfl

theorem couples_closeFrame : Couples R closeFrame := by
  rintro p _ ⟨t, ht, rfl⟩
  exact .ok ⟨t, ht, rfl⟩

theorem couples_freshFunction : Couples R freshFunction := by
  rintro p _ ⟨t, ht, rfl⟩
  exact .ok ⟨t, ht, rfl⟩

theorem couples_define (f : Function) : Couples R (define f) :=
  couples_modify (fun _ => by rfl) fun _ _ => by rfl

theorem couples_enter (level : Nat) : Couples R (modify fun p => { p with level } : Parse Unit) :=
  couples_modify (fun _ => by rfl) fun _ _ => by rfl

theorem couples_declare (i : Identifier) : Couples R (declare i) := by
  rintro p _ ⟨t, ht, rfl⟩
  unfold declare
  rw [get_bind, get_bind]
  dsimp only
  cases p.symbols.declare? i with
  | some symbols => exact .ok ⟨t, ht, rfl⟩
  | none => exact .error ⟨t, ht, rfl⟩

theorem couples_liftExcept (x : Except Diagnostic α) : Couples R (liftExcept x) := by
  cases x with
  | ok a => exact respects_pure a
  | error d => exact respects_throw d

include hR

/-! ## Tokens -/

theorem couples_current : Couples R current :=
  couples_get (fun p t ht => by simp only [hR.current _ _ ht]) fun _ => respects_pure _

theorem couples_advance : Couples R advance := by
  refine respects_bind (couples_current hR) fun u => respects_bind ?_ fun _ => respects_pure u
  refine respects_modify ?_
  rintro p _ ⟨t, ht, rfl⟩
  exact ⟨t.advance, hR.advance _ _ ht, rfl⟩

theorem couples_fail (fault : Fault) : Couples R (fail fault : Parse α) :=
  respects_bind (couples_current hR) fun _ => respects_throw _

theorem couples_accept (kind : Token.Kind) : Couples R (accept kind) := by
  refine respects_bind (couples_current hR) fun t => ?_
  split
  · exact respects_bind (couples_advance hR) fun _ => respects_pure _
  · exact respects_pure none

theorem couples_acceptDelimiter (text : String) : Couples R (acceptDelimiter text) := by
  refine respects_bind (couples_current hR) fun t => ?_
  split
  · exact respects_bind (couples_advance hR) fun _ => respects_pure true
  · exact respects_pure false

theorem couples_acceptOperator (text : String) : Couples R (acceptOperator text) := by
  refine respects_bind (couples_current hR) fun t => ?_
  split
  · exact respects_bind (couples_advance hR) fun _ => respects_pure true
  · exact respects_pure false

theorem couples_expect (kind : Token.Kind) (what : String) : Couples R (expect kind what) := by
  refine respects_bind (couples_accept hR kind) fun o => ?_
  cases o with
  | none => exact couples_fail hR _
  | some t => exact respects_pure t

theorem couples_expectDelimiter (text : String) : Couples R (expectDelimiter text) := by
  refine respects_bind (couples_acceptDelimiter hR text) fun b => ?_
  cases b with
  | false => exact couples_fail hR _
  | true => exact respects_pure ()

theorem couples_expectEndOfStatement : Couples R expectEndOfStatement :=
  respects_bind (couples_expect hR _ _) fun _ => respects_pure ()

theorem couples_expectMore : Couples R expectMore := by
  refine respects_bind (couples_current hR) fun t => ?_
  split
  · exact couples_fail hR _
  · exact respects_pure ()

theorem couples_endHeader : Couples R endHeader :=
  respects_bind (couples_expectEndOfStatement hR) fun _ => couples_expectMore hR

/-! ## Looking ahead -/

theorem couples_seekComma (bound depth : Nat) : Couples R (seekComma bound depth) := by
  induction bound generalizing depth with
  | zero => exact respects_pure false
  | succ bound ih =>
    refine respects_bind (couples_current hR) fun t => ?_
    split
    · exact respects_pure false
    · refine respects_bind (couples_advance hR) fun t => ?_
      split
      · exact ih _
      · split
        · exact ih _
        · split
          · exact respects_pure true
          · exact ih _

theorem couples_seekThreeParts : Couples R seekThreeParts := by
  refine respects_bind (couples_advance hR) fun _ => ?_
  rintro p _ ⟨t, ht, rfl⟩
  obtain ⟨hp, hq⟩ := hR.endsAhead _ _ ht
  rw [get_bind, get_bind]
  dsimp only
  rw [← hR.current _ _ ht, ← hR.startsDeclaration ht]
  split
  · exact .ok ⟨t, ht, rfl⟩
  · split
    · exact matches_bounded (fun n => couples_seekComma hR n 0)
        (fun _ hk => seekComma_congr hp (Nat.le_refl _) hk 0)
        (fun _ hk => seekComma_congr hq (Nat.le_refl _) hk 0) ⟨t, ht, rfl⟩
    · exact .ok ⟨t, ht, rfl⟩

theorem couples_seekParameters : Couples R seekParameters := by
  refine respects_bind (couples_acceptDelimiter hR _) fun b => ?_
  split
  · refine respects_bind (couples_acceptDelimiter hR _) fun b => ?_
    split
    · exact respects_pure true
    · refine respects_bind (couples_accept hR _) fun o => ?_
      split
      · exact couples_acceptDelimiter hR _
      · exact respects_pure false
  · exact respects_pure false

/-! ## Expressions and types -/

theorem couples_dataType : Couples R dataType :=
  respects_bind (couples_expect hR _ _) fun _ =>
    respects_bind (couples_liftExcept _) fun _ => respects_pure _

theorem couples_expressionTree : Couples R expressionTree := by
  rintro p _ ⟨t, ht, rfl⟩
  have htree := @Expression.couples_tree R p.symbols hR (.start p.stream) (.start t) ⟨t, ht, rfl⟩
  unfold expressionTree
  dsimp only
  generalize Expression.tree p.symbols (.start p.stream) = r at htree
  generalize Expression.tree p.symbols (.start t) = r' at htree
  cases htree with
  | ok h =>
    obtain ⟨u, hu, rfl⟩ := h
    exact .ok ⟨u, hu, rfl⟩
  | error h =>
    obtain ⟨u, hu, rfl⟩ := h
    exact .error ⟨u, hu, rfl⟩

theorem couples_expression : Couples R expression :=
  respects_bind (couples_expressionTree hR) fun _ => couples_liftExcept _

theorem couples_condition (place : Location) : Couples R (condition place) :=
  respects_bind (couples_expression hR) fun _ =>
    respects_bind (couples_liftExcept _) fun _ => respects_pure _

/-! ## Declarations -/

theorem couples_declarationHead : Couples R declarationHead := by
  refine respects_bind (couples_expect hR _ _) fun name => ?_
  refine respects_bind (couples_expectDelimiter hR _) fun _ => ?_
  refine respects_bind (couples_accept hR _) fun o => ?_
  cases o with
  | none => exact respects_pure _
  | some t => exact respects_bind (couples_liftExcept _) fun _ => respects_pure _

variable (head : DeclarationHead)

theorem couples_declareValue (declared : Declared) : Couples R (declareValue head declared) := by
  refine respects_bind (couples_expression hR) fun value => ?_
  refine respects_bind (couples_liftExcept _) fun type => ?_
  exact respects_bind (couples_declare _) fun _ => respects_pure _

theorem couples_declareVariable : Couples R (declareVariable head) := by
  refine respects_bind (couples_acceptOperator hR _) fun b => ?_
  split
  · exact couples_declareValue hR head _
  · split
    · exact couples_fail hR _
    · exact respects_throw _
    · exact respects_bind (couples_declare _) fun _ => respects_pure _

theorem couples_parameter : Couples R parameter := by
  refine respects_bind (couples_declarationHead hR) fun head => ?_
  refine respects_bind (couples_acceptDelimiter hR _) fun b => ?_
  split
  · exact couples_declareValue hR head _
  · exact couples_declareVariable hR head

theorem couples_parametersUpTo (n : Nat) : Couples R (parametersUpTo n) := by
  induction n with
  | zero => exact couples_fail hR _
  | succ n ih =>
    refine couples_get (fun p t ht => by simp only [hR.startsDeclaration ht]) fun p => ?_
    refine respects_unless (couples_fail hR _) (respects_bind (couples_parameter hR) fun first => ?_)
    refine respects_bind (couples_acceptDelimiter hR _) fun b => ?_
    split
    · exact respects_bind ih fun _ => respects_pure _
    · exact respects_pure _

theorem couples_parameters : Couples R parameters := by
  refine respects_bind (couples_expectDelimiter hR _) fun _ => ?_
  have hclose : ∀ ns : List Node, Couples R (do
      expectDelimiter ")"
      return ns) :=
    fun ns => respects_bind (couples_expectDelimiter hR _) fun _ => respects_pure ns
  rintro p _ ⟨t, ht, rfl⟩
  obtain ⟨hp, hq⟩ := hR.endsAhead _ _ ht
  rw [get_bind, get_bind]
  dsimp only
  rw [← hR.current _ _ ht]
  split
  · exact hclose [] _ _ ⟨t, ht, rfl⟩
  · refine Matches.bind ?_ hclose
    exact matches_bounded (couples_parametersUpTo hR)
      (fun _ hk => parametersUpTo_congr hp (Nat.le_refl _) hk)
      (fun _ hk => parametersUpTo_congr hq (Nat.le_refl _) hk) ⟨t, ht, rfl⟩

theorem couples_resultType (declared : DataType) : Couples R (resultType declared) := by
  refine respects_bind (couples_acceptOperator hR _) fun b => ?_
  split
  · refine respects_bind (couples_dataType hR) fun result => ?_
    exact respects_unless (respects_throw _) (respects_pure _)
  · exact respects_pure _

section Bodies

variable {body : String → Parse Scope} (hbody : ∀ construct, Couples R (body construct))
include hbody

theorem couples_declareFunction : Couples R (declareFunction body head) := by
  refine respects_bind couples_openFrame fun _ => respects_bind (couples_parameters hR) fun ns => ?_
  refine respects_bind (couples_resultType hR _) fun returns => ?_
  refine respects_bind (couples_endHeader hR) fun _ => ?_
  refine respects_bind couples_closeFrame fun frame => ?_
  refine respects_bind couples_freshFunction fun id => ?_
  refine respects_bind (couples_declare _) fun _ => ?_
  refine respects_bind (couples_reopenFrame _) fun _ => respects_bind (hbody _) fun scope => ?_
  exact respects_bind (couples_define _) fun _ => respects_pure _

theorem couples_declaration : Couples R (declaration body) := by
  refine respects_bind (couples_declarationHead hR) fun head => ?_
  refine respects_bind (couples_acceptDelimiter hR _) fun b => ?_
  split
  · refine couples_get (fun p t ht => by simp only [hR.startsParameters ht]) fun p => ?_
    split
    · exact couples_declareFunction hR head hbody
    · exact couples_declareValue hR head _
  · exact couples_declareVariable hR head

theorem couples_declarationStatement : Couples R (declarationStatement body) := by
  refine respects_bind (couples_declaration hR hbody) fun n => ?_
  split
  · exact respects_bind (couples_expectEndOfStatement hR) fun _ => respects_pure n
  · exact respects_pure n

/-! ## Branches and loops -/

omit hR in
theorem couples_framedBody (construct : String) : Couples R (framedBody body construct) :=
  respects_bind couples_openFrame fun _ => hbody construct

theorem couples_alternative : Couples R (alternative body) := by
  refine couples_get (fun p t ht => by simp only [hR.current _ _ ht]) fun p => ?_
  dsimp only
  split
  · refine respects_bind (couples_advance hR) fun _ => ?_
    refine respects_bind (couples_endHeader hR) fun _ => ?_
    exact respects_bind (couples_framedBody hbody _) fun _ => respects_pure _
  · exact respects_pure none

theorem couples_branch : Couples R (branch body) := by
  refine respects_bind (couples_advance hR) fun t => ?_
  refine respects_bind (couples_condition hR _) fun test => ?_
  refine respects_bind (couples_endHeader hR) fun _ => ?_
  refine respects_bind (couples_framedBody hbody _) fun consequence => ?_
  exact respects_bind (couples_alternative hR hbody) fun _ => respects_pure _

theorem couples_whileLoop : Couples R (whileLoop body) := by
  refine respects_bind (couples_advance hR) fun t => ?_
  refine respects_bind (couples_condition hR _) fun test => ?_
  refine respects_bind (couples_endHeader hR) fun _ => ?_
  exact respects_bind (couples_framedBody hbody _) fun _ => respects_pure _

theorem couples_loopInit (t : Token) : Couples R (loopInit body t) := by
  refine couples_get ?_ fun p => ?_
  · exact fun p t ht => by simp only [hR.startsDeclaration ht, hR.current _ _ ht]
  · dsimp only
    split
    · refine respects_bind (couples_declaration hR hbody) fun n => ?_
      split
      · exact respects_pure _
      · exact respects_throw _
    · split
      · exact respects_pure none
      · exact couples_fail hR _

omit hbody in
theorem couples_loopCondition (t : Token) : Couples R (loopCondition t) := by
  refine respects_bind (couples_current hR) fun _ => ?_
  split
  · exact respects_pure none
  · exact respects_bind (couples_condition hR _) fun _ => respects_pure _

omit hbody in
theorem couples_loopIncrement : Couples R loopIncrement := by
  refine respects_bind (couples_current hR) fun _ => ?_
  split
  · exact respects_pure none
  · refine respects_bind (couples_expression hR) fun n => ?_
    exact respects_bind (couples_liftExcept _) fun _ => respects_pure _

theorem couples_threePartLoop : Couples R (threePartLoop body) := by
  refine respects_bind (couples_advance hR) fun t => respects_bind couples_openFrame fun _ => ?_
  refine respects_bind (couples_loopInit hR hbody t) fun init => ?_
  refine respects_bind (couples_expectDelimiter hR _) fun _ => ?_
  refine respects_bind (couples_loopCondition hR t) fun test => ?_
  refine respects_bind (couples_expectDelimiter hR _) fun _ => ?_
  refine respects_bind (couples_loopIncrement hR) fun increment => ?_
  refine respects_bind (couples_endHeader hR) fun _ => ?_
  exact respects_bind (hbody _) fun _ => respects_pure _

omit hbody in
theorem couples_loopName : Couples R loopName := by
  refine couples_get (fun p t ht => by simp only [hR.startsDeclaration ht]) fun p => ?_
  split
  · refine respects_bind (couples_advance hR) fun name => ?_
    exact respects_bind (couples_advance hR) fun _ => respects_pure _
  · exact respects_pure none

theorem couples_rangeLoop : Couples R (rangeLoop body) := by
  refine respects_bind (couples_advance hR) fun t => respects_bind (couples_loopName hR) fun name => ?_
  refine respects_bind (couples_expression hR) fun range => ?_
  refine respects_bind (couples_liftExcept _) fun type => ?_
  refine respects_bind (couples_endHeader hR) fun _ => ?_
  cases name <;>
  · refine respects_bind couples_openFrame fun _ => respects_bind (couples_declare _) fun _ => ?_
    exact respects_bind (hbody _) fun _ => respects_pure _

theorem couples_forLoop : Couples R (forLoop body) := by
  refine couples_get (fun p t ht => by simp only [hR.startsThreePartLoop ht]) fun p => ?_
  split
  · exact couples_threePartLoop hR hbody
  · exact couples_rangeLoop hR hbody

theorem couples_keywordStatement (keyword : Keyword) : Couples R (keywordStatement body keyword) := by
  refine couples_get (fun _ _ _ => rfl) fun p => respects_unless (couples_fail hR _) ?_
  cases keyword with
  | ifThen => exact couples_branch hR hbody
  | orElse => exact couples_fail hR _
  | whileLoop => exact couples_whileLoop hR hbody
  | forLoop => exact couples_forLoop hR hbody

omit hbody in
theorem couples_expressionStatement : Couples R expressionStatement := by
  refine respects_bind (couples_expression hR) fun n => ?_
  refine respects_bind (couples_liftExcept _) fun _ => ?_
  exact respects_bind (couples_expectEndOfStatement hR) fun _ => respects_pure n

theorem couples_statement : Couples R (statement body) := by
  refine couples_get ?_ fun p => ?_
  · exact fun p t ht => by simp only [hR.startsDeclaration ht, hR.current _ _ ht]
  · dsimp only
    split
    · exact couples_declarationStatement hR hbody
    · split
      · exact couples_keywordStatement hR hbody _
      · exact couples_expressionStatement hR

end Bodies

/-! ## Blocks -/

theorem couples_lines {statement : Parse Node} {nested : Parse Scope} (hstatement : Couples R statement)
    (hnested : Couples R nested) (level n : Nat) (before : List Node) :
    Couples R (lines statement nested level n before) := by
  induction n generalizing before with
  | zero => exact couples_fail hR _
  | succ n ih =>
    refine respects_bind (couples_current hR) fun t => ?_
    split
    · exact respects_pure _
    · split
      · exact respects_bind hstatement fun _ => ih _
      · refine respects_bind couples_openFrame fun _ => respects_bind hnested fun _ => ih _
      · exact respects_pure _
      · exact couples_fail hR _

theorem couples_bodyOf {block : Nat → Parse Scope} (hblock : ∀ level, Couples R (block level))
    (construct : String) : Couples R (bodyOf block construct) := by
  refine couples_get (fun p t ht => by simp only [hR.current _ _ ht]) fun p => ?_
  exact respects_unless (couples_fail hR _) (hblock _)

theorem couples_blockUpTo (depth level : Nat) : Couples R (blockUpTo depth level) := by
  induction depth generalizing level with
  | zero => exact couples_fail hR _
  | succ depth ih =>
    have hlines := fun n =>
      couples_lines hR (couples_statement hR (couples_bodyOf hR ih)) (ih (level + 1)) level n []
    have hbound : ∀ q : Parser, q.stream.EndsAhead → ∀ n, q.stream.tokens.length ≤ n → _ :=
      fun q hq n hn => lines_bounded_eq (passesStatement (closesBlock_blockUpTo depth))
        (blockUpTo_passes depth (level + 1)) hq (Nat.le_refl _) hn []
    rintro p _ ⟨t, ht, rfl⟩
    obtain ⟨hp, hq⟩ := hR.endsAhead _ _ ht
    unfold blockUpTo
    rw [get_bind, get_bind, set_bind, set_bind]
    refine Matches.bind ?_ fun ns => ?_
    · exact matches_bounded hlines (hbound { p with level } hp)
        (hbound { p with stream := t, level } hq) ⟨t, ht, rfl⟩
    · refine respects_bind (couples_enter _) fun _ => ?_
      exact respects_bind couples_closeFrame fun _ => respects_pure _

theorem couples_block (level : Nat) : Couples R (block level) := by
  rintro p _ ⟨t, ht, rfl⟩
  obtain ⟨hp, hq⟩ := hR.endsAhead _ _ ht
  rw [block_apply, block_apply]
  exact matches_bounded (fun depth => couples_blockUpTo hR depth level)
    (fun _ hk => blockUpTo_congr hp (Nat.le_refl _) hk)
    (fun _ hk => blockUpTo_congr hq (Nat.le_refl _) hk) ⟨t, ht, rfl⟩

end Offside.Parse
