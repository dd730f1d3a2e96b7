import Offside.Proofs.FrameGrowth

/-!
# Statements and the frames of their blocks

A statement opens a frame for each of its blocks, fills it with what the header of the block declares, and
leaves it to the block to close it. What is left is its own declaration, if it is one.
-/

namespace Offside

set_option autoImplicit false

open Execution

theorem Node.IsExpression.blocks_eq {n : Node} (h : n.IsExpression) : n.blocks = [] := by
  cases h <;> rfl

namespace Parser

variable {body : String → Parse Scope} {p p₁ p₂ p' : Parser} {new more : Frame}
  {n : Node} {header : List Node} {s : Scope}

/-- The parser moves on and opens a frame, in which `first` is declared. -/
structure Enters (p : Parser) (first : Frame) (p' : Parser) : Prop where
  stream : p.stream.Onward p'.stream
  level : p'.level = p.level
  frames : p'.symbols.frames = first :: p.symbols.frames
  nodup : first.names.Nodup

/-- The parser moves on and closes the innermost frame. -/
structure Closes (p p' : Parser) : Prop where
  stream : p.stream.Onward p'.stream
  level : p'.level = p.level
  frames : ∀ {frame outer}, p.symbols.frames = frame :: outer → p'.symbols.frames = outer

/-- The block is read from a frame on top of those that are left, with what its header declares. -/
def Opens (body : String → Parse Scope) (p : Parser) (header : List Node) (s : Scope)
    (p' : Parser) : Prop :=
  ∃ construct q q', body construct q = .ok s q' ∧ p.stream.Onward q.stream ∧ q.level = p.level ∧
    ∀ {frame outer}, p.symbols.frames = frame :: outer →
      q.symbols.frames = entries header :: p'.symbols.frames ∧ (entries header).names.Nodup

/-- A statement adds `new` to the innermost frame, and its blocks have frames of their own. -/
structure Executes (body : String → Parse Scope) (p : Parser) (new : Frame) (n : Node)
    (p' : Parser) : Prop where
  adds : p.Adds new p'
  beyond : p.stream.Beyond p'.stream
  blocks : ∀ block ∈ n.blocks, p.Opens body block.1 block.2 p'

theorem Adds.executes (h : p.Adds new p') (hs : p.stream.Beyond p'.stream) (hn : n.blocks = []) :
    p.Executes body new n p' := by
  refine ⟨h, hs, ?_⟩
  rw [hn]
  exact List.forall_mem_nil _

theorem Opens.of_adds (h₁ : p.Adds new p₁) (h : p₁.Opens body header s p₂) (h₂ : p₁.Adds more p₂)
    (h₃ : p₂.Adds [] p') : p.Opens body header s p' := by
  obtain ⟨construct, q, q', hq, hstream, hlevel, hframes⟩ := h
  refine ⟨construct, q, q', hq, h₁.stream.trans hstream, hlevel.trans h₁.level, ?_⟩
  intro frame outer hp
  obtain ⟨hp₁, -⟩ := h₁.frames hp
  obtain ⟨hp₂, -⟩ := h₂.frames hp₁
  obtain ⟨hp', -⟩ := h₃.frames hp₂
  rw [List.append_nil] at hp'
  rw [hp', ← hp₂]
  exact hframes hp₁

theorem Executes.then (h : p.Executes body new n p₁) (h₁ : p₁.Adds [] p') :
    p.Executes body new n p' :=
  ⟨h.adds.then h₁, h.beyond.onward h₁.stream,
    fun block hmem => (h.blocks block hmem).of_adds (.refl p) h.adds h₁⟩

end Parser

namespace Parse

variable {body : String → Parse Scope} {p p₁ p₂ p' : Parser} {n : Node} {s : Scope}

/-! ## Frames that are opened and closed -/

/-- A way to read the block of a construct that closes the frame that is open for it. -/
def ClosesFrame (body : String → Parse Scope) : Prop :=
  ∀ construct p s p', body construct p = .ok s p' → p.Closes p'

theorem openFrame_enters {new : Frame} (h : openFrame p = .ok () p₁) (h₁ : p₁.Adds new p') :
    p.Enters new p' := by
  cases h
  have hopen : p.symbols.openFrame.frames = [] :: p.symbols.frames := rfl
  obtain ⟨hp', hgains⟩ := h₁.frames hopen
  exact ⟨h₁.stream, h₁.level, hp', hgains.nodup⟩

theorem reopenFrame_enters {frame : Frame} (h : reopenFrame frame p = .ok () p')
    (hn : frame.names.Nodup) : p.Enters frame p' := by
  cases h
  exact ⟨.refl _, rfl, rfl, hn⟩

theorem closeFrame_adds {first frame : Frame} (h₁ : p.Enters first p₁)
    (h : closeFrame p₁ = .ok frame p') : frame = first ∧ p.Adds [] p' := by
  cases h
  have hp₁ := h₁.frames
  refine ⟨by simp [hp₁], Parser.adds_of_frames h₁.stream h₁.level ?_⟩
  simp [hp₁]

theorem body_opens (hbody : ClosesFrame body) {construct : String} {header : List Node}
    (h₁ : p.Enters (entries header) p₁) (h : body construct p₁ = .ok s p') :
    p.Adds [] p' ∧ p.Opens body header s p' := by
  have hcloses := hbody _ _ _ _ h
  have hp' := hcloses.frames h₁.frames
  constructor
  · exact Parser.adds_of_frames (h₁.stream.trans hcloses.stream) (hcloses.level.trans h₁.level) hp'
  · refine ⟨construct, p₁, p', h, h₁.stream, h₁.level, fun _ => ?_⟩
    rw [hp']
    exact ⟨h₁.frames, h₁.nodup⟩

theorem framedBody_opens (hbody : ClosesFrame body) {construct : String}
    (h : framedBody body construct p = .ok s p') : p.Adds [] p' ∧ p.Opens body [] s p' := by
  obtain ⟨_, p₁, hopen, r₁⟩ := bind_eq_ok.mp h
  exact body_opens hbody (openFrame_enters hopen (.refl p₁)) r₁

/-- The end of a header lies behind it. -/
theorem header_adds {new : Frame} (h : p.Adds new p₁) (hend : endHeader p₁ = .ok () p') :
    p.Adds new p' ∧ p.stream.Beyond p'.stream :=
  ⟨h.then (quiet_endHeader hend), h.stream.beyond (endHeader_beyond hend)⟩

theorem conditionLine_adds {t : Token} {test : Node} {place : Location}
    (hadvance : advance p = .ok t p₁) (hcond : condition place p₁ = .ok test p₂)
    (hend : endHeader p₂ = .ok () p') : p.Adds [] p' ∧ p.stream.Beyond p'.stream :=
  header_adds ((quiet_advance hadvance).then (quiet_condition _ hcond)) hend

/-! ## Branches and loops -/

theorem alternative_opens (hbody : ClosesFrame body) {o : Option Scope}
    (h : alternative body p = .ok o p') :
    p.Adds [] p' ∧ ∀ s ∈ o.toList, p.Opens body [] s p' := by
  unfold alternative at h
  rw [get_bind] at h
  split at h
  · obtain ⟨t, p₁, hadvance, r₁⟩ := bind_eq_ok.mp h
    obtain ⟨_, p₂, hend, r₂⟩ := bind_eq_ok.mp r₁
    obtain ⟨s, p₃, hs, r₃⟩ := bind_eq_ok.mp r₂
    cases r₃
    have h₂ := (quiet_advance hadvance).then (quiet_endHeader hend)
    obtain ⟨h₃, hopens⟩ := framedBody_opens hbody hs
    refine ⟨h₂.then h₃, List.forall_mem_singleton.mpr ?_⟩
    exact hopens.of_adds h₂ h₃ (.refl p')
  · cases h
    exact ⟨.refl p, List.forall_mem_nil _⟩

theorem branch_executes (hbody : ClosesFrame body) (h : branch body p = .ok n p') :
    p.Executes body [] n p' := by
  obtain ⟨t, p₁, hadvance, r₁⟩ := bind_eq_ok.mp h
  obtain ⟨test, p₂, hcond, r₂⟩ := bind_eq_ok.mp r₁
  obtain ⟨_, p₃, hend, r₃⟩ := bind_eq_ok.mp r₂
  obtain ⟨s, p₄, hs, r₄⟩ := bind_eq_ok.mp r₃
  obtain ⟨o, p₅, ho, r₅⟩ := bind_eq_ok.mp r₄
  cases r₅
  obtain ⟨h₃, hbeyond⟩ := conditionLine_adds hadvance hcond hend
  obtain ⟨h₄, hconsequence⟩ := framedBody_opens hbody hs
  obtain ⟨h₅, halternative⟩ := alternative_opens hbody ho
  refine ⟨(h₃.then h₄).then h₅, hbeyond.onward (h₄.then h₅).stream,
    List.forall_mem_cons.mpr ⟨hconsequence.of_adds h₃ h₄ h₅, ?_⟩⟩
  intro block hmem
  obtain ⟨s', hs', rfl⟩ := List.mem_map.mp hmem
  exact (halternative s' hs').of_adds (h₃.then h₄) h₅ (.refl p')

theorem whileLoop_executes (hbody : ClosesFrame body) (h : whileLoop body p = .ok n p') :
    p.Executes body [] n p' := by
  obtain ⟨t, p₁, hadvance, r₁⟩ := bind_eq_ok.mp h
  obtain ⟨test, p₂, hcond, r₂⟩ := bind_eq_ok.mp r₁
  obtain ⟨_, p₃, hend, r₃⟩ := bind_eq_ok.mp r₂
  obtain ⟨s, p₄, hs, r₄⟩ := bind_eq_ok.mp r₃
  cases r₄
  obtain ⟨h₃, hbeyond⟩ := conditionLine_adds hadvance hcond hend
  obtain ⟨h₄, hopens⟩ := framedBody_opens hbody hs
  refine ⟨h₃.then h₄, hbeyond.onward h₄.stream, List.forall_mem_singleton.mpr ?_⟩
  exact hopens.of_adds h₃ h₄ (.refl p')

theorem rangeLine_adds {p₃ p₄ : Parser} {t : Token} {o : Option Token} {range : Node}
    {x : Except Diagnostic DataType} {type : DataType}
    (hadvance : advance p = .ok t p₁) (hname : loopName p₁ = .ok o p₂)
    (hrange : expression p₂ = .ok range p₃) (hlift : liftExcept x p₃ = .ok type p₄)
    (hend : endHeader p₄ = .ok () p') : p.Adds [] p' ∧ p.stream.Beyond p'.stream := by
  have h₂ := (quiet_advance hadvance).then (quiet_loopName hname)
  have h₄ := (h₂.then (quiet_expression hrange)).then (quiet_liftExcept _ hlift)
  exact header_adds h₄ hend

/-- The loop variable is what the header of a loop over a range declares. -/
theorem rangeBody_opens (hbody : ClosesFrame body) {name construct : String} {type : DataType}
    {place : Location} (hopen : openFrame p = .ok () p₁)
    (hdeclare : declare (Declared.variable.identifier name type place) p₁ = .ok () p₂)
    (h : body construct p₂ = .ok s p') (range : Node) (location : Location) :
    p.Adds [] p' ∧ p.Opens body [.binary .assignment
      (Declared.variable.identifier name type place).toNode range location] s p' := by
  have henters : p.Enters (entries [.binary .assignment
      (Declared.variable.identifier name type place).toNode range location]) p₂ :=
    openFrame_enters hopen (declare_adds hdeclare)
  exact body_opens hbody henters h

theorem rangeLoop_executes (hbody : ClosesFrame body) (h : rangeLoop body p = .ok n p') :
    p.Executes body [] n p' := by
  obtain ⟨t, p₁, hadvance, r₁⟩ := bind_eq_ok.mp h
  obtain ⟨o, p₂, hname, r₂⟩ := bind_eq_ok.mp r₁
  obtain ⟨range, p₃, hrange, r₃⟩ := bind_eq_ok.mp r₂
  obtain ⟨type, p₄, hlift, r₄⟩ := bind_eq_ok.mp r₃
  obtain ⟨_, p₅, hend, r₅⟩ := bind_eq_ok.mp r₄
  obtain ⟨h₅, hbeyond⟩ := rangeLine_adds hadvance hname hrange hlift hend
  obtain ⟨_, p₆, hopen, r₆⟩ := bind_eq_ok.mp r₅
  obtain ⟨_, p₇, hdeclare, r₇⟩ := bind_eq_ok.mp r₆
  obtain ⟨s, p₈, hs, r₈⟩ := bind_eq_ok.mp r₇
  cases r₈
  obtain ⟨h₈, hopens⟩ := rangeBody_opens hbody hopen hdeclare hs range _
  refine ⟨h₅.then h₈, hbeyond.onward h₈.stream, List.forall_mem_singleton.mpr ?_⟩
  exact hopens.of_adds h₅ h₈ (.refl p')

/-! ## Declarations -/

theorem signature_adds {p₃ : Parser} {ns : List Node} {declared returns : DataType}
    (hns : parameters p = .ok ns p₁) (hreturns : resultType declared p₁ = .ok returns p₂)
    (hend : endHeader p₂ = .ok () p₃) : p.Adds (entries ns) p₃ :=
  ((parameters_adds hns).then (quiet_resultType _ hreturns)).then (quiet_endHeader hend)

/-- A function is declared below the frame of its parameters, which is closed and opened again. -/
theorem declareFunction_adds (hbody : ClosesFrame body) {head : DeclarationHead}
    (h : declareFunction body head p = .ok n p') :
    ∃ i, n.declared? = some i ∧ i.name = head.name.text ∧ p.Adds [i] p' ∧
      ∀ block ∈ n.blocks, p.Opens body block.1 block.2 p' := by
  obtain ⟨_, p₁, hopen, r₁⟩ := bind_eq_ok.mp h
  obtain ⟨ns, p₂, hns, r₂⟩ := bind_eq_ok.mp r₁
  obtain ⟨returns, p₃, hreturns, r₃⟩ := bind_eq_ok.mp r₂
  obtain ⟨_, p₄, hend, r₄⟩ := bind_eq_ok.mp r₃
  have henters := openFrame_enters hopen (signature_adds hns hreturns hend)
  obtain ⟨frame, p₅, hclose, r₅⟩ := bind_eq_ok.mp r₄
  obtain ⟨rfl, h₅⟩ := closeFrame_adds henters hclose
  obtain ⟨id, p₆, hfresh, r₆⟩ := bind_eq_ok.mp r₅
  have h₆ : p₅.Adds [] p₆ := by
    cases hfresh
    exact Parser.adds_of_frames (.refl _) rfl rfl
  obtain ⟨_, p₇, hdeclare, r₇⟩ := bind_eq_ok.mp r₆
  have h₇ := (h₅.then h₆).trans (declare_adds hdeclare)
  obtain ⟨_, p₈, hreopen, r₈⟩ := bind_eq_ok.mp r₇
  obtain ⟨s, p₉, hs, r₉⟩ := bind_eq_ok.mp r₈
  obtain ⟨h₉, hopens⟩ := body_opens hbody (reopenFrame_enters hreopen henters.nodup) hs
  obtain ⟨_, p₁₀, hdefine, r₁₀⟩ := bind_eq_ok.mp r₉
  have h₁₀ : p₉.Adds [] p₁₀ := by
    cases hdefine
    exact Parser.adds_of_frames (.refl _) rfl rfl
  cases r₁₀
  refine ⟨_, rfl, rfl, (h₇.then h₉).then h₁₀, List.forall_mem_singleton.mpr ?_⟩
  exact hopens.of_adds h₇ h₉ h₁₀

theorem declaration_executes (hbody : ClosesFrame body) (h : declaration body p = .ok n p') :
    ∃ i, n.declared? = some i ∧ i.name = p.stream.current.text ∧ p.Executes body [i] n p' := by
  obtain ⟨head, p₁, hhead, r₁⟩ := bind_eq_ok.mp h
  obtain ⟨h₁, hbeyond, hname⟩ := declarationHead_adds hhead
  rw [← hname]
  obtain ⟨b, p₂, hb, r₂⟩ := bind_eq_ok.mp r₁
  have h₂ := quiet_acceptDelimiter _ hb
  have hvalue : ∀ {i}, p₂.Adds [i] p' → n.blocks = [] → p.Executes body [i] n p' := by
    intro i h₃ hblocks
    have h₄ := h₂.trans h₃
    exact (h₁.trans h₄).executes (hbeyond.onward h₄.stream) hblocks
  cases b with
  | false =>
    obtain ⟨i, hn, hi, hblocks, h₃⟩ := declareVariable_adds r₂
    exact ⟨i, hn, hi, hvalue h₃ hblocks⟩
  | true =>
    simp only [if_true] at r₂
    rw [get_bind] at r₂
    split at r₂
    · obtain ⟨i, hn, hi, h₃, hblocks⟩ := declareFunction_adds hbody r₂
      refine ⟨i, hn, hi, (h₁.then h₂).trans h₃, hbeyond.onward (h₂.trans h₃).stream, ?_⟩
      exact fun block hmem => (hblocks block hmem).of_adds (h₁.then h₂) h₃ (.refl p')
    · obtain ⟨i, hn, hi, hblocks, h₃⟩ := declareValue_adds r₂
      exact ⟨i, hn, hi, hvalue h₃ hblocks⟩

theorem declarationStatement_executes (hbody : ClosesFrame body)
    (h : declarationStatement body p = .ok n p') :
    ∃ i, n.declared? = some i ∧ i.name = p.stream.current.text ∧ p.Executes body [i] n p' := by
  obtain ⟨m, p₁, hm, r₁⟩ := bind_eq_ok.mp h
  obtain ⟨i, hn, hi, h₁⟩ := declaration_executes hbody hm
  cases hf : isFunction m with
  | true =>
    simp only [hf] at r₁
    cases r₁
    exact ⟨i, hn, hi, h₁⟩
  | false =>
    simp only [hf] at r₁
    obtain ⟨_, p₂, hend, r₂⟩ := bind_eq_ok.mp r₁
    cases r₂
    exact ⟨i, hn, hi, h₁.then (quiet_expectEndOfStatement hend)⟩

theorem loopInit_adds (hbody : ClosesFrame body) {t : Token} {o : Option Node}
    (h : loopInit body t p = .ok o p') : p.Adds (entries o.toList) p' := by
  unfold loopInit at h
  rw [get_bind] at h
  split at h
  · obtain ⟨n, p₁, hn, r₁⟩ := bind_eq_ok.mp h
    obtain ⟨i, hi, -, h₁⟩ := declaration_executes hbody hn
    split at r₁
    · cases r₁
      have hentries : entries (some n).toList = [i] := entries_cons hi []
      rw [hentries]
      exact h₁.adds
    · cases r₁
  · split at h
    · cases h
      exact .refl p
    · cases h

theorem loopLine_adds (hbody : ClosesFrame body) {p₃ p₄ p₅ : Parser} {t : Token}
    {init test increment : Option Node} (hinit : loopInit body t p = .ok init p₁)
    (hcomma : expectDelimiter "," p₁ = .ok () p₂) (htest : loopCondition t p₂ = .ok test p₃)
    (hcomma' : expectDelimiter "," p₃ = .ok () p₄) (hincrement : loopIncrement p₄ = .ok increment p₅)
    (hend : endHeader p₅ = .ok () p') :
    p.Adds (entries init.toList) p' ∧ p.stream.Beyond p'.stream := by
  have h₂ := (loopInit_adds hbody hinit).then (quiet_expectDelimiter _ hcomma)
  have h₄ := (h₂.then (quiet_loopCondition _ htest)).then (quiet_expectDelimiter _ hcomma')
  exact header_adds (h₄.then (quiet_loopIncrement hincrement)) hend

theorem threePartLoop_executes (hbody : ClosesFrame body) (h : threePartLoop body p = .ok n p') :
    p.Executes body [] n p' := by
  obtain ⟨t, p₁, hadvance, r₁⟩ := bind_eq_ok.mp h
  have h₁ := quiet_advance hadvance
  obtain ⟨_, p₂, hopen, r₂⟩ := bind_eq_ok.mp r₁
  obtain ⟨init, p₃, hinit, r₃⟩ := bind_eq_ok.mp r₂
  obtain ⟨_, p₄, hcomma, r₄⟩ := bind_eq_ok.mp r₃
  obtain ⟨test, p₅, htest, r₅⟩ := bind_eq_ok.mp r₄
  obtain ⟨_, p₆, hcomma', r₆⟩ := bind_eq_ok.mp r₅
  obtain ⟨increment, p₇, hincrement, r₇⟩ := bind_eq_ok.mp r₆
  obtain ⟨_, p₈, hend, r₈⟩ := bind_eq_ok.mp r₇
  obtain ⟨s, p₉, hs, r₉⟩ := bind_eq_ok.mp r₈
  cases r₉
  obtain ⟨h₈, hbeyond⟩ := loopLine_adds hbody hinit hcomma htest hcomma' hincrement hend
  obtain ⟨h₉, hopens⟩ := body_opens hbody (openFrame_enters hopen h₈) hs
  refine ⟨h₁.then h₉, ?_, List.forall_mem_singleton.mpr ?_⟩
  · have hopened := h₁.stream.trans (openFrame_enters hopen (.refl p₂)).stream
    exact (hopened.beyond hbeyond).onward (hbody _ _ _ _ hs).stream
  · exact hopens.of_adds h₁ h₉ (.refl p')

/-! ## Any statement -/

theorem keywordStatement_executes (hbody : ClosesFrame body) {keyword : Keyword}
    (h : keywordStatement body keyword p = .ok n p') : p.Executes body [] n p' := by
  unfold keywordStatement at h
  rw [get_bind] at h
  split at h
  · cases h
  · cases keyword with
    | ifThen => exact branch_executes hbody h
    | orElse => cases h
    | whileLoop => exact whileLoop_executes hbody h
    | forLoop =>
      change forLoop body p = .ok n p' at h
      unfold forLoop at h
      rw [get_bind] at h
      split at h
      · exact threePartLoop_executes hbody h
      · exact rangeLoop_executes hbody h

theorem expressionStatement_executes (h : expressionStatement p = .ok n p') :
    p.Executes body [] n p' := by
  obtain ⟨m, p₁, hm, r₁⟩ := bind_eq_ok.mp h
  obtain ⟨type, p₂, hlift, r₂⟩ := bind_eq_ok.mp r₁
  obtain ⟨_, p₃, hend, r₃⟩ := bind_eq_ok.mp r₂
  cases r₃
  obtain ⟨h₁, hexpression⟩ := expression_adds hm
  have h₂ := h₁.then (quiet_liftExcept _ hlift)
  exact (h₂.then (quiet_expectEndOfStatement hend)).executes
    (h₂.stream.beyond (expectEndOfStatement_beyond hend)) hexpression.blocks_eq

/-- A statement adds its own declaration to the innermost frame, if it begins as one, and nothing else. -/
theorem statement_executes (hbody : ClosesFrame body) (h : statement body p = .ok n p') :
    (p.stream.startsDeclaration = true ∧
      ∃ i, n.declared? = some i ∧ i.name = p.stream.current.text ∧ p.Executes body [i] n p') ∨
    (p.stream.startsDeclaration = false ∧ p.Executes body [] n p') := by
  unfold statement at h
  rw [get_bind] at h
  cases hstart : p.stream.startsDeclaration with
  | true =>
    simp only [hstart, if_true] at h
    exact .inl ⟨rfl, declarationStatement_executes hbody h⟩
  | false =>
    simp only [hstart, Bool.false_eq_true, if_false] at h
    refine .inr ⟨rfl, ?_⟩
    cases hk : p.stream.current.keyword with
    | none =>
      simp only [hk] at h
      exact expressionStatement_executes h
    | some keyword =>
      simp only [hk] at h
      exact keywordStatement_executes hbody h

end Parse

end Offside
