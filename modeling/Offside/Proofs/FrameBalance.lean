import Offside.Proofs.BlockDepth

/-!
# The balance of the frames

A statement leaves the frames as it found them but for its own declaration, a block closes the frame that
it was given, and at the end of a program no frame is open. The frame of a block has what the header of
the block declares and what its own declarations declare.
-/

namespace Offside

set_option autoImplicit false

open Execution

namespace TokenStream

theorem exists_endOfFile_closed (tokens : List Token) :
    ∃ t ∈ closed tokens, t.kind = .endOfFile := by
  unfold closed
  split
  · exact ⟨_, List.mem_singleton_self _, rfl⟩
  · next t ht =>
    split
    · next hk => exact ⟨t, List.mem_of_getLast? ht, hk⟩
    · exact ⟨_, List.mem_append_right _ (List.mem_singleton_self _), rfl⟩

/-- The end of the file is ahead when a program begins. -/
theorem endsAhead_ofTokens (tokens : List Token) : (ofTokens tokens).EndsAhead := by
  obtain ⟨t, hmem, hk⟩ := exists_endOfFile_closed tokens
  unfold ofTokens
  cases hclosed : closed tokens with
  | nil =>
    rw [hclosed] at hmem
    cases hmem
  | cons first rest =>
    rw [hclosed] at hmem
    exact ⟨t, hmem, hk⟩

end TokenStream

namespace Parser

/--
The block `s` is read from `p` on, in the frame `first`: what it adds there is what the declarations among
its statements declare, one after the other, each under a name that was free. The end of the file is ahead
of every parser that reads a program: it is when the program begins, and no action passes it.
-/
def Fills (p : Parser) (level : Nat) (first : Frame) (s : Scope) : Prop :=
  ∃ new, s.frame = first ++ new ∧ first.Gains new ∧
    (p.stream.EndsAhead →
      ∃ q, { p with level }.Lists (Parse.statement Parse.body) Parse.block s.statements new q)

/-- The statement `n`, between two states of which the first has `frame` on top of `outer`. -/
structure StatementBalances (p : Parser) (n : Node) (p' : Parser) (frame : Frame)
    (outer : List Frame) : Prop where
  level_eq : p'.level = p.level
  declaration : p.stream.startsDeclaration = true →
    ∃ i, n.declared? = some i ∧ i.name = p.stream.current.text ∧ i.name ∉ frame.names ∧
      p'.symbols.frames = (frame ++ [i]) :: outer
  other : p.stream.startsDeclaration = false → p'.symbols.frames = frame :: outer
  blocks : ∀ header s, (header, s) ∈ n.blocks →
    ∃ q q', Parse.block (p.level + 1) q = .ok s q' ∧ p.stream.Onward q.stream ∧
      q.symbols.frames = entries header :: p'.symbols.frames ∧
      q.Fills (p.level + 1) (entries header) s ∧ s.frame.names.Nodup

/-- The block `s`, between two states of which the first has `frame` on top of `outer`. -/
structure BlockBalances (p : Parser) (level : Nat) (s : Scope) (p' : Parser) (frame : Frame)
    (outer : List Frame) : Prop where
  level_eq : p'.level = p.level
  frames : p'.symbols.frames = outer
  fills : p.Fills level frame s

theorem Fills.nodup {p : Parser} {level : Nat} {first : Frame} {s : Scope}
    (h : p.Fills level first s) (hn : first.names.Nodup) : s.frame.names.Nodup := by
  obtain ⟨new, hframe, hgains, -⟩ := h
  rw [hframe]
  exact hgains.nodup_append hn

end Parser

namespace Parse

variable {p p' : Parser} {s : Scope} {frame : Frame} {outer : List Frame}

theorem statement_body_declaresItself : DeclaresItself (statement body) :=
  statement_declaresItself closesFrame_body

theorem block_fills {level : Nat} (h : block level p = .ok s p')
    (hframes : p.symbols.frames = frame :: outer) : p.Fills level frame s := by
  have hdepth : ∃ depth, p.stream.tokens.length = depth + 1 := ⟨_, rfl⟩
  obtain ⟨depth, hdepth⟩ := hdepth
  -- Without an end of the file ahead only the bound on the depth says what the block has read.
  have hbound := h
  rw [block_apply, hdepth, blockUpTo_succ] at hbound
  have hblock := closesBlock_blockUpTo depth
  obtain ⟨-, new, -, -, hnew⟩ :=
    blockWith_closes (statement_declaresItself (closesFrame_bodyOf hblock)) hblock hbound
  obtain ⟨hframe, hgains⟩ := hnew hframes
  refine ⟨new, hframe, hgains, fun hp => ?_⟩
  rw [block_eq_blockWith hp] at h
  obtain ⟨-, new', q, hlists, hnew'⟩ :=
    blockWith_closes statement_body_declaresItself closesBlock_block h
  obtain ⟨hframe', -⟩ := hnew' hframes
  obtain rfl : new' = new := List.append_cancel_left (hframe'.symm.trans hframe)
  exact ⟨q, hlists⟩

theorem block_balances {level : Nat} (h : block level p = .ok s p')
    (hframes : p.symbols.frames = frame :: outer) : p.BlockBalances level s p' frame outer := by
  have hcloses := closesBlock_block _ _ _ _ h
  exact ⟨hcloses.level, hcloses.frames hframes, block_fills h hframes⟩

/-- The block of a construct is read by `block`, one level deeper. -/
theorem body_eq_ok {construct : String} (h : body construct p = .ok s p') :
    block (p.level + 1) p = .ok s p' := by
  unfold body bodyOf at h
  rw [get_bind] at h
  split at h
  · cases h
  · exact h

theorem statement_balances {n : Node} (h : statement body p = .ok n p')
    (hframes : p.symbols.frames = frame :: outer) : p.StatementBalances n p' frame outer := by
  have hblocks : ∀ {new}, p.Executes body new n p' → ∀ header s, (header, s) ∈ n.blocks →
      ∃ q q', block (p.level + 1) q = .ok s q' ∧ p.stream.Onward q.stream ∧
        q.symbols.frames = entries header :: p'.symbols.frames ∧
        q.Fills (p.level + 1) (entries header) s ∧ s.frame.names.Nodup := by
    intro new hexecutes header s hmem
    obtain ⟨construct, q, q', hq, hstream, hlevel, hopens⟩ := hexecutes.blocks _ hmem
    obtain ⟨hframes', hn⟩ := hopens hframes
    have hblock := body_eq_ok hq
    rw [hlevel] at hblock
    have hfills := block_fills hblock hframes'
    exact ⟨q, q', hblock, hstream, hframes', hfills, hfills.nodup hn⟩
  rcases statement_executes closesFrame_body h with
    ⟨hstart, i, hn, hname, hexecutes⟩ | ⟨hstart, hexecutes⟩
  · obtain ⟨hp', hgains⟩ := hexecutes.adds.frames hframes
    refine ⟨hexecutes.adds.level, fun _ => ⟨i, hn, hname, ?_, hp'⟩, ?_, hblocks hexecutes⟩
    · exact List.disjoint_singleton.mp hgains.disjoint
    · intro hother
      rw [hstart] at hother
      cases hother
  · obtain ⟨hp', -⟩ := hexecutes.adds.frames hframes
    rw [List.append_nil] at hp'
    refine ⟨hexecutes.adds.level, ?_, fun _ => hp', hblocks hexecutes⟩
    intro hdeclaration
    rw [hstart] at hdeclaration
    cases hdeclaration

end Parse

/--
A statement changes the innermost frame by its own declaration only, a block closes the innermost frame
and returns it with what its declarations have added, and a program leaves no frame open.
-/
theorem frames_balance :
    (∀ p n p' frame outer, Parse.statement Parse.body p = .ok n p' →
      p.symbols.frames = frame :: outer → p.StatementBalances n p' frame outer) ∧
    (∀ p level s p' frame outer, Parse.block level p = .ok s p' →
      p.symbols.frames = frame :: outer → p.BlockBalances level s p' frame outer) ∧
    ∀ tokens s, parse tokens = .ok s →
      ∃ p', Parse.block 0 (.atStart tokens) = .ok s p' ∧ p'.symbols.depth = 0 ∧
        s.frame.names.Nodup ∧ ∃ q, (Parser.atStart tokens).Lists (Parse.statement Parse.body)
          Parse.block s.statements s.frame q := by
  refine ⟨fun _ _ _ _ _ h hframes => Parse.statement_balances h hframes,
    fun _ _ _ _ _ _ h hframes => Parse.block_balances h hframes, ?_⟩
  intro tokens s h
  obtain ⟨p', hblock⟩ := parse_eq_ok h
  have hframes : (Parser.atStart tokens).symbols.frames = [[]] := rfl
  obtain ⟨-, hp', hfills⟩ := Parse.block_balances hblock hframes
  have hnodup := hfills.nodup List.nodup_nil
  obtain ⟨new, hframe, -, hlists⟩ := hfills
  rw [List.nil_append] at hframe
  obtain ⟨q, hq⟩ := hlists (TokenStream.endsAhead_ofTokens tokens)
  refine ⟨p', hblock, ?_, hnodup, q, ?_⟩
  · rw [SymbolTable.depth, hp']
    rfl
  · rw [hframe]
    exact hq

/-- A function with a parameter and a declaration inside of it, and a declaration behind it. -/
theorem frames_balance_function :
    ∃ ts n p' s q,
      tokenize "f: int : (a: int)\n    b: int = a\nc: int\n" "" = .ok ts ∧
      Parse.statement Parse.body (.atStart ts) = .ok n p' ∧
      p'.symbols.frames.map Frame.names = [["f"]] ∧
      n.blocks.map (fun block => ((entries block.1).names, block.2.frame.names)) =
        [(["a"], ["a", "b"])] ∧
      (Parser.atStart ts).StatementBalances n p' [] [] ∧
      parse ts = .ok s ∧ s.frame.names = ["f", "c"] ∧ s.frame.names.Nodup ∧
      Parse.block 0 (.atStart ts) = .ok s q ∧ q.symbols.depth = 0 ∧
      (Parser.atStart ts).BlockBalances 0 s q [] [] := by
  have hstatement : ((tokenize
      "f: int : (a: int)\n    b: int = a\nc: int\n" "").map fun ts =>
      match Parse.statement Parse.body (.atStart ts) with
      | .ok n p' => (p'.symbols.frames.map Frame.names,
          n.blocks.map fun block => ((entries block.1).names, block.2.frame.names))
      | .error _ _ => ([], [])).toOption = some ([["f"]], [(["a"], ["a", "b"])]) := by
    decide +kernel
  have hparse : ((tokenize
      "f: int : (a: int)\n    b: int = a\nc: int\n" "").bind fun ts =>
      (parse ts).map (·.frame.names)).toOption = some ["f", "c"] := by
    decide +kernel
  cases ht : tokenize
      "f: int : (a: int)\n    b: int = a\nc: int\n" "" with
  | error d => simp [ht, Except.map, Except.toOption] at hstatement
  | ok ts =>
    simp only [ht, Except.map, Except.bind, Except.toOption] at hstatement hparse
    cases hn : Parse.statement Parse.body (.atStart ts) with
    | error d p' => simp [hn] at hstatement
    | ok n p' =>
      cases hs : parse ts with
      | error d => simp [hs] at hparse
      | ok s =>
        simp only [hn, hs, Option.some.injEq, Prod.mk.injEq] at hstatement hparse
        obtain ⟨hstatements, hblocks, hprograms⟩ := frames_balance
        obtain ⟨q, hq, hdepth, hnodup, -⟩ := hprograms ts s hs
        exact ⟨ts, n, p', s, q, rfl, hn, hstatement.1, hstatement.2, hstatements _ _ _ _ _ hn rfl,
          hs, hparse, hnodup, hq, hdepth, hblocks _ _ _ _ _ _ hq rfl⟩

end Offside
