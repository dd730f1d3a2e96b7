import Offside.Proofs.LineLevels
import Offside.Proofs.StateMachine

/-!
# Steps of the machine

What the machine does between two pieces, told by what the scanner does with the piece: the same tokens, the same
scanner behind it, or the same fault. This is about blanks, line ends and comments.
-/

namespace Offside

set_option autoImplicit false

open Source (Cursor isIndent)
namespace Scanner

/-! ## Comments of a scanner -/

theorem pass_pass (m n : Nat) (s : Scanner) : (s.pass m).pass n = s.pass (m + n) := by
  simp only [pass, Cursor.drop_advanceN_drop, Cursor.advanceN_advanceN]

theorem passText_eq_pass {text : List Char} (h : '\n' ∉ text) {s : Scanner} (hs : s.cursor.taken = []) :
    s.passText text = ([], s.pass text.length) := by
  induction text generalizing s with
  | nil =>
    have hpass : s.pass 0 = s := by
      unfold pass Cursor.advanceN
      rw [Cursor.drop_eq_self hs]
    rw [List.length_nil, hpass]
    rfl
  | cons x text ih =>
    rw [List.mem_cons, not_or] at h
    simp only [passText, if_neg (Ne.symm h.1), List.nil_append]
    rw [ih h.2 rfl, pass_pass, List.length_cons, Nat.add_comm]

theorem comment?_append {text : List Char} (h : ∀ x ∈ text, Machine.isCommentText x) (depth : Nat)
    (rest : List Char) :
    Lexeme.comment? depth (text ++ rest) = (Lexeme.comment? depth rest).map (text ++ ·) := by
  induction text with
  | nil => simp
  | cons x text ih =>
    obtain ⟨hx, htext⟩ := List.forall_mem_cons.mp h
    have hx : x ≠ '/' ∧ x ≠ '*' ∧ x ≠ '\n' := by simpa [Machine.isCommentText] using hx
    rw [List.cons_append, Lexeme.comment?, ih htext]
    · cases Lexeme.comment? depth rest <;> simp
    all_goals simp_all

theorem comment?_close (depth : Nat) (cs : List Char) :
    Lexeme.comment? (depth + 2) ('*' :: '/' :: cs) = (Lexeme.comment? (depth + 1) cs).map (['*', '/'] ++ ·) := by
  simp [Lexeme.comment?]

theorem comment?_open (depth : Nat) (cs : List Char) :
    Lexeme.comment? depth ('/' :: '*' :: cs) = (Lexeme.comment? (depth + 1) cs).map (['/', '*'] ++ ·) := by
  simp [Lexeme.comment?]

theorem comment?_other {x : Char} {cs : List Char} (hclose : ¬ ['*', '/'] <+: x :: cs)
    (hopen : ¬ ['/', '*'] <+: x :: cs) (depth : Nat) :
    Lexeme.comment? depth (x :: cs) = (Lexeme.comment? depth cs).map ([x] ++ ·) := by
  rw [Lexeme.comment?]
  · rfl
  · rintro more rfl rfl
    exact hclose ⟨more, rfl⟩
  · rintro more rfl rfl
    exact hopen ⟨more, rfl⟩

/-! ## Empty lines -/

theorem emptyFrom_eq (c : Cursor) :
    emptyFrom c.rest = (c.check '\n' || c.startsWith ['\r', '\n'] || c.atEnd || c.startsWith ['/', '/']) := by
  rw [Cursor.startsWith_eq (by decide), Cursor.startsWith_eq (by decide)]
  unfold Cursor.check Cursor.holds Cursor.atEnd emptyFrom
  split
  · next hrest => simp [hrest]
  · next hrest => simp [hrest]
  · next hrest => simp [hrest]
  · next hrest => simp [hrest]
  · next hnil hfeed hreturn hcomment =>
    rcases hrest : c.rest with _ | ⟨x, rest⟩
    · exact absurd hrest hnil
    · have hx : x ≠ '\n' := fun h => hfeed rest (by rw [hrest, h])
      have hreturn : ¬ ['\r', '\n'] <+: x :: rest := fun ⟨more, h⟩ => hreturn more (by rw [hrest, ← h]; rfl)
      have hcomment : ¬ ['/', '/'] <+: x :: rest := fun ⟨more, h⟩ => hcomment more (by rw [hrest, ← h]; rfl)
      rw [← List.isPrefixOf_iff_prefix, Bool.not_eq_true] at hreturn hcomment
      simp [hx, hreturn, hcomment]

end Scanner

namespace Machine

open Scanner

/-- The machine stands in front of a piece. -/
structure InFront (m : Machine) : Prop where
  taken : m.cursor.taken = []
  origin : m.origin = m.place

/-- What a step does that takes a piece, told by what the scanner does with the piece. -/
def Follows (m : Machine) : Except Fault (List Token × Scanner) → Outcome → Prop
  | .error fault, o => o = .error ⟨fault, m.origin⟩
  | .ok (read, s), o => ∃ origin, o = .ok (some .start, ⟨s, origin, m.read ++ read⟩)

variable {m : Machine}

theorem lexeme_advanceN (hm : m.InFront) {text rest : List Char} (hrest : m.cursor.rest = text ++ rest) :
    (m.cursor.advanceN text.length).lexeme = text := by
  rw [Cursor.lexeme_advanceN, Cursor.lexeme, hm.taken, hrest, List.take_left]
  rfl

/-! ## Line ends and comments -/

theorem feedLine_eq {rest : List Char} (htaken : m.cursor.taken = []) (hrest : m.cursor.rest = '\n' :: rest) :
    m.feedLine = ⟨m.toScanner.endLine.2, m.place, m.read ++ m.toScanner.endLine.1⟩ := by
  have haccept : m.mark.cursor.accept '\n' = (true, m.cursor.advance) :=
    if_pos (by simp [Cursor.holds, mark, hrest])
  have hlexeme : m.cursor.advance.lexeme = ['\n'] := by simp [Cursor.advance, hrest, Cursor.lexeme, htaken]
  unfold feedLine
  dsimp only
  rw [haccept]
  obtain ⟨⟨file, cursor, level, written⟩, origin, read⟩ := m
  cases written
  · simp [Scanner.endLine, mark, Cursor.skip]
  · simp [Scanner.endLine, mark, Cursor.skip, addPlain, add, hlexeme]

theorem follows_lineFeed {rest : List Char} (hm : m.InFront) (hrest : m.cursor.rest = '\n' :: rest) :
    m.Follows (m.toScanner.piece '\n' rest) m.onLineFeed := by
  rw [Scanner.piece_newline]
  refine ⟨m.place, ?_⟩
  rw [onLineFeed, feedLine_eq hm.taken hrest]
  rfl

theorem follows_lineComment {rest : List Char} (hrest : m.cursor.rest = '/' :: '/' :: rest) :
    m.Follows (m.toScanner.piece '/' ('/' :: rest)) m.onLineComment := by
  rw [Scanner.piece_lineComment]
  refine ⟨m.origin, ?_⟩
  rw [onLineComment, Cursor.acceptWhile_eq, hrest, List.append_nil]
  rfl

/-- The scanner in the place of the machine, with the lexeme forgotten. -/
def dropped (m : Machine) : Scanner := { m.toScanner with cursor := m.cursor.drop }

theorem dropped_advanceN (m : Machine) (n : Nat) :
    dropped { m with cursor := m.cursor.advanceN n } = m.dropped.pass n := by
  simp only [dropped, Scanner.pass, Cursor.drop_advanceN_drop]

/-- What the machine does in a comment, told by what the scanner does with the rest of the comment. -/
def FollowsComment (origin : Location) (depth : Nat) (m : Machine) (o : Outcome) : Prop :=
  match Lexeme.comment? depth m.cursor.rest with
  | some text => ∃ origin', o =
      .ok (some .start, ⟨(m.dropped.passText text).2, origin', m.read ++ (m.dropped.passText text).1⟩)
  | none => o = .error ⟨.unclosedComment, origin⟩

theorem FollowsComment.append {origin : Location} {depth depth' : Nat} {text rest : List Char} {o : Outcome}
    (hrest : m.cursor.rest = text ++ rest) (hfeed : '\n' ∉ text)
    (hcomment : Lexeme.comment? depth (text ++ rest) = (Lexeme.comment? depth' rest).map (text ++ ·))
    (h : FollowsComment origin depth' { m with cursor := m.cursor.advanceN text.length } o) :
    m.FollowsComment origin depth o := by
  have hbehind := Cursor.rest_behind hrest
  unfold FollowsComment at h ⊢
  rw [hrest, hcomment]
  simp only [hbehind] at h
  cases hmore : Lexeme.comment? depth' rest with
  | none =>
    simp only [hmore, Option.map_none] at h ⊢
    exact h
  | some more =>
    simp only [hmore, dropped_advanceN, Option.map_some] at h ⊢
    rwa [Scanner.passText_append, passText_eq_pass hfeed rfl, List.nil_append]

theorem closeComment_follows (origin : Location) (depth : Nat) (m : Machine) :
    m.FollowsComment origin (depth + 1) (closeComment origin (depth + 1 : Nat) m) := by
  generalize hd : ((depth + 1 : Nat) : Int) = d
  have hrun (m : Machine) (depth : Nat) (o : Outcome)
      (h : FollowsComment origin depth { m with cursor := m.cursor.acceptWhile isCommentText } o) :
      m.FollowsComment origin depth o := by
    rw [Cursor.acceptWhile_eq] at h
    have hall : ∀ x ∈ m.cursor.rest.takeWhile isCommentText, isCommentText x := fun x hx => mem_takeWhile hx
    exact h.append List.takeWhile_append_dropWhile.symm (not_mem_of_forall (by decide) hall)
      (comment?_append hall depth _)
  fun_induction closeComment origin d m generalizing depth with
  | case1 d m c hend =>
    apply hrun
    have hrest : c.rest = [] := List.isEmpty_iff.mp hend
    change FollowsComment origin (depth + 1) { m with cursor := c } _
    simp only [FollowsComment, hrest, Lexeme.comment?]
  | case2 d m c hend hline ih =>
    apply hrun
    obtain ⟨x, rest, hrest, hx⟩ := Cursor.holds_true hline
    obtain rfl : x = '\n' := by simpa using hx
    have hfeed := feedLine_eq (m := { m with cursor := c.drop }) rfl hrest
    have hmore := ih depth hd
    rw [hfeed] at hmore ⊢
    have hcomment : Lexeme.comment? (depth + 1) ('\n' :: rest) =
        (Lexeme.comment? (depth + 1) rest).map (['\n'] ++ ·) :=
      comment?_other (by simp) (by simp) _
    change FollowsComment origin (depth + 1) { m with cursor := c } _
    unfold FollowsComment at hmore ⊢
    simp only [Scanner.rest_endLine, Cursor.rest_drop, hrest, List.tail_cons] at hmore
    simp only [hrest, hcomment]
    cases htext : Lexeme.comment? (depth + 1) rest with
    | none =>
      simp only [htext, Option.map_none] at hmore ⊢
      exact hmore
    | some text =>
      simp only [htext, Option.map_some] at hmore ⊢
      obtain ⟨origin', hmore⟩ := hmore
      refine ⟨origin', ?_⟩
      rw [hmore, List.singleton_append, Scanner.passText, if_pos rfl, List.append_assoc]
      rfl
  | case3 d m c hend hline hclose hlast =>
    apply hrun
    rw [Cursor.startsWith_eq (by decide), List.isPrefixOf_iff_prefix] at hclose
    obtain ⟨rest, hrest⟩ := hclose
    obtain rfl : depth = 0 := by omega
    have hcomment : Lexeme.comment? 1 c.rest = some ['*', '/'] := by
      rw [← hrest]
      simp [Lexeme.comment?]
    change FollowsComment origin 1 { m with cursor := c } _
    have hpass : (dropped { m with cursor := c }).passText ['*', '/'] = ([], (dropped { m with cursor := c }).pass 2) :=
      passText_eq_pass (by decide) rfl
    simp only [FollowsComment, hcomment, hpass]
    refine ⟨m.origin, ?_⟩
    rw [List.append_nil, ← dropped_advanceN]
    rfl
  | case4 d m c hend hline hclose hlast ih =>
    apply hrun
    rw [Cursor.startsWith_eq (by decide), List.isPrefixOf_iff_prefix] at hclose
    obtain ⟨rest, hrest⟩ := hclose
    obtain ⟨depth, rfl⟩ : ∃ d, depth = d + 1 := ⟨depth - 1, by omega⟩
    exact FollowsComment.append (m := { m with cursor := c }) hrest.symm (by decide) (comment?_close depth rest)
      (ih depth (by omega))
  | case5 d m c hend hline hclose hopen ih =>
    apply hrun
    rw [Cursor.startsWith_eq (by decide), List.isPrefixOf_iff_prefix] at hopen
    obtain ⟨rest, hrest⟩ := hopen
    exact FollowsComment.append (m := { m with cursor := c }) hrest.symm (by decide) (comment?_open (depth + 1) rest)
      (ih (depth + 1) (by omega))
  | case6 d m c hend hline hclose hopen ih =>
    apply hrun
    rw [Cursor.startsWith_eq (by decide), List.isPrefixOf_iff_prefix] at hclose hopen
    obtain ⟨x, rest, hrest, hx⟩ := Cursor.not_atLineEnd (c := c) (by simp [hend, hline])
    rw [hrest] at hclose hopen
    have hfeed : '\n' ∉ [x] := by simpa using Ne.symm hx
    exact FollowsComment.append (m := { m with cursor := c }) hrest hfeed (comment?_other hclose hopen (depth + 1))
      (ih depth hd)

theorem onBlockComment_eq {rest : List Char} (hrest : m.cursor.rest = '/' :: '*' :: rest) :
    m.onBlockComment = closeComment m.origin 1 { m with cursor := m.cursor.advanceN 2 } := by
  have hfirst : m.cursor.acceptWhile isCommentText = m.cursor := by
    rw [Cursor.acceptWhile_eq, hrest]
    rfl
  have hend : ¬ m.cursor.atEnd := by simp [Cursor.atEnd, hrest]
  have hline : ¬ m.cursor.check '\n' := by simp [Cursor.check, Cursor.holds, hrest]
  have hclose : ¬ m.cursor.startsWith ['*', '/'] := by
    rw [Cursor.startsWith_eq (by decide), hrest]
    simp
  have hopen : m.cursor.startsWith ['/', '*'] := by
    rw [Cursor.startsWith_eq (by decide), hrest]
    rfl
  rw [onBlockComment, closeComment]
  simp only [hfirst]
  rw [dif_neg hend, dif_neg hline, if_neg hclose, if_pos hopen]
  rfl

theorem follows_blockComment {rest : List Char} (hm : m.InFront) (hrest : m.cursor.rest = '/' :: '*' :: rest) :
    m.Follows (m.toScanner.piece '/' ('*' :: rest)) m.onBlockComment := by
  have hdropped : m.dropped = m.toScanner := by rw [dropped, Cursor.drop_eq_self hm.taken]
  have hcloses : m.FollowsComment m.origin 0 m.onBlockComment := by
    rw [onBlockComment_eq hrest]
    have hfeed : '\n' ∉ ['/', '*'] := by decide
    exact FollowsComment.append hrest hfeed (comment?_open 0 rest) (closeComment_follows m.origin 0 _)
  unfold FollowsComment at hcloses
  rw [hrest, comment?_open, hdropped] at hcloses
  rw [Scanner.piece_blockComment]
  cases hcomment : Lexeme.comment? 1 rest with
  | none =>
    simp only [hcomment, Option.map_none] at hcloses
    exact hcloses
  | some text =>
    simp only [hcomment, Option.map_some] at hcloses
    exact hcloses

/-! ## Blanks -/

theorem count_isIndent {cs : List Char} (h : ∀ c ∈ cs, isIndent c) : cs.count ' ' + cs.count '\t' = cs.length := by
  induction cs with
  | nil => rfl
  | cons c cs ih =>
    obtain ⟨hc, hcs⟩ := List.forall_mem_cons.mp h
    have hc : c = ' ' ∨ c = '\t' := by simpa [isIndent] using hc
    have hmore := ih hcs
    rcases hc with rfl | rfl
    · simp only [List.count_cons_self, List.length_cons, List.count_cons_of_ne (by decide : ' ' ≠ '\t')]
      omega
    · simp only [List.count_cons_self, List.length_cons, List.count_cons_of_ne (by decide : '\t' ≠ ' ')]
      omega

theorem indent_eq (m : Machine) :
    m.indent = match levelBehind 1 m.level m.cursor.rest with
      | .error fault => .error ⟨fault, m.origin⟩
      | .ok level => .ok { m with cursor := m.cursor.acceptWhile isIndent, level } := by
  have hempty := emptyFrom_eq (m.cursor.acceptWhile isIndent)
  have hcount := count_isIndent fun x (hx : x ∈ m.cursor.rest.takeWhile isIndent) => mem_takeWhile hx
  rw [Cursor.rest_acceptWhile] at hempty
  unfold indent levelBehind
  simp only [Cursor.acceptIndent_eq, Nat.zero_add, ← hempty]
  generalize m.cursor.rest.takeWhile isIndent = blanks at hcount ⊢
  cases emptyFrom (m.cursor.rest.dropWhile isIndent) with
  | true => simp
  | false =>
    rcases blanks with _ | ⟨x, blanks⟩
    · simp
    · have hlength : 0 < (x :: blanks).length := Nat.succ_pos _
      unfold levelOf
      generalize (x :: blanks).count ' ' = spaces at hcount ⊢
      generalize (x :: blanks).count '\t' = tabs at hcount ⊢
      have hsome : ¬ (spaces = 0 ∧ tabs = 0) := by omega
      simp only [Bool.false_eq_true, if_false, ne_eq, reduceCtorEq, not_false_eq_true, Bool.not_false, and_self,
        if_true]
      by_cases hmixed : spaces > 0 ∧ tabs > 0
      · rw [if_pos hmixed, if_pos hmixed]
        rfl
      rw [if_neg hmixed, if_neg hmixed]
      rcases Nat.eq_zero_or_pos spaces with rfl | hspaces
      · rw [if_neg (Nat.lt_irrefl 0), if_pos (by omega), if_neg (by decide), if_neg (Nat.lt_irrefl 0)]
      · rw [if_pos hspaces, if_pos hspaces]
        split <;> rfl

theorem acceptWhile_isIndent (c : Cursor) : (c.acceptWhile isIndent).acceptWhile isBlank = c.acceptWhile isBlank := by
  have himp : ∀ x, isIndent x → isBlank x := by
    intro x hx
    have hx : x = ' ' ∨ x = '\t' := by simpa [isIndent] using hx
    rcases hx with rfl | rfl <;> decide
  have htake : c.rest.takeWhile isBlank =
      c.rest.takeWhile isIndent ++ (c.rest.dropWhile isIndent).takeWhile isBlank := by
    rw [← List.takeWhile_append_of_pos fun x hx => himp x (mem_takeWhile hx), List.takeWhile_append_dropWhile]
  rw [Cursor.acceptWhile_eq isBlank, Cursor.rest_acceptWhile, Cursor.acceptWhile_eq, Cursor.advanceN_advanceN,
    Cursor.acceptWhile_eq, htake, List.length_append]

theorem follows_blanks {c : Char} (cs : List Char) (hc : isBlank c) :
    m.Follows (m.toScanner.piece c cs) m.onBlanks := by
  rw [Scanner.piece_blank hc, Scanner.blanks_eq]
  unfold onBlanks
  by_cases hcolumn : m.cursor.column = 1
  · rw [if_pos hcolumn, indent_eq, hcolumn]
    cases levelBehind 1 m.level m.cursor.rest with
    | error fault => rfl
    | ok level =>
      refine ⟨m.origin, ?_⟩
      simp only [bind, Except.bind, List.append_nil]
      rw [acceptWhile_isIndent, Cursor.acceptWhile_eq]
      rfl
  · have hlevel : levelBehind m.cursor.column m.level m.cursor.rest = .ok m.level := by
      unfold levelBehind
      rw [if_neg fun h => hcolumn h.1]
    rw [if_neg hcolumn, hlevel]
    refine ⟨m.origin, ?_⟩
    simp only [bind, Except.bind, List.append_nil]
    rw [Cursor.acceptWhile_eq]
    rfl

end Machine

end Offside
