import Mathlib.Data.List.Chain
import Offside.Tree.Layout

/-!
# Texts in brackets and literals

A text is read as a row of pieces: literals between double or single quotes, in which a backslash takes the next
character along, and single characters. By the pieces it is known which brackets have a meaning, and what the layout
does to a text. The layout itself knows the double quotes only: it changes no text between single quotes in which no
bracket, comma or double quote stands.
-/

namespace Offside.Layout

set_option autoImplicit false

/-- A character that stands for itself, or a literal with its quotes. -/
inductive Piece where
  | plain (c : Char)
  | literal (text : List Char)
deriving DecidableEq, Repr

def Piece.text : Piece → List Char
  | plain c => [c]
  | literal text => text

def textOf (ps : List Piece) : List Char := ps.flatMap Piece.text

def isQuote (c : Char) : Bool := c = '"' || c = '\''

/-- Inside a literal, its quote and what has been read of it are known, last character first. -/
def piecesFrom : Option (Char × List Char) → List Char → List Piece
  | none, [] => []
  | some (_, taken), [] => [.literal taken.reverse]
  | none, c :: cs => if isQuote c then piecesFrom (some (c, [c])) cs else .plain c :: piecesFrom none cs
  | some (quote, taken), '\\' :: c :: cs => piecesFrom (some (quote, c :: '\\' :: taken)) cs
  | some (quote, taken), c :: cs =>
    if c = quote then .literal (c :: taken).reverse :: piecesFrom none cs
    else piecesFrom (some (quote, c :: taken)) cs

def pieces (text : String) : List Piece := piecesFrom none text.toList

@[simp] theorem textOf_nil : textOf [] = [] := rfl

@[simp] theorem textOf_cons (p : Piece) (ps : List Piece) : textOf (p :: ps) = p.text ++ textOf ps := rfl

theorem textOf_append (ps qs : List Piece) : textOf (ps ++ qs) = textOf ps ++ textOf qs := List.flatMap_append

theorem textOf_piecesFrom (state : Option (Char × List Char)) (cs : List Char) :
    textOf (piecesFrom state cs) = (state.elim [] fun inside => inside.2.reverse) ++ cs := by
  fun_induction piecesFrom state cs with
  | case1 => rfl
  | case2 quote taken => simp [Piece.text]
  | case3 c cs hc ih => simpa using ih
  | case4 c cs hc ih => simpa [Piece.text] using ih
  | case5 quote taken c cs ih => simpa using ih
  | case6 _ _ _ _ ih => simpa [Piece.text] using ih
  | case7 quote taken c cs hc hquote ih => simpa using ih

/-- Nothing of a text is lost in its pieces. -/
theorem textOf_pieces (text : String) : textOf (pieces text) = text.toList := by
  rw [pieces, textOf_piecesFrom]
  rfl

/-! ## Proper pieces -/

/-- What stands between the quotes of a literal. -/
inductive IsBody (quote : Char) : List Char → Prop where
  | nil : IsBody quote []
  | escape {c : Char} {cs : List Char} : IsBody quote cs → IsBody quote ('\\' :: c :: cs)
  | other {c : Char} {cs : List Char} : c ≠ '\\' → c ≠ quote → IsBody quote cs → IsBody quote (c :: cs)

/-- The pieces that a text is read as if they are put together. -/
inductive Piece.IsProper : Piece → Prop where
  | plain {c : Char} : isQuote c = false → IsProper (.plain c)
  | literal {quote : Char} {body : List Char} : isQuote quote → IsBody quote body →
      IsProper (.literal (quote :: body ++ [quote]))

variable {quote : Char} {body text : List Char} {ps qs : List Piece} {p : Piece}

theorem IsBody.append {more : List Char} (h : IsBody quote body) (hmore : IsBody quote more) :
    IsBody quote (body ++ more) := by
  induction h with
  | nil => exact hmore
  | escape _ ih => exact .escape ih
  | other hescape hquote _ ih => exact .other hescape hquote ih

theorem ne_backslash_of_isQuote (h : isQuote quote) : quote ≠ '\\' := by
  rintro rfl
  exact absurd h (by decide)

theorem piecesFrom_body (hquote : isQuote quote) (h : IsBody quote body) (taken rest : List Char) :
    piecesFrom (some (quote, taken)) (body ++ quote :: rest) =
      .literal (taken.reverse ++ body ++ [quote]) :: piecesFrom none rest := by
  induction h generalizing taken with
  | nil =>
    have hescape := ne_backslash_of_isQuote hquote
    rw [List.nil_append, piecesFrom, if_pos rfl]
    · simp
    · exact fun _ _ h _ => hescape h
  | @escape c cs _ ih =>
    rw [List.cons_append, List.cons_append, piecesFrom, ih]
    simp
  | @other c cs hescape hother _ ih =>
    rw [List.cons_append, piecesFrom, if_neg hother, ih]
    · simp
    · exact fun _ _ h _ => hescape h

theorem piecesFrom_textOf (h : ∀ p ∈ ps, p.IsProper) : piecesFrom none (textOf ps) = ps := by
  induction ps with
  | nil => rfl
  | cons p ps ih =>
    obtain ⟨hp, hps⟩ := List.forall_mem_cons.mp h
    cases hp with
    | @plain c hc =>
      rw [textOf_cons, Piece.text, List.singleton_append, piecesFrom, hc, if_neg Bool.false_ne_true, ih hps]
    | @literal quote body hquote hbody =>
      rw [textOf_cons, Piece.text, List.append_assoc, List.cons_append, piecesFrom, if_pos hquote,
        List.singleton_append, piecesFrom_body hquote hbody, ih hps]
      rfl

/-! ## Brackets that are open -/

/-- How many brackets are open behind the pieces, if `depth` are open in front of them and none is closed too often. -/
def depthAfter? : Nat → List Piece → Option Nat
  | depth, [] => some depth
  | depth, .literal _ :: ps => depthAfter? depth ps
  | depth, .plain c :: ps =>
    if isOpening c then depthAfter? (depth + 1) ps
    else if isClosing c then
      match depth with
      | 0 => none
      | depth + 1 => depthAfter? depth ps
    else depthAfter? depth ps

theorem depthAfter?_plain {c : Char} (hopen : isOpening c = false) (hclose : isClosing c = false) (depth : Nat)
    (ps : List Piece) : depthAfter? depth (.plain c :: ps) = depthAfter? depth ps := by
  simp [depthAfter?, hopen, hclose]

theorem depthAfter?_append (depth : Nat) (ps qs : List Piece) :
    depthAfter? depth (ps ++ qs) = (depthAfter? depth ps).bind (depthAfter? · qs) := by
  fun_induction depthAfter? depth ps with
  | case1 => rfl
  | case2 depth text ps ih => simpa [depthAfter?] using ih
  | case3 depth c ps hopen ih => simpa [depthAfter?, hopen] using ih
  | case4 c ps hopen hclose => simp [depthAfter?, hopen, hclose]
  | case5 c ps hopen hclose depth ih => simpa [depthAfter?, hopen, hclose] using ih
  | case6 depth c ps hopen hclose ih => simpa [depthAfter?, hopen, hclose] using ih

/-! ## The layout of pieces -/

def breakAt (depth : Nat) : List Piece := .plain '\n' :: List.replicate (2 * depth) (.plain ' ')

/-- The layout, piece by piece. -/
def laidOut : Nat → Bool → List Piece → List Piece
  | _, _, [] => []
  | depth, skips, .literal text :: ps => .literal text :: laidOut depth (skips && text.head? = some '"') ps
  | depth, skips, .plain c :: ps =>
    if isOpening c then .plain c :: (breakAt (depth + 1) ++ laidOut (depth + 1) true ps)
    else if isClosing c then breakAt (depth - 1) ++ .plain c :: laidOut (depth - 1) skips ps
    else if c = ',' then .plain c :: (breakAt depth ++ laidOut depth true ps)
    else if c = ' ' ∧ skips then laidOut depth false ps
    else .plain c :: laidOut depth false ps

/-- The characters to which the layout gives a meaning. -/
def isMark (c : Char) : Bool := c = '"' || isOpening c || isClosing c || c = ','

/-- The layout takes the piece for what it is. -/
def Piece.IsSeen : Piece → Prop
  | .plain _ => True
  | .literal text => text.head? = some '\'' → ∀ c ∈ text, isMark c = false

instance (p : Piece) : Decidable p.IsSeen :=
  match p with
  | .plain _ => isTrue trivial
  | .literal text =>
    decidable_of_iff (text.head? = some '\'' → text.all (!isMark ·)) (by simp [Piece.IsSeen])

theorem textOf_breakAt (depth : Nat) : textOf (breakAt depth) = '\n' :: List.replicate (2 * depth) ' ' := by
  have hspaces : ∀ n, textOf (List.replicate n (.plain ' ')) = List.replicate n ' ' := by
    intro n
    induction n with
    | zero => rfl
    | succ n ih => rw [List.replicate_succ, textOf_cons, ih]; rfl
  rw [breakAt, textOf_cons, hspaces]
  rfl

theorem lineBreak_eq (depth : Nat) (written : List Char) :
    lineBreak depth written = (textOf (breakAt depth)).reverse ++ written := by
  rw [textOf_breakAt, lineBreak]
  simp

/-! ## What the layout writes -/

def State.write (text : List Char) (s : State) : State := { s with written := text.reverse ++ s.written }

theorem State.write_write (text more : List Char) (s : State) :
    (s.write text).write more = s.write (text ++ more) := by simp [write]

/-- Outside of strings. -/
def State.IsOutside (s : State) : Prop := s.inString = false ∧ s.escaped = false

theorem step_outside {s : State} (h : s.IsOutside) (c : Char) : step s c = stepPlain s c := by
  rw [step, h.1, if_neg Bool.false_ne_true]

/-- Inside a string nothing is changed. -/
theorem foldl_body (h : IsBody '"' body) (s : State) (hin : s.inString = true) (hescaped : s.escaped = false) :
    body.foldl step s = s.write body := by
  induction h generalizing s with
  | nil => rfl
  | @escape c cs _ ih =>
    have htwo : step (step s '\\') c = s.write ['\\', c] := by
      simp [step, stepString, hin, hescaped, State.write]
    rw [List.foldl_cons, List.foldl_cons, htwo, ih (s.write ['\\', c]) hin hescaped, State.write_write]
    rfl
  | @other c cs hbackslash hquote _ ih =>
    have hone : step s c = s.write [c] := by
      simp [step, stepString, hin, hescaped, hbackslash, hquote, State.write]
    rw [List.foldl_cons, hone, ih (s.write [c]) hin hescaped, State.write_write]
    rfl

theorem foldl_string (h : IsBody '"' body) {s : State} (hs : s.IsOutside) :
    ('"' :: body ++ ['"']).foldl step s = s.write ('"' :: body ++ ['"']) := by
  obtain ⟨hin, hescaped⟩ := hs
  have hopen : step s '"' = { s with written := '"' :: s.written, inString := true } := by
    rw [step_outside ⟨hin, hescaped⟩, stepPlain, if_pos rfl]
  rw [List.cons_append, List.foldl_cons, hopen, List.foldl_append, foldl_body h]
  · simp [step, stepString, State.write, hin, hescaped]
  · rfl
  · exact hescaped

theorem isMark_eq_false {c : Char} :
    isMark c = false ↔ c ≠ '"' ∧ isOpening c = false ∧ isClosing c = false ∧ c ≠ ',' := by
  simp only [isMark, Bool.or_eq_false_iff, decide_eq_false_iff_not, and_assoc, ne_eq]

/-- Nor is text without marks, if no space is skipped at its start. -/
theorem foldl_unmarked (h : ∀ c ∈ text, isMark c = false) (s : State) (hs : s.IsOutside)
    (hskips : s.skipsSpace = false) : text.foldl step s = s.write text := by
  induction text generalizing s with
  | nil => rfl
  | cons c text ih =>
    obtain ⟨hc, htext⟩ := List.forall_mem_cons.mp h
    obtain ⟨hquote, hopen, hclose, hcomma⟩ := isMark_eq_false.mp hc
    have hone : step s c = s.write [c] := by
      rw [step_outside hs, stepPlain, if_neg hquote, hopen, hclose, if_neg hcomma, hskips]
      simp [State.write, hskips]
    rw [List.foldl_cons, hone, ih htext (s.write [c]) hs hskips, State.write_write]
    rfl

theorem foldl_character (h : ∀ c ∈ '\'' :: text, isMark c = false) (s : State) (hs : s.IsOutside) :
    ('\'' :: text).foldl step s = { s.write ('\'' :: text) with skipsSpace := false } := by
  obtain ⟨-, htext⟩ := List.forall_mem_cons.mp h
  have hopen : step s '\'' = { s with written := '\'' :: s.written, skipsSpace := false } := by
    rw [step_outside hs, stepPlain, if_neg (by decide), if_neg (by decide), if_neg (by decide), if_neg (by decide),
      if_neg (by simp)]
  rw [List.foldl_cons, hopen, foldl_unmarked htext]
  · simp [State.write]
  · exact hs
  · rfl

/-- The layout of a text is that of its pieces. -/
theorem foldl_textOf (hproper : ∀ p ∈ ps, p.IsProper) (hseen : ∀ p ∈ ps, p.IsSeen) (s : State)
    (hs : s.IsOutside) :
    ((textOf ps).foldl step s).written = (s.write (textOf (laidOut s.depth s.skipsSpace ps))).written := by
  induction ps generalizing s with
  | nil => rfl
  | cons p ps ih =>
    obtain ⟨hp, hps⟩ := List.forall_mem_cons.mp hproper
    obtain ⟨hsee, hsees⟩ := List.forall_mem_cons.mp hseen
    rw [textOf_cons, List.foldl_append]
    cases hp with
    | @literal quote body hquote hbody =>
      rw [isQuote, Bool.or_eq_true, decide_eq_true_eq, decide_eq_true_eq] at hquote
      rcases hquote with rfl | rfl
      · rw [Piece.text, foldl_string hbody hs, ih hps hsees]
        · simp [laidOut, State.write, Piece.text]
        · exact hs
      · have hmarks : ∀ c ∈ '\'' :: (body ++ ['\'']), isMark c = false := hsee rfl
        rw [Piece.text, List.cons_append, foldl_character hmarks s hs, ih hps hsees]
        · simp [laidOut, State.write, Piece.text]
        · exact hs
    | @plain c hc =>
      have hquote : c ≠ '"' := by
        rintro rfl
        exact absurd hc (by decide)
      rw [Piece.text, List.foldl_cons, List.foldl_nil, step_outside hs, stepPlain, if_neg hquote, laidOut]
      by_cases hopen : isOpening c
      · rw [if_pos hopen, if_pos hopen, ih hps hsees]
        · simp [State.write, lineBreak_eq, textOf_append, Piece.text]
        · exact hs
      rw [if_neg hopen, if_neg hopen]
      by_cases hclose : isClosing c
      · rw [if_pos hclose, if_pos hclose, ih hps hsees]
        · simp [State.write, lineBreak_eq, textOf_append, Piece.text]
        · exact hs
      rw [if_neg hclose, if_neg hclose]
      by_cases hcomma : c = ','
      · rw [if_pos hcomma, if_pos hcomma, ih hps hsees]
        · simp [State.write, lineBreak_eq, textOf_append, Piece.text]
        · exact hs
      rw [if_neg hcomma, if_neg hcomma]
      by_cases hspace : c = ' ' ∧ s.skipsSpace
      · rw [if_pos hspace, if_pos hspace, ih hps hsees]
        · rfl
        · exact hs
      · rw [if_neg hspace, if_neg hspace, ih hps hsees]
        · simp [State.write, Piece.text]
        · exact hs

/-! ## What becomes of the pieces -/

/-- Anything but a space or a line feed between literals. -/
def Piece.isSolid (p : Piece) : Bool := p ≠ .plain ' ' && p ≠ .plain '\n'

theorem filter_breakAt (depth : Nat) : (breakAt depth).filter Piece.isSolid = [] := by
  rw [breakAt, List.filter_cons_of_neg (by decide), List.filter_eq_nil_iff]
  intro p hp
  obtain rfl := List.eq_of_mem_replicate hp
  decide

/-- Only spaces and line feeds come and go. -/
theorem filter_laidOut (depth : Nat) (skips : Bool) (ps : List Piece) :
    (laidOut depth skips ps).filter Piece.isSolid = ps.filter Piece.isSolid := by
  fun_induction laidOut depth skips ps with
  | case1 => rfl
  | case2 depth skips text ps ih => simp [List.filter_cons, ih]
  | case3 depth skips c ps hopen ih => simp [List.filter_cons, List.filter_append, filter_breakAt, ih]
  | case4 depth skips c ps hopen hclose ih => simp [List.filter_cons, List.filter_append, filter_breakAt, ih]
  | case5 depth skips ps hopen hclose ih => simp [List.filter_cons, List.filter_append, filter_breakAt, ih]
  | case6 depth skips c ps hopen hclose hcomma hspace ih =>
    obtain ⟨rfl, -⟩ := hspace
    rw [ih, List.filter_cons_of_neg (by decide)]
  | case7 depth skips c ps hopen hclose hcomma hspace ih => simp [List.filter_cons, ih]

theorem depthAfter?_breakAt (depth n : Nat) (ps : List Piece) :
    depthAfter? depth (breakAt n ++ ps) = depthAfter? depth ps := by
  have hspaces : ∀ k, depthAfter? depth (List.replicate k (.plain ' ') ++ ps) = depthAfter? depth ps := by
    intro k
    induction k with
    | zero => rfl
    | succ k ih => rw [List.replicate_succ, List.cons_append, depthAfter?_plain rfl rfl, ih]
  rw [breakAt, List.cons_append, depthAfter?_plain rfl rfl, hspaces]

theorem depthAfter?_laidOut (depth : Nat) (skips : Bool) (ps : List Piece) :
    depthAfter? depth (laidOut depth skips ps) = depthAfter? depth ps := by
  fun_induction laidOut depth skips ps with
  | case1 => rfl
  | case2 depth skips text ps ih => simpa [depthAfter?] using ih
  | case3 depth skips c ps hopen ih => simpa [depthAfter?, hopen, depthAfter?_breakAt] using ih
  | case4 depth skips c ps hopen hclose ih =>
    rw [depthAfter?_breakAt]
    cases depth with
    | zero => simp [depthAfter?, hopen, hclose]
    | succ depth => simpa [depthAfter?, hopen, hclose] using ih
  | case5 depth skips ps hopen hclose ih => simpa [depthAfter?, hopen, hclose, depthAfter?_breakAt] using ih
  | case6 depth skips c ps hopen hclose hcomma hspace ih => simpa [depthAfter?, hopen, hclose] using ih
  | case7 depth skips c ps hopen hclose hcomma hspace ih => simpa [depthAfter?, hopen, hclose] using ih

/-! ## Lines -/

/-- The brackets that are open at the start of a line, of which one is closed at once if the line begins so. -/
def indentation (depth : Nat) : List Piece → Nat
  | .plain c :: _ => if isClosing c then depth - 1 else depth
  | _ => depth

/-- Every line behind a break begins with two spaces for each bracket that is open, and no further one. -/
def IsIndented (depth : Nat) (ps : List Piece) : Prop :=
  ∀ before after, ps = before ++ .plain '\n' :: after →
    ∃ inside rest, depthAfter? depth before = some inside ∧
      after = List.replicate (2 * indentation inside rest) (.plain ' ') ++ rest ∧ rest.head? ≠ some (.plain ' ')

theorem isIndented_cons {depth inside : Nat} (hp : p ≠ .plain '\n') (hinside : ∀ ps, depthAfter? depth (p :: ps) =
    depthAfter? inside ps) (h : IsIndented inside ps) : IsIndented depth (p :: ps) := by
  intro before after heq
  cases before with
  | nil => exact absurd (List.cons.inj heq).1 hp
  | cons q before =>
    obtain ⟨rfl, rfl⟩ := List.cons.inj heq
    obtain ⟨inside, rest, hbefore, hafter, hrest⟩ := h before after rfl
    exact ⟨inside, rest, by rw [hinside, hbefore], hafter, hrest⟩

theorem isIndented_breakAt {depth n : Nat} (hn : n = indentation depth ps) (hhead : ps.head? ≠ some (.plain ' '))
    (h : IsIndented depth ps) : IsIndented depth (breakAt n ++ ps) := by
  have hspaces : ∀ k, IsIndented depth (List.replicate k (.plain ' ') ++ ps) := by
    intro k
    induction k with
    | zero => exact h
    | succ k ih =>
      rw [List.replicate_succ, List.cons_append]
      exact isIndented_cons (by decide) (fun _ => depthAfter?_plain rfl rfl depth _) ih
  intro before after heq
  rw [breakAt, List.cons_append] at heq
  cases before with
  | nil =>
    obtain ⟨-, rfl⟩ := List.cons.inj heq
    exact ⟨depth, ps, rfl, by rw [hn], hhead⟩
  | cons q before =>
    obtain ⟨rfl, hmore⟩ := List.cons.inj heq
    obtain ⟨inside, rest, hbefore, hafter, hrest⟩ := hspaces _ before after hmore
    exact ⟨inside, rest, by rw [depthAfter?_plain rfl rfl, hbefore], hafter, hrest⟩

theorem isIndented_nil (depth : Nat) : IsIndented depth [] := by
  intro before after heq
  simp at heq

/-- No space follows a space. -/
def IsSpaced (ps : List Piece) : Prop := ps.IsChain fun p q => ¬ (p = .plain ' ' ∧ q = .plain ' ')

theorem head?_laidOut (h : ps.head? ≠ some (.plain ' ')) (depth : Nat) (skips : Bool) :
    (laidOut depth skips ps).head? ≠ some (.plain ' ') := by
  cases ps with
  | nil => nofun
  | cons p ps =>
    cases p with
    | literal text => nofun
    | plain c =>
      have hc : Piece.plain c ≠ .plain ' ' := fun hc => h (congrArg some hc)
      rw [laidOut]
      split_ifs with hopen hclose hcomma hspace
      · exact fun hhead => hc (Option.some.inj hhead)
      · nofun
      · exact fun hhead => hc (Option.some.inj hhead)
      · exact absurd (congrArg Piece.plain hspace.1) hc
      · exact fun hhead => hc (Option.some.inj hhead)

/-- Behind a break one space is skipped. -/
theorem head?_laidOut_skips (h : IsSpaced ps) (depth : Nat) : (laidOut depth true ps).head? ≠ some (.plain ' ') := by
  by_cases hhead : ps.head? = some (.plain ' ')
  · obtain ⟨ps, rfl⟩ := List.head?_eq_some_iff.mp hhead
    have hnext : ps.head? ≠ some (.plain ' ') := fun hnext =>
      (List.isChain_cons.mp h).1 _ hnext ⟨rfl, rfl⟩
    have hskip : laidOut depth true (.plain ' ' :: ps) = laidOut depth false ps := by
      rw [laidOut, if_neg (by decide), if_neg (by decide), if_neg (by decide), if_pos ⟨rfl, rfl⟩]
    rw [hskip]
    exact head?_laidOut hnext depth false
  · exact head?_laidOut hhead depth true

theorem isClosing_of_isOpening {c : Char} (h : isOpening c) : isClosing c = false := by
  have hc : c = '\x7b' ∨ c = '(' ∨ c = '[' := by simpa [isOpening] using h
  rcases hc with rfl | rfl | rfl <;> rfl

/-- In front of a closing bracket there is a break. -/
theorem indentation_laidOut (depth n : Nat) (skips : Bool) (ps : List Piece) :
    indentation n (laidOut depth skips ps) = n := by
  fun_induction laidOut depth skips ps with
  | case1 => rfl
  | case2 => rfl
  | case3 depth skips c ps hopen => exact if_neg (Bool.eq_false_iff.mp (isClosing_of_isOpening hopen))
  | case4 => rfl
  | case5 => rfl
  | case6 depth skips c ps hopen hclose hcomma hspace ih => exact ih
  | case7 depth skips c ps hopen hclose => exact if_neg hclose

theorem isIndented_laidOut {depth inside : Nat} {skips : Bool} (hfeed : .plain '\n' ∉ ps) (hspaced : IsSpaced ps)
    (hdepth : depthAfter? depth ps = some inside) : IsIndented depth (laidOut depth skips ps) := by
  fun_induction laidOut depth skips ps with
  | case1 depth => exact isIndented_nil depth
  | case2 depth skips text ps ih =>
    rw [List.mem_cons, not_or] at hfeed
    exact isIndented_cons (by nofun) (fun _ => rfl) (ih hfeed.2 hspaced.tail hdepth)
  | case3 depth skips c ps hopen ih =>
    rw [List.mem_cons, not_or] at hfeed
    have hinside (ps : List Piece) : depthAfter? depth (.plain c :: ps) = depthAfter? (depth + 1) ps := by
      simp [depthAfter?, hopen]
    rw [hinside] at hdepth
    have hmore := ih hfeed.2 hspaced.tail hdepth
    refine isIndented_cons (Ne.symm hfeed.1) hinside (isIndented_breakAt ?_ ?_ hmore)
    · rw [indentation_laidOut]
    · exact head?_laidOut_skips hspaced.tail (depth + 1)
  | case4 depth skips c ps hopen hclose ih =>
    rw [List.mem_cons, not_or] at hfeed
    cases depth with
    | zero => simp [depthAfter?, hopen, hclose] at hdepth
    | succ depth =>
      have hinside (ps : List Piece) : depthAfter? (depth + 1) (.plain c :: ps) = depthAfter? depth ps := by
        simp [depthAfter?, hopen, hclose]
      rw [hinside] at hdepth
      have hmore := ih hfeed.2 hspaced.tail hdepth
      refine isIndented_breakAt (if_pos hclose).symm ?_ (isIndented_cons (Ne.symm hfeed.1) hinside hmore)
      rintro heq
      obtain rfl : c = ' ' := by simpa using heq
      exact absurd hclose (by decide)
  | case5 depth skips ps hopen hclose ih =>
    rw [List.mem_cons, not_or] at hfeed
    have hinside (ps : List Piece) : depthAfter? depth (.plain ',' :: ps) = depthAfter? depth ps :=
      depthAfter?_plain rfl rfl depth ps
    rw [hinside] at hdepth
    have hmore := ih hfeed.2 hspaced.tail hdepth
    refine isIndented_cons (Ne.symm hfeed.1) hinside (isIndented_breakAt ?_ ?_ hmore)
    · rw [indentation_laidOut]
    · exact head?_laidOut_skips hspaced.tail depth
  | case6 depth skips c ps hopen hclose hcomma hspace ih =>
    rw [List.mem_cons, not_or] at hfeed
    rw [depthAfter?_plain (Bool.eq_false_iff.mpr hopen) (Bool.eq_false_iff.mpr hclose)] at hdepth
    exact ih hfeed.2 hspaced.tail hdepth
  | case7 depth skips c ps hopen hclose hcomma hspace ih =>
    rw [List.mem_cons, not_or] at hfeed
    have hinside := depthAfter?_plain (Bool.eq_false_iff.mpr hopen) (Bool.eq_false_iff.mpr hclose) depth
    rw [hinside] at hdepth
    exact isIndented_cons (Ne.symm hfeed.1) hinside (ih hfeed.2 hspaced.tail hdepth)

/-! ## Layouts of whole texts -/

theorem isProper_breakAt (depth : Nat) : ∀ p ∈ breakAt depth, p.IsProper := by
  rw [breakAt, List.forall_mem_cons]
  refine ⟨.plain rfl, fun p hp => ?_⟩
  obtain rfl := List.eq_of_mem_replicate hp
  exact .plain rfl

theorem isProper_laidOut (depth : Nat) (skips : Bool) (h : ∀ p ∈ ps, p.IsProper) :
    ∀ p ∈ laidOut depth skips ps, p.IsProper := by
  fun_induction laidOut depth skips ps with
  | case1 => exact List.forall_mem_nil _
  | case2 depth skips text ps ih =>
    obtain ⟨hp, hps⟩ := List.forall_mem_cons.mp h
    exact List.forall_mem_cons.mpr ⟨hp, ih hps⟩
  | case3 depth skips c ps hopen ih =>
    obtain ⟨hp, hps⟩ := List.forall_mem_cons.mp h
    exact List.forall_mem_cons.mpr ⟨hp, List.forall_mem_append.mpr ⟨isProper_breakAt _, ih hps⟩⟩
  | case4 depth skips c ps hopen hclose ih =>
    obtain ⟨hp, hps⟩ := List.forall_mem_cons.mp h
    exact List.forall_mem_append.mpr ⟨isProper_breakAt _, List.forall_mem_cons.mpr ⟨hp, ih hps⟩⟩
  | case5 depth skips ps hopen hclose ih =>
    obtain ⟨hp, hps⟩ := List.forall_mem_cons.mp h
    exact List.forall_mem_cons.mpr ⟨hp, List.forall_mem_append.mpr ⟨isProper_breakAt _, ih hps⟩⟩
  | case6 depth skips c ps hopen hclose hcomma hspace ih => exact ih (List.forall_mem_cons.mp h).2
  | case7 depth skips c ps hopen hclose hcomma hspace ih =>
    obtain ⟨hp, hps⟩ := List.forall_mem_cons.mp h
    exact List.forall_mem_cons.mpr ⟨hp, ih hps⟩

theorem pieces_indented {text : String} (h : text.toList = textOf ps) (hproper : ∀ p ∈ ps, p.IsProper)
    (hseen : ∀ p ∈ ps, p.IsSeen) : pieces (indented text) = laidOut 0 false ps := by
  have hwritten := foldl_textOf hproper hseen start ⟨rfl, rfl⟩
  rw [pieces, indented, String.toList_ofList, run, h, hwritten]
  simp only [State.write, start, List.append_nil, List.reverse_reverse]
  exact piecesFrom_textOf (isProper_laidOut 0 false hproper)

theorem laidOut_append {depth inside : Nat} (skips : Bool) (h : depthAfter? depth ps = some inside) (qs : List Piece) :
    ∃ skips', laidOut depth skips (ps ++ qs) = laidOut depth skips ps ++ laidOut inside skips' qs := by
  fun_induction laidOut depth skips ps with
  | case1 depth skips =>
    cases h
    exact ⟨skips, rfl⟩
  | case2 depth skips text ps ih =>
    obtain ⟨skips', heq⟩ := ih h
    exact ⟨skips', by rw [List.cons_append, laidOut, heq, List.cons_append]⟩
  | case3 depth skips c ps hopen ih =>
    obtain ⟨skips', heq⟩ := ih (by simpa [depthAfter?, hopen] using h)
    exact ⟨skips', by rw [List.cons_append, laidOut, if_pos hopen, heq]; simp⟩
  | case4 depth skips c ps hopen hclose ih =>
    cases depth with
    | zero => simp [depthAfter?, hopen, hclose] at h
    | succ depth =>
      obtain ⟨skips', heq⟩ := ih (by simpa [depthAfter?, hopen, hclose] using h)
      exact ⟨skips', by rw [List.cons_append, laidOut, if_neg hopen, if_pos hclose, heq]; simp⟩
  | case5 depth skips ps hopen hclose ih =>
    obtain ⟨skips', heq⟩ := ih (by simpa [depthAfter?, hopen, hclose] using h)
    exact ⟨skips', by rw [List.cons_append, laidOut, if_neg hopen, if_neg hclose, if_pos rfl, heq]; simp⟩
  | case6 depth skips c ps hopen hclose hcomma hspace ih =>
    obtain ⟨skips', heq⟩ := ih (by simpa [depthAfter?, hopen, hclose] using h)
    exact ⟨skips', by
      rw [List.cons_append, laidOut, if_neg hopen, if_neg hclose, if_neg hcomma, if_pos hspace, heq]⟩
  | case7 depth skips c ps hopen hclose hcomma hspace ih =>
    obtain ⟨skips', heq⟩ := ih (by simpa [depthAfter?, hopen, hclose] using h)
    exact ⟨skips', by
      rw [List.cons_append, laidOut, if_neg hopen, if_neg hclose, if_neg hcomma, if_neg hspace, heq,
        List.cons_append]⟩

/-- The bracket that closes the first one stands in a line of its own, at its start. -/
theorem laidOut_closing {c : Char} (hclose : isClosing c) (hopen : isOpening c = false)
    (h : depthAfter? 0 (ps ++ [.plain c]) = some 0) :
    ∃ before, laidOut 0 false (ps ++ [.plain c]) = before ++ [.plain '\n', .plain c] := by
  rw [depthAfter?_append] at h
  obtain ⟨inside, hinside, hlast⟩ := Option.bind_eq_some_iff.mp h
  obtain rfl : inside = 1 := by
    cases inside with
    | zero => simp [depthAfter?, hopen, hclose] at hlast
    | succ inside => simpa [depthAfter?, hopen, hclose] using hlast
  obtain ⟨skips, heq⟩ := laidOut_append false hinside [.plain c]
  refine ⟨laidOut 0 false ps, ?_⟩
  rw [heq, laidOut, hopen, if_neg Bool.false_ne_true, if_pos hclose]
  rfl

end Offside.Layout
