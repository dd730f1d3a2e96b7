import Mathlib.Data.List.Chain
import Offside.Proofs.BlockStructure

/-!
# Admissible indentation

The levels of the lines of a text that has a tree. From one line to the next the level changes by one at
most, what opens a block is followed by a line that is one level deeper, and an alternative stands behind
the block of its branch. Lines are compared with their neighbours only, so that a line out of place is
rejected however deep it stands.
-/

namespace Offside

set_option autoImplicit false

open Rules

/-! ## Lines that open a block -/

def BeginsWith (k : Keyword) (line : List Token) : Prop := ∃ t ∈ line.head?, t.isKeyword k

/-- `()` or `(name :`. -/
inductive BeginsParameters : List Token → Prop where
  | none {opening closing : Token} {rest : List Token} : opening.isDelimiter "(" →
      closing.isDelimiter ")" → BeginsParameters (opening :: closing :: rest)
  | some {opening name colon : Token} {rest : List Token} : opening.isDelimiter "(" →
      name.kind = .identifier → colon.isDelimiter ":" →
      BeginsParameters (opening :: name :: colon :: rest)

/-- `name : [type] :` in front of parameters. -/
inductive BeginsFunction : List Token → Prop where
  | auto {name colon separator : Token} {rest : List Token} : name.kind = .identifier →
      colon.isDelimiter ":" → separator.isDelimiter ":" → BeginsParameters rest →
      BeginsFunction (name :: colon :: separator :: rest)
  | typed {name colon type separator : Token} {rest : List Token} : name.kind = .identifier →
      colon.isDelimiter ":" → type.kind = .identifier → separator.isDelimiter ":" →
      BeginsParameters rest → BeginsFunction (name :: colon :: type :: separator :: rest)

/-- The line of a branch, of its alternative, of a loop or of a function. -/
def OpensBlock (line : List Token) : Prop := (∃ k, BeginsWith k line) ∨ BeginsFunction line

theorem not_beginsWith {t : Token} {line : List Token} {k other : Keyword} (ht : t.isKeyword k)
    (hne : k ≠ other) : ¬ BeginsWith other (t :: line) := by
  rintro ⟨_, ⟨⟩, hother⟩
  simp_all [Token.isKeyword]

theorem not_beginsWith_of_identifier {t : Token} {line : List Token} (ht : IsWord t)
    (hk : t.kind = .identifier) (k : Keyword) : ¬ BeginsWith k (t :: line) := by
  rintro ⟨_, ⟨⟩, hkeyword⟩
  simp [Token.isKeyword, keyword_of_identifier ht hk] at hkeyword

theorem BeginsFunction.isDeclaration {line : List Token} (h : BeginsFunction line) :
    IsDeclaration line := by
  cases h with
  | auto hk hc => exact ⟨_, _, _, rfl, hk, hc⟩
  | typed hk hc => exact ⟨_, _, _, rfl, hk, hc⟩

namespace Phrase.Grammatical

variable {symbols : SymbolTable} {q : Phrase}

theorem not_colon (h : q.Grammatical symbols) : ∀ t ∈ q.tokens, ¬ t.isDelimiter ":" := by
  induction h with
  | operand ho => exact List.forall_mem_singleton.mpr (ho.not_delimiter _)
  | enclosed ha _ hb ih =>
    refine List.forall_mem_cons.mpr ⟨fun h => ?_, List.forall_mem_append.mpr ⟨ih, ?_⟩⟩
    · exact absurd (Token.isDelimiter_inj ha h) (by decide)
    · exact List.forall_mem_singleton.mpr fun h => absurd (Token.isDelimiter_inj hb h) (by decide)
  | before ht _ _ ih =>
    exact List.forall_mem_cons.mpr ⟨Token.not_isDelimiter_of_isOperator ht _, ih⟩
  | behind ho ht =>
    exact List.forall_mem_cons.mpr ⟨ho.not_delimiter _,
      List.forall_mem_singleton.mpr (Token.not_isDelimiter_of_isOperator ht _)⟩
  | between _ ht _ _ ihl ihr =>
    exact List.forall_mem_append.mpr ⟨ihl,
      List.forall_mem_cons.mpr ⟨Token.not_isDelimiter_of_isOperator ht _, ihr⟩⟩

theorem first_not_closing (h : q.Grammatical symbols) :
    ∃ t more, q.tokens = t :: more ∧ ¬ t.isDelimiter ")" := by
  induction h with
  | operand ho => exact ⟨_, _, rfl, ho.not_delimiter _⟩
  | enclosed ha => exact ⟨_, _, rfl, fun h => absurd (Token.isDelimiter_inj ha h) (by decide)⟩
  | before ht => exact ⟨_, _, rfl, Token.not_isDelimiter_of_isOperator ht _⟩
  | behind ho => exact ⟨_, _, rfl, ho.not_delimiter _⟩
  | between _ _ _ _ ihl =>
    obtain ⟨t, more, ht, hne⟩ := ihl
    exact ⟨t, more ++ _, by rw [Phrase.tokens, ht, List.cons_append], hne⟩

/-- Parentheses enclose something. -/
theorem not_empty_parentheses (h : q.Grammatical symbols) {rest more : List Token} {a b : Token}
    (hq : q.tokens ++ rest = a :: b :: more) (ha : a.isDelimiter "(") : ¬ b.isDelimiter ")" := by
  induction h generalizing rest more with
  | operand ho =>
    obtain ⟨rfl, -⟩ := List.cons.inj hq
    exact absurd ha (ho.not_delimiter _)
  | enclosed _ hp =>
    obtain ⟨t, ts, hts, hne⟩ := hp.first_not_closing
    rw [Phrase.tokens, hts] at hq
    obtain ⟨rfl, -⟩ := List.cons.inj (List.cons.inj hq).2
    exact hne
  | before ht =>
    obtain ⟨rfl, -⟩ := List.cons.inj hq
    exact absurd ha (Token.not_isDelimiter_of_isOperator ht _)
  | behind ho =>
    obtain ⟨rfl, -⟩ := List.cons.inj hq
    exact absurd ha (ho.not_delimiter _)
  | between _ _ _ _ ihl =>
    rw [Phrase.tokens, List.append_assoc] at hq
    exact ihl hq

end Phrase.Grammatical

theorem Expressed.not_beginsParameters {symbols : SymbolTable} {ts : List Token} {n : Node}
    (h : Expressed symbols ts n) : ¬ BeginsParameters ts := by
  obtain ⟨q, hq, -, rfl, -⟩ := h
  intro hb
  generalize hts : q.tokens = ts at hb
  cases hb with
  | none ha hb => exact hq.not_empty_parentheses ((List.append_nil _).trans hts) ha hb
  | some _ _ hc => exact hq.not_colon _ (by simp [hts]) hc

theorem not_beginsFunction_of_declares {symbols : SymbolTable} {d : Declared} {ts : List Token}
    {n : Node} {i : Identifier} (h : Declares symbols d ts n i) : ¬ BeginsFunction ts := by
  intro hb
  cases h with
  | value hhead hsep he =>
    cases hhead with
    | auto =>
      cases hb with
      | auto _ _ _ hps => exact he.not_beginsParameters hps
      | typed _ _ hk =>
        cases hsep with
        | equals ht => simp_all [Token.isOperator, Token.is]
        | colon ht => simp_all [Token.isDelimiter, Token.is]
    | typed _ _ hk =>
      cases hb with
      | auto _ _ ht => simp_all [Token.isDelimiter, Token.is]
      | typed _ _ _ _ hps => exact he.not_beginsParameters hps
  | bare hhead =>
    cases hhead with
    | auto => cases hb
    | typed =>
      cases hb with
      | auto _ _ _ hps => cases hps

/-! ## The levels of lines -/

/-- The level of the first token of the line. -/
def lineLevel (line : List Token) : Nat := (line.head?.map Token.level).getD 0

/-- The levels of neighbours differ by one at most. -/
def Adjacent (line next : List Token) : Prop :=
  lineLevel line ≤ lineLevel next + 1 ∧ lineLevel next ≤ lineLevel line + 1

/-- The line belongs to an alternative of the lines in front of it: behind a branch at the level of the line
stand deeper lines alone, the last of which is one level deeper. -/
def ClosesBranch (before : List (List Token)) (line : List Token) : Prop :=
  ∃ front test block last, before = front ++ test :: (block ++ [last]) ∧ BeginsWith .ifThen test ∧
    lineLevel test = lineLevel line ∧ (∀ inner ∈ block, lineLevel line < lineLevel inner) ∧
    lineLevel last = lineLevel line + 1

/-- Lines that are indented as they must be, seen from each other. -/
structure Indented (lines : List (List Token)) : Prop where
  uniform : ∀ line ∈ lines, line ≠ [] ∧ ∀ t ∈ line, t.level = lineLevel line
  adjacent : lines.IsChain Adjacent
  opens : ∀ before line after, lines = before ++ line :: after → OpensBlock line →
    ∃ next more, after = next :: more ∧ lineLevel next = lineLevel line + 1
  alternative : ∀ before line after, lines = before ++ line :: after → BeginsWith .orElse line →
    ClosesBranch before line

/-- The lines of a whole text begin at the left. -/
structure Admissible (lines : List (List Token)) : Prop extends Indented lines where
  first : ∀ line ∈ lines.head?, lineLevel line = 0

theorem ClosesBranch.append {before : List (List Token)} {line : List Token}
    (h : ClosesBranch before line) (front : List (List Token)) :
    ClosesBranch (front ++ before) line := by
  obtain ⟨front', test, block, last, rfl, hrest⟩ := h
  exact ⟨front ++ front', test, block, last, by rw [List.append_assoc], hrest⟩

/-- A place in two lists is a place in one of them. -/
theorem place_of_append {xs ys before after : List (List Token)} {line : List Token}
    (h : xs ++ ys = before ++ line :: after) :
    (∃ more, xs = before ++ line :: more ∧ after = more ++ ys) ∨
      ∃ front, ys = front ++ line :: after ∧ before = xs ++ front := by
  rcases List.append_eq_append_iff.mp h with ⟨front, rfl, rfl⟩ | ⟨more, rfl, hmore⟩
  · exact .inr ⟨front, rfl, rfl⟩
  · cases more with
    | nil => exact .inr ⟨[], hmore.symm, by simp⟩
    | cons first more =>
      obtain ⟨rfl, rfl⟩ := List.cons.inj hmore
      exact .inl ⟨more, rfl, rfl⟩

namespace Indented

theorem nil : Indented [] where
  uniform := nofun
  adjacent := .nil
  opens before _ _ h := by cases before <;> cases h
  alternative before _ _ h := by cases before <;> cases h

theorem append {xs ys : List (List Token)} (hx : Indented xs) (hy : Indented ys)
    (hjoin : ∀ x ∈ xs.getLast?, ∀ y ∈ ys.head?, Adjacent x y) : Indented (xs ++ ys) where
  uniform := List.forall_mem_append.mpr ⟨hx.uniform, hy.uniform⟩
  adjacent := hx.adjacent.append hy.adjacent hjoin
  opens before line after h hopens := by
    rcases place_of_append h with ⟨more, hxs, rfl⟩ | ⟨front, hys, rfl⟩
    · obtain ⟨next, more, rfl, hnext⟩ := hx.opens before line more hxs hopens
      exact ⟨next, more ++ ys, rfl, hnext⟩
    · exact hy.opens front line after hys hopens
  alternative before line after h helse := by
    rcases place_of_append h with ⟨more, hxs, rfl⟩ | ⟨front, hys, rfl⟩
    · exact hx.alternative before line more hxs helse
    · exact (hy.alternative front line after hys helse).append xs

/-- A line between others, which both may depend on it. -/
theorem line {xs ys : List (List Token)} {line : List Token} (hx : Indented xs) (hy : Indented ys)
    (huniform : line ≠ [] ∧ ∀ t ∈ line, t.level = lineLevel line)
    (hbefore : ∀ x ∈ xs.getLast?, Adjacent x line) (hafter : ∀ y ∈ ys.head?, Adjacent line y)
    (hopens : OpensBlock line → ∃ next more, ys = next :: more ∧ lineLevel next = lineLevel line + 1)
    (helse : BeginsWith .orElse line → ClosesBranch xs line) : Indented (xs ++ line :: ys) where
  uniform := List.forall_mem_append.mpr ⟨hx.uniform, List.forall_mem_cons.mpr ⟨huniform, hy.uniform⟩⟩
  adjacent := by
    refine hx.adjacent.append (List.isChain_cons.mpr ⟨hafter, hy.adjacent⟩) ?_
    rintro x hlast y ⟨⟩
    exact hbefore x hlast
  opens before line' after h ho := by
    rcases place_of_append h with ⟨more, hxs, rfl⟩ | ⟨front, hys, rfl⟩
    · obtain ⟨next, more, rfl, hnext⟩ := hx.opens before line' more hxs ho
      exact ⟨next, more ++ line :: ys, rfl, hnext⟩
    · cases front with
      | nil =>
        obtain ⟨rfl, rfl⟩ := List.cons.inj hys
        exact hopens ho
      | cons first front => exact hy.opens front line' after (List.cons.inj hys).2 ho
  alternative before line' after h he := by
    rcases place_of_append h with ⟨more, hxs, rfl⟩ | ⟨front, hys, rfl⟩
    · exact hx.alternative before line' more hxs he
    · cases front with
      | nil =>
        obtain ⟨rfl, rfl⟩ := List.cons.inj hys
        rw [List.append_nil]
        exact helse he
      | cons first front =>
        obtain ⟨rfl, hys'⟩ := List.cons.inj hys
        have hclosed := (hy.alternative front line' after hys' he).append (xs ++ [line])
        rwa [List.append_assoc] at hclosed

end Indented

/-! ## The lines of a construct -/

/-- The lines of a construct whose own lines are at `base`, in front of the lines `rest`. -/
structure Spans (base : Nat) (lines rest : List (List Token)) : Prop where
  indented : Indented lines
  deep : ∀ line ∈ lines, base ≤ lineLevel line
  last : ∀ line ∈ lines.getLast?, ∀ next ∈ rest.head?,
    lineLevel line = base ∨ lineLevel line = base + 1 ∧ lineLevel next = base

namespace Spans

variable {base : Nat} {xs ys rest : List (List Token)}

theorem nil : Spans base [] rest := ⟨.nil, nofun, nofun⟩

theorem append (hx : Spans base xs (ys ++ rest)) (hy : Spans base ys rest)
    (hfirst : ∀ line ∈ (ys ++ rest).head?, lineLevel line ≤ base + 1) :
    Spans base (xs ++ ys) rest where
  indented := by
    refine hx.indented.append hy.indented fun x hlast y hhead => ?_
    have hmem : y ∈ (ys ++ rest).head? := by
      cases ys with
      | nil => cases hhead
      | cons => exact hhead
    have hlow := hy.deep y (List.mem_of_mem_head? hhead)
    have hhigh := hfirst y hmem
    have hx := hx.last x hlast y hmem
    exact ⟨by omega, by omega⟩
  deep := List.forall_mem_append.mpr ⟨hx.deep, hy.deep⟩
  last := by
    intro line hlast next hnext
    cases hys : ys.getLast? with
    | none =>
      obtain rfl := List.getLast?_eq_none_iff.mp hys
      rw [List.append_nil] at hlast
      exact hx.last line hlast next hnext
    | some l =>
      rw [List.getLast?_append, hys, Option.some_or] at hlast
      obtain rfl := Option.some.inj hlast
      exact hy.last l hys next hnext

/-- A block that ends in front of a line of the construct that has it belongs to that construct. -/
theorem outward (h : Spans (base + 1) xs rest)
    (hnext : ∀ next ∈ rest.head?, lineLevel next = base) : Spans base xs rest where
  indented := h.indented
  deep line hline := Nat.le_of_succ_le (h.deep line hline)
  last line hlast next hn := by
    have := h.last line hlast next hn
    have := hnext next hn
    omega

/-- A block behind the line that opens it. -/
theorem opened {first line : List Token} (h : Spans base (first :: xs) rest)
    (huniform : line ≠ [] ∧ ∀ t ∈ line, t.level = lineLevel line) (hline : lineLevel line = base)
    (hfirst : lineLevel first = base + 1) (helse : ¬ BeginsWith .orElse line) :
    Spans base (line :: first :: xs) rest where
  indented := by
    refine Indented.nil.line h.indented huniform nofun ?_ (fun _ => ⟨first, xs, rfl, by omega⟩)
      (fun he => absurd he helse)
    rintro y ⟨⟩
    exact ⟨by omega, by omega⟩
  deep := List.forall_mem_cons.mpr ⟨hline.ge, h.deep⟩
  last := h.last

/-- The block of a branch in front of that of its alternative. -/
theorem alternative {test last orElse first : List Token} {block : List (List Token)}
    (hx : Spans base (test :: (block ++ [last])) (orElse :: first :: ys ++ rest))
    (hy : Spans base (first :: ys) rest) (hdeep : ∀ line ∈ block ++ [last], base < lineLevel line)
    (htest : BeginsWith .ifThen test) (hlevel : lineLevel test = base)
    (huniform : orElse ≠ [] ∧ ∀ t ∈ orElse, t.level = lineLevel orElse)
    (helse : lineLevel orElse = base) (hfirst : lineLevel first = base + 1) :
    Spans base (test :: (block ++ [last]) ++ orElse :: first :: ys) rest := by
  have hgetLast : (test :: (block ++ [last])).getLast? = some last := by
    rw [← List.cons_append, List.getLast?_concat]
  have hlast : lineLevel last = base + 1 := by
    have := hx.last last hgetLast orElse rfl
    have := hdeep last (by simp)
    omega
  refine ⟨?_, List.forall_mem_append.mpr ⟨hx.deep, List.forall_mem_cons.mpr ⟨helse.ge, hy.deep⟩⟩, ?_⟩
  · refine hx.indented.line hy.indented huniform ?_ ?_ (fun _ => ⟨first, ys, rfl, by omega⟩)
      (fun _ => ⟨[], test, block, last, rfl, htest, by omega, fun line hline => ?_, by omega⟩)
    · intro x hx
      obtain rfl := Option.some.inj (hgetLast.symm.trans hx)
      exact ⟨by omega, by omega⟩
    · rintro y ⟨⟩
      exact ⟨by omega, by omega⟩
    · have := hdeep line (List.mem_append_left _ hline)
      omega
  · intro line hline
    rw [List.getLast?_append, List.getLast?_cons_cons] at hline
    cases hys : (first :: ys).getLast? with
    | none => cases List.getLast?_eq_none_iff.mp hys
    | some l =>
      rw [hys, Option.some_or] at hline
      obtain rfl := Option.some.inj hline
      exact hy.last l hys

end Spans

/-! ## From the rules to the lines -/

theorem Lined.logicalLines_ne_nil {line : Option Nat} {ts : List Token} (h : Lined line ts)
    (hline : line.isSome) : logicalLines ts ≠ [] := by
  have hword : ∀ {t : Token} {ts : List Token}, logicalLines ts ≠ [] → logicalLines (t :: ts) ≠ [] := by
    intro t ts hts
    rw [logicalLines]
    split
    · exact List.cons_ne_nil _ _
    · split
      · next hnil => exact absurd hnil hts
      · exact List.cons_ne_nil _ _
  induction h with
  | done | first => cases hline
  | word _ _ ih => exact hword (ih rfl)
  | stop hk => simp [logicalLines, hk]

/-- The first line ahead has the level of the first token. -/
theorem head_logicalLines {t : Token} {ts : List Token} (h : Lined none (t :: ts)) :
    (t.kind = .endOfFile ∧ logicalLines (t :: ts) = []) ∨
      t.kind ≠ .endOfFile ∧ ∃ line more, logicalLines (t :: ts) = line :: more ∧
        lineLevel line = t.level := by
  cases h with
  | done hk => exact .inl ⟨hk, by simp [logicalLines, hk]⟩
  | first hw hr =>
    have hends := hw.not_endsStatement
    simp only [Token.endsStatement, Bool.or_eq_false_iff, beq_eq_false_iff_ne] at hends
    cases hlines : logicalLines ts with
    | nil => exact absurd hlines (hr.logicalLines_ne_nil rfl)
    | cons line more =>
      exact .inr ⟨hends.2, t :: line, more, by simp [logicalLines, hends.1, hlines], rfl⟩

/-- The level of a product's own lines. -/
def Rules.Product.base (level : Nat) : Product → Nat
  | .statement _ | .lines _ _ | .block _ => level
  | .body _ => level + 1

/-- A statement begins a line at the level of its block. -/
def Rules.Product.Leads (level : Nat) (tokens : List Token) : Product → Prop
  | .statement _ => ∀ t ∈ tokens.head?, t.level = level
  | .lines _ _ | .block _ | .body _ => True

/-- The lines between two places of the tokens. -/
structure LinesBetween (base : Nat) (before after : List Token) : Prop where
  lined : Lined none after
  lines : ∃ lines, logicalLines before = lines ++ logicalLines after ∧
    Spans base lines (logicalLines after)

theorem uniform_of_takesLine {level : Nat} {tokens line rest : List Token}
    (h : Lined none tokens) (ht : TakesLine tokens line rest)
    (hlevel : ∀ t ∈ tokens.head?, t.level = level) :
    (line ≠ [] ∧ ∀ t ∈ line, t.level = lineLevel line) ∧ Lined none rest ∧ lineLevel line = level := by
  obtain ⟨first, more, rfl, hwords, hrest⟩ := h.takesLine ht
  obtain ⟨stop, -, rfl⟩ := ht.stop
  exact ⟨⟨List.cons_ne_nil _ _, fun t ht => (hwords t ht).2⟩, hrest, hlevel first rfl⟩

/-- A statement that is a line. -/
theorem LinesBetween.line {level : Nat} {tokens line rest : List Token} (h : Lined none tokens)
    (ht : TakesLine tokens line rest) (hlevel : ∀ t ∈ tokens.head?, t.level = level)
    (hopens : ¬ OpensBlock line) : LinesBetween level tokens rest := by
  obtain ⟨huniform, hrest, hline⟩ := uniform_of_takesLine h ht hlevel
  refine ⟨hrest, [line], logicalLines_of_takesLine ht, ?_, ?_, ?_⟩
  · exact Indented.nil.line .nil huniform nofun nofun (fun ho => absurd ho hopens)
      (fun he => absurd (.inl ⟨_, he⟩) hopens)
  · exact List.forall_mem_singleton.mpr hline.ge
  · rintro line ⟨⟩ next -
    exact .inl hline

namespace Derives

/-- The first line of a block is at the level of the block. -/
theorem first_of_block {level : Nat} {t : Token} {ts : List Token} {symbols : SymbolTable}
    {next : FunctionId} {after : State} {s : Scope}
    (h : Derives level ⟨t :: ts, symbols, next⟩ (.block s) after) :
    t.kind = .endOfFile ∨ t.level + 1 = level ∨ t.level = level := by
  cases h with
  | block hlines =>
    cases hlines with
    | stop hstop => exact hstop.imp_right fun h => .inl (Parse.LinePlace.of_eq_outside h)
    | here _ hl => exact .inr (.inr hl)

/-- No line of a block may be more than one level deeper than the block. -/
theorem head_of_lines {level : Nat} {before after : State} {hasStatement : Bool} {ns : List Node}
    (h : Derives level before (.lines hasStatement ns) after) (hlined : Lined none before.tokens) :
    ∀ line ∈ (logicalLines before.tokens).head?, lineLevel line ≤ level + 1 := by
  have hfirst : ∃ t ts, before.tokens = t :: ts ∧ (t.kind = .endOfFile ∨ t.level ≤ level + 1) := by
    cases h with
    | stop hstop =>
      refine ⟨_, _, rfl, hstop.imp_right fun h => ?_⟩
      have := Parse.LinePlace.of_eq_outside h
      omega
    | here _ hl => exact ⟨_, _, rfl, .inr (by omega)⟩
    | deeper _ hl => exact ⟨_, _, rfl, .inr hl.le⟩
  obtain ⟨t, ts, htokens, hfirst⟩ := hfirst
  rw [htokens] at hlined ⊢
  rcases head_logicalLines hlined with ⟨-, hnil⟩ | ⟨hk, line, more, hlines, hline⟩
  · rw [hnil]
    nofun
  · rw [hlines]
    rintro line ⟨⟩
    exact hline.trans_le (hfirst.resolve_left hk)

/-- A block ends in front of a line that is one level shallower. -/
theorem head_behind_block {level : Nat} {before after : State} {s : Scope}
    (h : Derives level before (.block s) after) (hlined : Lined none after.tokens) :
    ∀ next ∈ (logicalLines after.tokens).head?, lineLevel next + 1 = level := by
  obtain ⟨stop, rest, hrest, hstop⟩ := h.stops
  rw [hrest] at hlined ⊢
  rcases head_logicalLines hlined with ⟨-, hnil⟩ | ⟨hk, line, more, hmore, hline⟩
  · rw [hnil]
    nofun
  · rw [hmore]
    rintro next ⟨⟩
    rw [hline]
    exact hstop.resolve_left hk

/-- The lines of the block of a construct: one at least, and the construct has the line behind them. -/
theorem lines_of_body {level : Nat} {before after : State} {s : Scope}
    (h : Derives level before (.body s) after) (hlined : Lined none before.tokens)
    (hbetween : LinesBetween (level + 1) before.tokens after.tokens) :
    ∃ first more, logicalLines before.tokens = first :: more ++ logicalLines after.tokens ∧
      lineLevel first = level + 1 ∧ Spans (level + 1) (first :: more) (logicalLines after.tokens) ∧
      ∀ next ∈ (logicalLines after.tokens).head?, lineLevel next = level := by
  obtain ⟨hlined', lines, hlines, hspans⟩ := hbetween
  cases h with
  | @body _ t ts _ _ _ _ hk hl hb =>
    have hlevel : t.level = level + 1 := by
      rcases hb.first_of_block with h | h | h
      · exact absurd h hk
      · omega
      · exact h
    have hnext : ∀ next ∈ (logicalLines after.tokens).head?, lineLevel next = level :=
      fun next hn => Nat.succ.inj (hb.head_behind_block hlined' next hn)
    rcases head_logicalLines hlined with ⟨hk', -⟩ | ⟨-, line, more, hmore, hline⟩
    · exact absurd hk' hk
    · cases lines with
      | nil =>
        have := hnext line (by rw [← List.nil_append (logicalLines after.tokens), ← hlines, hmore]; rfl)
        omega
      | cons first lines =>
        have hfirst : line = first := by
          rw [hmore] at hlines
          exact (List.cons.inj hlines).1
        exact ⟨first, lines, hlines, by rw [← hfirst, hline, hlevel], hspans, hnext⟩

/-- A construct whose line opens its only block. -/
theorem linesBetween_of_header {level : Nat} {tokens line rest : List Token} {symbols : SymbolTable}
    {next : FunctionId} {after : State} {s : Scope} (h : Lined none tokens)
    (ht : TakesLine tokens line rest) (hlevel : ∀ t ∈ tokens.head?, t.level = level)
    (helse : ¬ BeginsWith .orElse line) (hbody : Derives level ⟨rest, symbols, next⟩ (.body s) after)
    (hbetween : Lined none rest → LinesBetween (level + 1) rest after.tokens) :
    LinesBetween level tokens after.tokens := by
  obtain ⟨huniform, hrest, hline⟩ := uniform_of_takesLine h ht hlevel
  obtain ⟨first, more, hlines, hfirst, hspans, hnext⟩ := hbody.lines_of_body hrest (hbetween hrest)
  refine ⟨(hbetween hrest).lined, line :: first :: more, ?_, ?_⟩
  · exact (logicalLines_of_takesLine ht).trans (congrArg (line :: ·) hlines)
  · exact (hspans.outward hnext).opened huniform hline hfirst helse

theorem linesBetween_of_alternative {level : Nat} {tokens line rest : List Token}
    {symbols symbols' : SymbolTable} {next next' : FunctionId} {between after : State} {s s' : Scope}
    {keyword orElse : Token} {rest' : List Token} (h : Lined none tokens)
    (ht : TakesLine tokens (keyword :: line) rest) (hk : keyword.isKeyword .ifThen)
    (hlevel : ∀ t ∈ tokens.head?, t.level = level)
    (hbody : Derives level ⟨rest, symbols, next⟩ (.body s) between)
    (hbetween : Lined none rest → LinesBetween (level + 1) rest between.tokens)
    (ht' : TakesLine between.tokens [orElse] rest') (hl' : orElse.level = level)
    (hbody' : Derives level ⟨rest', symbols', next'⟩ (.body s') after)
    (hbetween' : Lined none rest' → LinesBetween (level + 1) rest' after.tokens) :
    LinesBetween level tokens after.tokens := by
  obtain ⟨huniform, hrest, hline⟩ := uniform_of_takesLine h ht hlevel
  obtain ⟨first, more, hlines, hfirst, hspans, hnext⟩ := hbody.lines_of_body hrest (hbetween hrest)
  have hhead : ∀ t ∈ between.tokens.head?, t.level = level := by
    obtain ⟨stop, -, htokens⟩ := ht'.stop
    rw [htokens]
    rintro t ⟨⟩
    exact hl'
  obtain ⟨huniform', hrest', hline'⟩ := uniform_of_takesLine (hbetween hrest).lined ht' hhead
  obtain ⟨first', more', hlines', hfirst', hspans', hnext'⟩ :=
    hbody'.lines_of_body hrest' (hbetween' hrest')
  obtain ⟨block, last, hblock⟩ :=
    (List.eq_nil_or_concat (first :: more)).resolve_left (List.cons_ne_nil _ _)
  have hif : BeginsWith .ifThen (keyword :: line) := ⟨keyword, rfl, hk⟩
  have hx := (hspans.outward hnext).opened huniform hline hfirst (not_beginsWith hk (by decide))
  have hy := hspans'.outward hnext'
  rw [List.concat_eq_append] at hblock
  rw [hblock] at hx hspans hlines
  rw [logicalLines_of_takesLine ht', hlines'] at hx hlines
  refine ⟨(hbetween' hrest').lined,
    (keyword :: line) :: (block ++ [last]) ++ [orElse] :: first' :: more', ?_, ?_⟩
  · rw [logicalLines_of_takesLine ht]
    simpa using hlines
  · exact hx.alternative hy hspans.deep hif hline huniform' hline' hfirst'

theorem linesBetween {level : Nat} {before after : State} {product : Product}
    (h : Derives level before product after) (hlined : Lined none before.tokens)
    (hlevel : product.Leads level before.tokens) :
    LinesBetween (product.base level) before.tokens after.tokens := by
  induction h with
  | expression ht hd hk =>
    refine .line hlined ht hlevel fun ho => ?_
    rcases ho with ⟨k, t, hhead, hkeyword⟩ | hf
    · simp [Token.isKeyword, hk t hhead] at hkeyword
    · exact hd hf.isDeclaration
  | declaration ht hd =>
    refine .line hlined ht hlevel fun ho => ?_
    rcases ho with ⟨k, hk⟩ | hf
    · obtain ⟨name, more, rfl, hkind⟩ := first_of_declares hd
      obtain ⟨_, _, -, hwords, -⟩ := hlined.takesLine ht
      exact not_beginsWith_of_identifier (hwords name List.mem_cons_self).1 hkind k hk
    · exact not_beginsFunction_of_declares hd hf
  | function ht hsig _ hbody ih =>
    refine linesBetween_of_header hlined ht hlevel ?_ hbody fun hrest => ih hrest trivial
    cases hsig with
    | mk hts =>
      obtain ⟨_, rfl, hkind⟩ := hts.first
      obtain ⟨_, _, -, hwords, -⟩ := hlined.takesLine ht
      exact not_beginsWith_of_identifier (hwords _ List.mem_cons_self).1 hkind .orElse
  | branch ht hk _ _ hbody _ ih =>
    exact linesBetween_of_header hlined ht hlevel (not_beginsWith hk (by decide)) hbody
      fun hrest => ih hrest trivial
  | alternative ht hk _ _ hbody ht' _ hl' hbody' ih ih' =>
    exact linesBetween_of_alternative hlined ht hk hlevel hbody (fun hrest => ih hrest trivial)
      ht' hl' hbody' fun hrest => ih' hrest trivial
  | whileLoop ht hk _ _ hbody ih | threePartLoop ht hk _ hbody ih | rangeLoop ht hk _ _ hbody ih =>
    exact linesBetween_of_header hlined ht hlevel (not_beginsWith hk (by decide)) hbody
      fun hrest => ih hrest trivial
  | stop => exact ⟨hlined, [], rfl, .nil⟩
  | here _ hl _ hmore ih ih' =>
    obtain ⟨hlined₁, xs, hxs, hx⟩ := ih hlined (by rintro _ ⟨⟩; exact hl)
    obtain ⟨hlined₂, ys, hys, hy⟩ := ih' hlined₁ trivial
    have hfirst := hmore.head_of_lines hlined₁
    rw [hys] at hxs hx hfirst
    exact ⟨hlined₂, xs ++ ys, by rw [hxs, List.append_assoc], hx.append hy hfirst⟩
  | deeper _ _ hblock hmore ih ih' =>
    obtain ⟨hlined₁, xs, hxs, hx⟩ := ih hlined trivial
    obtain ⟨hlined₂, ys, hys, hy⟩ := ih' hlined₁ trivial
    have hfirst := hmore.head_of_lines hlined₁
    have hx := hx.outward fun next hn =>
      Nat.succ.inj (hblock.head_behind_block hlined₁ next hn)
    rw [hys] at hxs hx hfirst
    exact ⟨hlined₂, xs ++ ys, hxs.trans (List.append_assoc ..).symm, hx.append hy hfirst⟩
  | block _ ih => exact ih hlined trivial
  | body _ _ _ ih => exact ih hlined trivial

end Derives

/-- A source text has a tree only where its lines are indented as they must be. -/
theorem compile_admissible {file source : String} {s : Scope} (h : compile file source = .ok s) :
    ∃ tokens, tokenize source file = .ok tokens ∧ Admissible (logicalLines tokens) := by
  obtain ⟨tokens, stop, symbols, next, ht, hstop, hderives⟩ := compile_derives h
  have hlined := lined_tokenize ht
  obtain ⟨-, lines, hlines, hspans⟩ := hderives.linesBetween hlined trivial
  have hend : logicalLines [stop] = [] := by simp [logicalLines, hstop]
  rw [hend, List.append_nil] at hlines
  refine ⟨tokens, ht, hlines ▸ hspans.indented, ?_⟩
  cases tokens with
  | nil => cases hlined
  | cons t ts =>
    rcases head_logicalLines hlined with ⟨-, hnil⟩ | ⟨hk, line, more, hmore, hline⟩
    · rw [hnil]
      rintro _ ⟨⟩
    · rw [hmore]
      rintro line ⟨⟩
      rcases hderives.first_of_block with h | h | h
      · exact absurd h hk
      · cases h
      · exact hline.trans h

/-- A branch and its alternative in a function, with a block that no line opens. -/
theorem compile_admissible_function :
    ∃ s tokens, compile "" "f :: ()\n    if true\n        1\n            2\n        3\n    else\n        4\n" =
        .ok s ∧
      tokenize "f :: ()\n    if true\n        1\n            2\n        3\n    else\n        4\n" "" =
        .ok tokens ∧
      (logicalLines tokens).map lineLevel = [0, 1, 2, 3, 2, 1, 2] ∧
      Admissible (logicalLines tokens) := by
  let source := "f :: ()\n    if true\n        1\n            2\n        3\n    else\n        4\n"
  have hlevels : ((tokenize source "").map fun tokens =>
      (logicalLines tokens).map lineLevel).toOption = some [0, 1, 2, 3, 2, 1, 2] := by
    decide +kernel
  have hok : (compile "" source).toOption.isSome := by decide +kernel
  cases hs : compile "" source with
  | error d => simp [hs, Except.toOption] at hok
  | ok s =>
    obtain ⟨tokens, ht, hadmissible⟩ := compile_admissible hs
    rw [ht] at hlevels
    exact ⟨s, tokens, rfl, ht, Option.some.inj hlevels, hadmissible⟩

end Offside
