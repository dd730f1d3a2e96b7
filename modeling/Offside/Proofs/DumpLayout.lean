import Offside.Compile
import Offside.Proofs.LaidOutText
import Offside.Tree.Dump

/-!
# The layout of a dump

A dump is a text of proper pieces in balanced brackets, without line feeds and without two spaces in a row. Its layout
changes nothing but spaces and line feeds outside of its literals, and indents each line by the brackets that are open,
as long as no character literal shows a bracket, a comma or a double quote.
-/

namespace Offside

set_option autoImplicit false

namespace Layout

variable {ps qs : List Piece}

/-- What may stand in brackets. -/
structure IsInside (ps : List Piece) : Prop where
  isProper : ∀ p ∈ ps, p.IsProper
  oneLine : ∀ p ∈ ps, '\n' ∉ p.text
  isSpaced : IsSpaced ps
  level : ∀ depth, depthAfter? depth ps = some depth

/-- What may also stand beside a space. -/
structure IsPart (ps : List Piece) : Prop extends IsInside ps where
  ne_nil : ps ≠ []
  first : ps.head? ≠ some (.plain ' ')
  last : ps.getLast? ≠ some (.plain ' ')

theorem isInside_nil : IsInside [] where
  isProper := List.forall_mem_nil _
  oneLine := List.forall_mem_nil _
  isSpaced := .nil
  level _ := rfl

theorem IsInside.append (hp : IsInside ps) (hq : IsInside qs)
    (hspace : ps.getLast? ≠ some (.plain ' ') ∨ qs.head? ≠ some (.plain ' ')) : IsInside (ps ++ qs) where
  isProper := List.forall_mem_append.mpr ⟨hp.isProper, hq.isProper⟩
  oneLine := List.forall_mem_append.mpr ⟨hp.oneLine, hq.oneLine⟩
  isSpaced := by
    refine List.isChain_append.mpr ⟨hp.isSpaced, hq.isSpaced, ?_⟩
    rintro x hx y hy ⟨rfl, rfl⟩
    exact hspace.elim (· hx) (· hy)
  level depth := by rw [depthAfter?_append, hp.level, Option.bind_some, hq.level]

theorem isInside_space : IsInside [.plain ' '] where
  isProper := List.forall_mem_singleton.mpr (.plain rfl)
  oneLine := List.forall_mem_singleton.mpr (by decide)
  isSpaced := .singleton _
  level _ := rfl

theorem IsPart.append (hp : IsPart ps) (hq : IsPart qs) : IsPart (ps ++ qs) where
  toIsInside := hp.toIsInside.append hq.toIsInside (.inl hp.last)
  ne_nil := List.append_ne_nil_of_left_ne_nil hp.ne_nil qs
  first := by
    rw [List.head?_append_of_ne_nil _ hp.ne_nil]
    exact hp.first
  last := by
    rw [List.getLast?_append_of_ne_nil _ hq.ne_nil]
    exact hq.last

/-- Two parts with a space between them. -/
theorem IsPart.space (hp : IsPart ps) (hq : IsPart qs) : IsPart (ps ++ .plain ' ' :: qs) where
  toIsInside := hp.toIsInside.append (isInside_space.append hq.toIsInside (.inr hq.first)) (.inl hp.last)
  ne_nil := List.append_ne_nil_of_left_ne_nil hp.ne_nil _
  first := by
    rw [List.head?_append_of_ne_nil _ hp.ne_nil]
    exact hp.first
  last := by
    rw [List.getLast?_append_of_ne_nil _ (List.cons_ne_nil _ _), ← List.singleton_append,
      List.getLast?_append_of_ne_nil _ hq.ne_nil]
    exact hq.last

/-- A part with a space on both sides. -/
theorem IsPart.spaces (hp : IsPart ps) : IsInside (.plain ' ' :: ps ++ [.plain ' ']) := by
  have hleft : IsInside (.plain ' ' :: ps) := isInside_space.append hp.toIsInside (.inr hp.first)
  refine hleft.append isInside_space (.inl ?_)
  rw [← List.singleton_append, List.getLast?_append_of_ne_nil _ hp.ne_nil]
  exact hp.last

theorem isQuote_of_isOpening {c : Char} (h : isOpening c) : isQuote c = false ∧ c ≠ '\n' ∧ c ≠ ' ' := by
  have hc : c = '\x7b' ∨ c = '(' ∨ c = '[' := by simpa [isOpening] using h
  rcases hc with rfl | rfl | rfl <;> decide

theorem isQuote_of_isClosing {c : Char} (h : isClosing c) : isQuote c = false ∧ c ≠ '\n' ∧ c ≠ ' ' := by
  have hc : c = '\x7d' ∨ c = ')' ∨ c = ']' := by simpa [isClosing] using h
  rcases hc with rfl | rfl | rfl <;> decide

theorem isOpening_of_isClosing {c : Char} (h : isClosing c) : isOpening c = false := by
  have hc : c = '\x7d' ∨ c = ')' ∨ c = ']' := by simpa [isClosing] using h
  rcases hc with rfl | rfl | rfl <;> rfl

theorem IsInside.bracketed {o c : Char} (h : IsInside ps) (ho : isOpening o) (hc : isClosing c) :
    IsPart (.plain o :: ps ++ [.plain c]) := by
  obtain ⟨hoquote, hofeed, hospace⟩ := isQuote_of_isOpening ho
  obtain ⟨hcquote, hcfeed, hcspace⟩ := isQuote_of_isClosing hc
  have hcopen := isOpening_of_isClosing hc
  refine ⟨⟨?_, ?_, ?_, fun depth => ?_⟩, List.cons_ne_nil _ _, ?_, ?_⟩
  · rw [List.cons_append, List.forall_mem_cons, List.forall_mem_append, List.forall_mem_singleton]
    exact ⟨.plain hoquote, h.isProper, .plain hcquote⟩
  · rw [List.cons_append, List.forall_mem_cons, List.forall_mem_append, List.forall_mem_singleton]
    exact ⟨by simpa [Piece.text] using Ne.symm hofeed, h.oneLine, by simpa [Piece.text] using Ne.symm hcfeed⟩
  · refine List.isChain_append.mpr ⟨List.isChain_cons.mpr ⟨?_, h.isSpaced⟩, .singleton _, ?_⟩
    · rintro q hq ⟨heq, -⟩
      exact hospace (Piece.plain.inj heq)
    · rintro q hq r hr ⟨-, rfl⟩
      exact hcspace (by simpa using hr)
  · have hclosed : depthAfter? (depth + 1) [.plain c] = some depth := by simp [depthAfter?, hcopen, hc]
    have hopened : depthAfter? depth (.plain o :: (ps ++ [.plain c])) = depthAfter? (depth + 1) (ps ++ [.plain c]) := by
      simp [depthAfter?, ho]
    rw [List.cons_append, hopened, depthAfter?_append, h.level, Option.bind_some, hclosed]
  · exact fun heq => hospace (by simpa using heq)
  · rw [List.getLast?_append_of_ne_nil _ (List.cons_ne_nil _ _)]
    exact fun heq => hcspace (by simpa using heq)

/-- What the words of a dump are made of; a colon or a comma stands at the end of one. -/
def isWordChar (c : Char) : Bool := c.isAlphanum || ['_', '-', '.', ':', ','].contains c

theorem isPart_char {c : Char} (h : isWordChar c) : IsPart [.plain c] := by
  have hne (d : Char) (hd : isWordChar d = false) : c ≠ d := by
    rintro rfl
    exact Bool.false_ne_true (hd.symm.trans h)
  have hquote : isQuote c = false := by
    simp [isQuote, hne '"' (by decide), hne '\'' (by decide)]
  have hopen : isOpening c = false := by
    simp [isOpening, hne '\x7b' (by decide), hne '(' (by decide), hne '[' (by decide)]
  have hclose : isClosing c = false := by
    simp [isClosing, hne '\x7d' (by decide), hne ')' (by decide), hne ']' (by decide)]
  have hspace : Piece.plain c ≠ .plain ' ' := fun heq => hne ' ' (by decide) (Piece.plain.inj heq)
  exact {
    isProper := List.forall_mem_singleton.mpr (.plain hquote)
    oneLine := List.forall_mem_singleton.mpr (by simpa [Piece.text] using Ne.symm (hne '\n' (by decide)))
    isSpaced := .singleton _
    level := fun depth => depthAfter?_plain hopen hclose depth []
    ne_nil := List.cons_ne_nil _ _
    first := fun heq => hspace (Option.some.inj heq)
    last := fun heq => hspace (Option.some.inj heq) }

theorem isPart_word {cs : List Char} (hne : cs ≠ []) (h : ∀ c ∈ cs, isWordChar c) : IsPart (cs.map .plain) := by
  induction cs with
  | nil => exact absurd rfl hne
  | cons c cs ih =>
    obtain ⟨hc, hcs⟩ := List.forall_mem_cons.mp h
    by_cases hlast : cs = []
    · subst hlast
      exact isPart_char hc
    · exact (isPart_char hc).append (ih hlast hcs)

theorem textOf_map_plain (cs : List Char) : textOf (cs.map .plain) = cs := by
  induction cs with
  | nil => rfl
  | cons c cs ih => rw [List.map_cons, textOf_cons, ih]; rfl

theorem isPart_literal {quote : Char} {body : List Char} (hquote : isQuote quote) (h : IsBody quote body)
    (hfeed : '\n' ∉ body) : IsPart [.literal (quote :: body ++ [quote])] := by
  have hq : quote ≠ '\n' := by
    rintro rfl
    exact absurd hquote (by decide)
  exact {
    isProper := List.forall_mem_singleton.mpr (.literal hquote h)
    oneLine := List.forall_mem_singleton.mpr (by simp [Piece.text, hfeed, Ne.symm hq])
    isSpaced := .singleton _
    level := fun _ => rfl
    ne_nil := List.cons_ne_nil _ _
    first := nofun
    last := nofun }

end Layout

/-! ## Texts in quotes -/

namespace Text

open Layout (isQuote IsBody)

theorem mem_toDigits {c : Char} {base n : Nat} (hbase : 1 < base) (h : c ∈ Nat.toDigits base n) :
    ∃ k, c = Nat.digitChar k := by
  induction n using Nat.strongRecOn with
  | ind n ih =>
    rw [Nat.toDigits_eq_if hbase] at h
    split at h
    · exact ⟨n, List.mem_singleton.mp h⟩
    · next hlt =>
      rcases List.mem_append.mp h with h | h
      · exact ih (n / base) (Nat.div_lt_self (by omega) hbase) h
      · exact ⟨n % base, List.mem_singleton.mp h⟩

variable {quote : Char}

theorem isBody_of_forall {cs : List Char} (h : ∀ c ∈ cs, c ≠ '\\' ∧ c ≠ quote) : IsBody quote cs := by
  induction cs with
  | nil => exact .nil
  | cons c cs ih =>
    obtain ⟨⟨hescape, hquote⟩, hcs⟩ := List.forall_mem_cons.mp h
    exact .other hescape hquote (ih hcs)

theorem isBody_codePoint (hquote : isQuote quote) (c : Char) :
    IsBody quote (codePoint c) ∧ '\n' ∉ codePoint c := by
  have hq : quote = '"' ∨ quote = '\'' := by simpa [isQuote] using hquote
  have hother : ∀ d ∈ '\x7b' :: hexadecimal c.toNat ++ ['\x7d'], d ≠ '\\' ∧ d ≠ quote ∧ d ≠ '\n' := by
    rw [List.cons_append, List.forall_mem_cons, List.forall_mem_append, List.forall_mem_singleton]
    refine ⟨?_, fun d hd => ?_, ?_⟩
    · rcases hq with rfl | rfl <;> decide
    · obtain ⟨k, rfl⟩ := mem_toDigits (by decide) hd
      rcases hq with rfl | rfl
      · exact ⟨Nat.digitChar_ne _ (by decide), Nat.digitChar_ne _ (by decide), Nat.digitChar_ne _ (by decide)⟩
      · exact ⟨Nat.digitChar_ne _ (by decide), Nat.digitChar_ne _ (by decide), Nat.digitChar_ne _ (by decide)⟩
    · rcases hq with rfl | rfl <;> decide
  have hcode : codePoint c = '\\' :: 'u' :: ('\x7b' :: hexadecimal c.toNat ++ ['\x7d']) := rfl
  rw [hcode]
  refine ⟨.escape (isBody_of_forall fun d hd => ⟨(hother d hd).1, (hother d hd).2.1⟩), ?_⟩
  rw [List.mem_cons, List.mem_cons, not_or, not_or]
  exact ⟨by decide, by decide, fun hmem => (hother _ hmem).2.2 rfl⟩

/-- No character is shown by a quote that would end its literal, and none by a line feed. -/
theorem isBody_escaped (hquote : isQuote quote) (c : Char) :
    IsBody quote (escaped quote c) ∧ '\n' ∉ escaped quote c := by
  unfold escaped
  split_ifs with hzero htab hreturn hfeed hself hshown
  · exact ⟨.escape .nil, by decide⟩
  · exact ⟨.escape .nil, by decide⟩
  · exact ⟨.escape .nil, by decide⟩
  · exact ⟨.escape .nil, by decide⟩
  · exact ⟨.escape .nil, by simp [Ne.symm hfeed]⟩
  · rw [not_or] at hself
    exact ⟨.other hself.1 hself.2 .nil, by simpa using Ne.symm hfeed⟩
  · exact isBody_codePoint hquote c

theorem isBody_flatMap (hquote : isQuote quote) (cs : List Char) :
    IsBody quote (cs.flatMap (escaped quote)) ∧ '\n' ∉ cs.flatMap (escaped quote) := by
  induction cs with
  | nil => exact ⟨.nil, List.not_mem_nil⟩
  | cons c cs ih =>
    obtain ⟨hbody, hfeed⟩ := isBody_escaped hquote c
    rw [List.flatMap_cons, List.mem_append, not_or]
    exact ⟨hbody.append ih.1, hfeed, ih.2⟩

end Text

/-! ## Parts of a dump -/

namespace Dump

open Layout (IsPart IsInside Piece textOf isWordChar)
open Text (quoted quotedChar)

/-- A text that may stand for a value in a dump. -/
def IsShown (text : String) : Prop := ∃ ps, IsPart ps ∧ text.toList = textOf ps

variable {name inside text more : String} {parts : List String}

/-- Characters that make a word. -/
def IsWord (cs : List Char) : Prop := cs ≠ [] ∧ ∀ c ∈ cs, isWordChar c

theorem forall_isWordChar {cs : List Char} (h : cs.all isWordChar) : ∀ c ∈ cs, isWordChar c := List.all_eq_true.mp h

theorem isShown_word (h : IsWord text.toList) : IsShown text :=
  ⟨text.toList.map .plain, Layout.isPart_word h.1 h.2, (Layout.textOf_map_plain _).symm⟩

theorem isShown_ofList {cs : List Char} (h : IsWord cs) : IsShown (String.ofList cs) :=
  isShown_word (by rwa [String.toList_ofList])

/-- The names that a dump gives to its parts. -/
def IsName (name : String) : Bool := name ≠ "" && name.toList.all isWordChar

theorem isShown_name (h : IsName name) : IsShown name := by
  rw [IsName, Bool.and_eq_true, decide_eq_true_eq, List.all_eq_true] at h
  exact isShown_word ⟨by simpa using h.1, h.2⟩

theorem IsShown.append (h : IsShown text) (hmore : IsShown more) : IsShown (text ++ more) := by
  obtain ⟨ps, hps, htext⟩ := h
  obtain ⟨qs, hqs, hmore⟩ := hmore
  exact ⟨ps ++ qs, hps.append hqs, by rw [String.toList_append, htext, hmore, Layout.textOf_append]⟩

theorem IsShown.space (h : IsShown text) (hmore : IsShown more) : IsShown (text ++ " " ++ more) := by
  obtain ⟨ps, hps, htext⟩ := h
  obtain ⟨qs, hqs, hmore⟩ := hmore
  refine ⟨ps ++ .plain ' ' :: qs, hps.space hqs, ?_⟩
  rw [String.toList_append, String.toList_append, htext, hmore, Layout.textOf_append, Layout.textOf_cons,
    List.append_assoc]
  rfl

/-- A text that may stand in brackets. -/
def IsEnclosed (text : String) : Prop := ∃ ps, IsInside ps ∧ text.toList = textOf ps

theorem isEnclosed_empty : IsEnclosed "" := ⟨[], Layout.isInside_nil, rfl⟩

theorem IsShown.isEnclosed (h : IsShown text) : IsEnclosed text := by
  obtain ⟨ps, hps, htext⟩ := h
  exact ⟨ps, hps.toIsInside, htext⟩

theorem IsShown.spaces (h : IsShown text) : IsEnclosed (" " ++ text ++ " ") := by
  obtain ⟨ps, hps, htext⟩ := h
  refine ⟨_, hps.spaces, ?_⟩
  rw [String.toList_append, String.toList_append, htext, Layout.textOf_append]
  rfl

theorem IsEnclosed.bracketed {o c : String} (h : IsEnclosed text)
    (ho : ∃ x, Layout.isOpening x ∧ o.toList = [x]) (hc : ∃ x, Layout.isClosing x ∧ c.toList = [x]) :
    IsShown (o ++ text ++ c) := by
  obtain ⟨ps, hps, htext⟩ := h
  obtain ⟨x, hx, ho⟩ := ho
  obtain ⟨y, hy, hc⟩ := hc
  refine ⟨_, hps.bracketed hx hy, ?_⟩
  rw [String.toList_append, String.toList_append, htext, ho, hc, Layout.textOf_append]
  rfl

theorem IsEnclosed.braced (h : IsEnclosed text) : IsShown (Dump.braced text) :=
  h.bracketed ⟨'\x7b', rfl, rfl⟩ ⟨'\x7d', rfl, rfl⟩

theorem IsShown.tagged (h : IsShown inside) (hname : IsName name) : IsShown (Dump.tagged name inside) := by
  have hbrackets := h.isEnclosed.bracketed (o := "(") (c := ")") ⟨'(', rfl, rfl⟩ ⟨')', rfl, rfl⟩
  have htagged := (isShown_name hname).append hbrackets
  rwa [← String.append_assoc, ← String.append_assoc] at htagged

theorem isShown_commas (hne : parts ≠ []) (h : ∀ s ∈ parts, IsShown s) : IsShown (commas parts) := by
  induction parts with
  | nil => exact absurd rfl hne
  | cons s parts ih =>
    obtain ⟨hs, hparts⟩ := List.forall_mem_cons.mp h
    cases parts with
    | nil => rwa [commas, String.intercalate_singleton]
    | cons s' parts =>
      have hcomma : IsShown (s ++ ",") := hs.append (isShown_name (by decide))
      have hsplit : ", " = "," ++ " " := by decide
      rw [commas, String.intercalate_cons_cons, hsplit, ← String.append_assoc]
      exact hcomma.space (ih (List.cons_ne_nil _ _) hparts)

theorem isEnclosed_commas (h : ∀ s ∈ parts, IsShown s) : IsEnclosed (commas parts) := by
  by_cases hne : parts = []
  · subst hne
    exact isEnclosed_empty
  · exact (isShown_commas hne h).isEnclosed

theorem isShown_list (h : ∀ s ∈ parts, IsShown s) : IsShown (list parts) :=
  (isEnclosed_commas h).bracketed ⟨'[', rfl, rfl⟩ ⟨']', rfl, rfl⟩

theorem IsShown.field (h : IsShown text) (hname : IsShown name) : IsShown (Dump.field name text) := by
  have hcolon : IsShown (name ++ ":") := hname.append (isShown_name (by decide))
  have hsplit : ": " = ":" ++ " " := by decide
  rw [Dump.field, hsplit, ← String.append_assoc]
  exact hcolon.space h

theorem IsShown.named (h : IsShown text) (hname : IsName name) : IsShown (Dump.field name text) :=
  h.field (isShown_name hname)

/-- A record has at least one part. -/
theorem isShown_record {first : String} (hname : IsName name) (h : ∀ s ∈ first :: parts, IsShown s) :
    IsShown (record name (first :: parts)) :=
  (isShown_name hname).space (isShown_commas (List.cons_ne_nil first parts) h).spaces.braced

/-! ### Values -/

theorem isWordChar_of_isDigit {c : Char} (h : c.isDigit) : isWordChar c := by
  simp [isWordChar, Char.isAlphanum, h]

theorem isWord_toDigits (n : Nat) : IsWord (Nat.toDigits 10 n) :=
  ⟨Nat.toDigits_ne_nil, fun _ hc => isWordChar_of_isDigit (Nat.isDigit_of_mem_toDigits (by decide) (by decide) hc)⟩

theorem isShown_nat (n : Nat) : IsShown (toString n) := by
  rw [Nat.toString_eq_ofList_toDigits]
  exact isShown_ofList (isWord_toDigits n)

theorem isWord_int (n : Int) : IsWord (toString n).toList := by
  cases n with
  | ofNat n =>
    have htext : toString (Int.ofNat n) = toString n := rfl
    rw [htext, Nat.toString_eq_ofList_toDigits, String.toList_ofList]
    exact isWord_toDigits n
  | negSucc n =>
    have htext : toString (Int.negSucc n) = String.ofList ('-' :: Nat.toDigits 10 (n + 1)) := by
      have hsign : toString (Int.negSucc n) = "-" ++ toString (n + 1) := rfl
      rw [hsign, Nat.toString_eq_ofList_toDigits]
      exact String.toList_inj.mp (by simp)
    rw [htext, String.toList_ofList]
    exact ⟨List.cons_ne_nil _ _, List.forall_mem_cons.mpr ⟨rfl, (isWord_toDigits _).2⟩⟩

theorem isShown_boolean (b : Bool) : IsShown (boolean b) := by
  cases b <;> exact isShown_name (by decide)

theorem isShown_title (t : DataType) : IsShown t.title := by
  cases t <;> exact isShown_name (by decide)

theorem isShown_operator (o : Operator) : IsShown o.name := by
  cases o <;> exact isShown_name (by decide)

theorem isShown_enclosed {quote : Char} (hquote : Layout.isQuote quote) (cs : List Char) :
    IsShown (Text.enclosed quote cs) := by
  obtain ⟨hbody, hfeed⟩ := Text.isBody_flatMap hquote cs
  refine ⟨_, Layout.isPart_literal hquote hbody hfeed, ?_⟩
  rw [Text.enclosed, String.toList_ofList]
  simp [Piece.text]

theorem isShown_quoted (s : String) : IsShown (quoted s) := isShown_enclosed rfl s.toList

theorem isShown_quotedChar (c : Char) : IsShown (quotedChar c) := isShown_enclosed rfl [c]

theorem isWord_signed (sign : Float.Model.UnpackedFloat.Sign) {cs : List Char} (h : IsWord cs) :
    IsWord (Floating.signed sign cs) := by
  cases sign with
  | positive => exact h
  | negative => exact ⟨List.cons_ne_nil _ _, List.forall_mem_cons.mpr ⟨rfl, h.2⟩⟩

theorem isWordChar_digits (d : Floating.Decimal) : ∀ c ∈ d.digits.1, isWordChar c := by
  intro c hc
  have hmem : c ∈ Nat.toDigits 10 d.significand := by
    rw [Floating.Decimal.digits, List.mem_reverse] at hc
    exact List.mem_reverse.mp ((List.dropWhile_sublist _).subset hc)
  exact (isWord_toDigits _).2 c hmem

theorem isWord_positional {digits : List Char} (h : ∀ c ∈ digits, isWordChar c) (point : Int) :
    IsWord (Floating.positional digits point) := by
  have hzeros (n : Nat) : ∀ c ∈ List.replicate n '0', isWordChar c := by
    intro c hc
    obtain rfl := List.eq_of_mem_replicate hc
    rfl
  unfold Floating.positional
  split_ifs with hsmall hinside
  · refine ⟨by simp, ?_⟩
    rw [List.forall_mem_append, List.forall_mem_append]
    exact ⟨⟨forall_isWordChar rfl, hzeros _⟩, h⟩
  · refine ⟨by simp, ?_⟩
    rw [List.forall_mem_append, List.forall_mem_append]
    exact ⟨⟨fun c hc => h c (List.mem_of_mem_take hc), forall_isWordChar rfl⟩,
      fun c hc => h c (List.mem_of_mem_drop hc)⟩
  · refine ⟨by simp, ?_⟩
    rw [List.forall_mem_append, List.forall_mem_append]
    exact ⟨⟨h, hzeros _⟩, forall_isWordChar rfl⟩

theorem isWord_exponential {digits : List Char} (h : ∀ c ∈ digits, isWordChar c) (point : Int) :
    IsWord (Floating.exponential digits point) := by
  unfold Floating.exponential
  refine ⟨by simp, ?_⟩
  simp only [List.forall_mem_append]
  refine ⟨⟨⟨fun c hc => h c (List.mem_of_mem_take hc), ?_⟩, forall_isWordChar rfl⟩, (isWord_int _).2⟩
  split_ifs
  · exact List.forall_mem_nil _
  · exact List.forall_mem_cons.mpr ⟨rfl, fun c hc => h c (List.mem_of_mem_drop hc)⟩

theorem isShown_floating (format : Float.Model.Format) (x : Float.Model.UnpackedFloat) :
    IsShown (Floating.toText format x) := by
  cases x with
  | notANumber => exact isShown_name (by decide : IsName "NaN")
  | infinity sign => exact isShown_ofList (isWord_signed sign ⟨List.cons_ne_nil _ _, forall_isWordChar rfl⟩)
  | zero sign => exact isShown_ofList (isWord_signed sign ⟨List.cons_ne_nil _ _, forall_isWordChar rfl⟩)
  | finite sign m q hm =>
    unfold Floating.toText
    dsimp only
    refine isShown_ofList (isWord_signed sign ?_)
    split_ifs
    · exact isWord_positional (isWordChar_digits _) _
    · exact isWord_exponential (isWordChar_digits _) _

/-! ### Records -/

theorem isShown_location (l : Location) : IsShown (location l) := by
  refine isShown_record rfl ?_
  simp only [List.forall_mem_cons]
  exact ⟨(isShown_quoted _).named rfl, (isShown_nat _).named rfl, (isShown_nat _).named rfl, List.forall_mem_nil _⟩

theorem isShown_value (v : Value) : IsShown (value v) := by
  cases v with
  | boolean b => exact (isShown_boolean b).tagged rfl
  | int n => exact (isShown_word (isWord_int n.toInt)).tagged rfl
  | float x => exact (isShown_floating _ _).tagged rfl
  | double x => exact (isShown_floating _ _).tagged rfl
  | char c => exact (isShown_quotedChar c).tagged rfl
  | string s => exact (isShown_quoted s).tagged rfl

theorem isShown_literal (l : Literal) : IsShown (literal l) := by
  refine isShown_record rfl ?_
  simp only [List.forall_mem_cons]
  exact ⟨(isShown_value _).named rfl, (isShown_location _).named rfl, List.forall_mem_nil _⟩

theorem isShown_var (v : Variable) : IsShown (var v) := by
  refine isShown_record rfl ?_
  simp only [List.forall_mem_cons]
  exact ⟨(isShown_quoted _).named rfl, (isShown_title _).named rfl, (isShown_boolean _).named rfl,
    (isShown_location _).named rfl, List.forall_mem_nil _⟩

theorem isShown_constant (c : Constant) : IsShown (constant c) := by
  refine isShown_record rfl ?_
  simp only [List.forall_mem_cons]
  exact ⟨(isShown_quoted _).named rfl, (isShown_title _).named rfl, (isShown_location _).named rfl,
    List.forall_mem_nil _⟩

theorem isShown_function (f : Function) (h : IsShown text) : IsShown (function f text) := by
  refine isShown_record rfl ?_
  simp only [List.forall_mem_cons]
  exact ⟨(isShown_quoted _).named rfl, h.named rfl, (isShown_title _).named rfl, (isShown_location _).named rfl,
    isShown_name rfl, List.forall_mem_nil _⟩

theorem isShown_reference (f : Function) : IsShown (reference f) := by
  have hweak : IsShown "(Weak)" :=
    (isShown_name (rfl : IsName "Weak")).isEnclosed.bracketed (o := "(") (c := ")")
      ⟨'(', rfl, rfl⟩ ⟨')', rfl, rfl⟩
  refine isShown_record rfl ?_
  simp only [List.forall_mem_cons]
  exact ⟨hweak.named rfl, (isShown_quoted _).named rfl, (isShown_title _).named rfl, (isShown_location _).named rfl,
    List.forall_mem_nil _⟩

/-- What the functions of a block have as parameters. -/
theorem isShown_entry {parameters : List (FunctionId × String)} (h : ∀ p ∈ parameters, IsShown p.2)
    (i : Identifier) :
    IsShown (entry parameters i) := by
  refine IsShown.field ?_ (isShown_quoted _)
  cases i with
  | var v => exact (isShown_var v).tagged rfl
  | constant c => exact (isShown_constant c).tagged rfl
  | function f =>
    refine (isShown_function f ?_).tagged rfl
    cases hlookup : parameters.lookup f.id with
    | none => exact isShown_list (List.forall_mem_nil _)
    | some text =>
      obtain ⟨front, back, rfl, -⟩ := List.lookup_eq_some_iff.mp hlookup
      exact h (f.id, text) (List.mem_append_right _ List.mem_cons_self)

end Dump

open Dump

variable (order : Frame → Frame)

mutual

theorem Node.isShown_dump : (n : Node) → IsShown (n.dump order)
  | .literal l => (isShown_literal l).tagged rfl
  | .var v => (isShown_var v).tagged rfl
  | .constant c => (isShown_constant c).tagged rfl
  | .function f parameters _ => (isShown_function f (isShown_list (Node.isShown_dumpAll parameters))).tagged rfl
  | .reference f => (isShown_reference f).tagged rfl
  | .unary o operand l => by
    have hoperand := operand.isShown_dump
    refine (isShown_record rfl ?_).tagged rfl
    simp only [List.forall_mem_cons]
    exact ⟨(isShown_operator o).named rfl, hoperand.named rfl, (isShown_location l).named rfl,
      List.forall_mem_nil _⟩
  | .binary o left right l => by
    have hleft := left.isShown_dump
    have hright := right.isShown_dump
    refine (isShown_record rfl ?_).tagged rfl
    simp only [List.forall_mem_cons]
    exact ⟨(isShown_operator o).named rfl, hleft.named rfl, hright.named rfl, (isShown_location l).named rfl,
      List.forall_mem_nil _⟩
  | .scope s => s.isShown_dump.tagged rfl
  | .branch condition consequence alternative l => by
    have hcondition := condition.isShown_dump
    have hconsequence := consequence.isShown_dump
    have halternative := Scope.isShown_dumpOption alternative
    refine (isShown_record rfl ?_).tagged rfl
    simp only [List.forall_mem_cons]
    exact ⟨hcondition.named rfl, hconsequence.named rfl, halternative.named rfl, (isShown_location l).named rfl,
      List.forall_mem_nil _⟩
  | .whileLoop condition body l => by
    have hcondition := condition.isShown_dump
    have hbody := body.isShown_dump
    refine (isShown_record rfl ?_).tagged rfl
    simp only [List.forall_mem_cons]
    exact ⟨hcondition.named rfl, hbody.named rfl, (isShown_location l).named rfl, List.forall_mem_nil _⟩
  | .forLoop init condition increment body l => by
    have hinit := Node.isShown_dumpOption init
    have hcondition := Node.isShown_dumpOption condition
    have hincrement := Node.isShown_dumpOption increment
    have hbody := body.isShown_dump
    refine (isShown_record rfl ?_).tagged rfl
    simp only [List.forall_mem_cons]
    exact ⟨hinit.named rfl, hcondition.named rfl, hincrement.named rfl, hbody.named rfl,
      (isShown_location l).named rfl, List.forall_mem_nil _⟩
  | .rangeLoop range body l => by
    have hrange := range.isShown_dump
    have hbody := body.isShown_dump
    refine (isShown_record rfl ?_).tagged rfl
    simp only [List.forall_mem_cons]
    exact ⟨hrange.named rfl, hbody.named rfl, (isShown_location l).named rfl, List.forall_mem_nil _⟩

theorem Node.isShown_dumpAll : (ns : List Node) → ∀ s ∈ Node.dumpAll order ns, IsShown s
  | [] => List.forall_mem_nil _
  | n :: ns => List.forall_mem_cons.mpr ⟨n.isShown_dump, Node.isShown_dumpAll ns⟩

theorem Node.isShown_dumpOption : (n : Option Node) → IsShown (Node.dumpOption order n)
  | none => (isShown_name rfl : IsShown "None")
  | some n => n.isShown_dump.tagged rfl

theorem Node.isShown_parametersIn : (ns : List Node) → ∀ p ∈ Node.parametersIn order ns, IsShown p.2
  | [] => List.forall_mem_nil _
  | n :: ns => by
    have hns := Node.isShown_parametersIn ns
    cases n with
    | function f parameters body =>
      exact List.forall_mem_cons.mpr ⟨isShown_list (Node.isShown_dumpAll parameters), hns⟩
    | _ => exact hns

theorem Scope.isShown_dump : (s : Scope) → IsShown (s.dump order)
  | ⟨statements, frame⟩ => by
    have hstatements := Node.isShown_dumpAll statements
    have hparameters := Node.isShown_parametersIn statements
    have hentries : ∀ s ∈ (order frame).map (entry (Node.parametersIn order statements)), IsShown s := by
      intro s hs
      obtain ⟨i, -, rfl⟩ := List.mem_map.mp hs
      exact isShown_entry hparameters i
    refine isShown_record rfl ?_
    simp only [List.forall_mem_cons]
    exact ⟨(isShown_list hstatements).named rfl, (isEnclosed_commas hentries).braced.named rfl,
      List.forall_mem_nil _⟩

theorem Scope.isShown_dumpOption : (s : Option Scope) → IsShown (Scope.dumpOption order s)
  | none => (isShown_name rfl : IsShown "None")
  | some s => s.isShown_dump.tagged rfl

end

/-! ## The layout of a tree -/

open Layout (Piece pieces indented isMark depthAfter? IsIndented)

/-- The brace at the end of a dump is no part of a literal. -/
theorem Scope.exists_pieces (s : Scope) :
    ∃ ps, Layout.IsPart (ps ++ [.plain '\x7d']) ∧
      (s.dump order).toList = Layout.textOf (ps ++ [.plain '\x7d']) := by
  obtain ⟨qs, hqs, htext⟩ := s.isShown_dump order
  obtain ⟨front, hfront⟩ : ∃ front, (s.dump order).toList = front ++ ['\x7d'] := by
    obtain ⟨statements, frame⟩ := s
    rw [Scope.dump, record, braced]
    simp only [String.toList_append]
    exact ⟨_, (List.append_assoc _ _ _).symm⟩
  obtain ⟨ps, p, rfl⟩ := (List.eq_nil_or_concat' qs).resolve_left hqs.ne_nil
  suffices hp : p = .plain '\x7d' from ⟨ps, hp ▸ hqs, hp ▸ htext⟩
  have hlast : front ++ ['\x7d'] = Layout.textOf ps ++ p.text := by
    rw [← hfront, htext, Layout.textOf_append, Layout.textOf_cons, Layout.textOf_nil, List.append_nil]
  cases hqs.isProper p (List.mem_append_right _ List.mem_cons_self) with
  | @plain c hc =>
    obtain ⟨-, hc⟩ := List.append_inj' hlast rfl
    rw [List.cons.inj hc |>.1]
  | @literal quote body hquote hbody =>
    rw [Piece.text, ← List.append_assoc] at hlast
    obtain ⟨-, hc⟩ := List.append_inj' hlast rfl
    obtain rfl : '\x7d' = quote := (List.cons.inj hc).1
    exact absurd hquote (by decide)

/--
If no character literal of the dump shows a bracket, a comma or a double quote, the layout of a tree has the literals of
the dump, each in one line, and everything else but for spaces and line feeds; each of its lines is indented by the
brackets that are open, and the last is the brace that closes the first one. Frames may show their names in any order.
-/
theorem indented_dump (tree : Scope)
    (h : ∀ text, .literal text ∈ pieces (tree.dump order) → text.head? = some '\'' →
      ∀ c ∈ text, isMark c = false) :
    (pieces (indented (tree.dump order))).filter Piece.isSolid =
        (pieces (tree.dump order)).filter Piece.isSolid ∧
      (∀ text, .literal text ∈ pieces (tree.dump order) →
        '\n' ∉ text ∧ .literal text ∈ pieces (indented (tree.dump order))) ∧
      IsIndented 0 (pieces (indented (tree.dump order))) ∧
      depthAfter? 0 (pieces (indented (tree.dump order))) = some 0 ∧
      ∃ before, pieces (indented (tree.dump order)) = before ++ [.plain '\n', .plain '\x7d'] := by
  obtain ⟨ps, hps, htext⟩ := tree.exists_pieces order
  have hdump : pieces (tree.dump order) = ps ++ [.plain '\x7d'] := by
    rw [pieces, htext]
    exact Layout.piecesFrom_textOf hps.isProper
  have hseen : ∀ p ∈ ps ++ [.plain '\x7d'], p.IsSeen := by
    intro p hp
    rw [← hdump] at hp
    cases p with
    | plain c => trivial
    | literal text => exact h text hp
  rw [Layout.pieces_indented htext hps.isProper hseen, hdump]
  have hsolid := Layout.filter_laidOut 0 false (ps ++ [.plain '\x7d'])
  refine ⟨hsolid, fun text hmem => ⟨hps.oneLine _ hmem, ?_⟩, ?_, ?_, ?_⟩
  · have hin : Piece.literal text ∈ (ps ++ [Piece.plain '\x7d']).filter Piece.isSolid :=
      List.mem_filter.mpr ⟨hmem, rfl⟩
    rw [← hsolid] at hin
    exact (List.mem_filter.mp hin).1
  · refine Layout.isIndented_laidOut (fun hmem : Piece.plain '\n' ∈ _ => ?_) hps.isSpaced (hps.level 0)
    exact hps.oneLine _ hmem List.mem_cons_self
  · rw [Layout.depthAfter?_laidOut, hps.level]
  · exact Layout.laidOut_closing rfl rfl (hps.level 0)

/-- An apostrophe is shown without a mark. -/
theorem indented_dump_apostrophe :
    ∃ tree, compile "" "'\\''" = .ok tree ∧
      (∀ text, .literal text ∈ pieces (tree.dump Frame.sorted) → text.head? = some '\'' →
        ∀ c ∈ text, isMark c = false) ∧
      .literal ['\'', '\\', '\'', '\''] ∈ pieces (indented (tree.dump Frame.sorted)) := by
  have hok : ((compile "" "'\\''").map fun tree : Scope =>
      decide ((∀ p ∈ pieces (tree.dump Frame.sorted), p.IsSeen) ∧
        .literal ['\'', '\\', '\'', '\''] ∈ pieces (tree.dump Frame.sorted))).toOption = some true := by
    decide +kernel
  cases htree : compile "" "'\\''" with
  | error d => simp [htree, Except.map, Except.toOption] at hok
  | ok tree =>
    simp only [htree, Except.map, Except.toOption, Option.some.injEq, decide_eq_true_eq] at hok
    obtain ⟨hseen, hmem⟩ := hok
    have hmarks : ∀ text, .literal text ∈ pieces (tree.dump Frame.sorted) → text.head? = some '\'' →
        ∀ c ∈ text, isMark c = false :=
      fun text htext => hseen _ htext
    exact ⟨tree, rfl, hmarks, ((indented_dump Frame.sorted tree hmarks).2.1 _ hmem).2⟩

/-- A comma between single quotes is taken for one that ends a part, and its literal is broken. -/
theorem indented_breaks_character :
    ∃ tree, compile "test.ic" "','" = .ok tree ∧
      .literal ['\'', ',', '\''] ∈ pieces (tree.dump Frame.sorted) ∧
      .literal ['\'', ',', '\''] ∉ pieces (indented (tree.dump Frame.sorted)) := by
  have hok : ((compile "test.ic" "','").map fun tree =>
      decide (.literal ['\'', ',', '\''] ∈ pieces (tree.dump Frame.sorted) ∧
        .literal ['\'', ',', '\''] ∉
          Layout.piecesFrom none (Layout.run (tree.dump Frame.sorted).toList).written.reverse)).toOption =
      some true := by
    decide +kernel
  cases htree : compile "test.ic" "','" with
  | error d => simp [htree, Except.map, Except.toOption] at hok
  | ok tree =>
    simp only [htree, Except.map, Except.toOption, Option.some.injEq, decide_eq_true_eq] at hok
    refine ⟨tree, rfl, hok.1, ?_⟩
    rw [pieces, indented, String.toList_ofList]
    exact hok.2

end Offside
