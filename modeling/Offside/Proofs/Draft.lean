import Mathlib.Data.List.TakeWhile
import Offside.Proofs.Phrase

/-!
# Reading a phrase from left to right

A draft is what the tokens read so far come to: the operators and parentheses that wait for what
follows, and the last phrase. Reading accepts exactly the tokens of the phrases that the grammar allows,
and the phrase that it ends with is the only one of them that keeps to precedence and associativity.
-/

namespace Offside

set_option autoImplicit false

/-- Something that waits for the phrase behind it. -/
inductive Waiting where
  | parenthesis (t : Token)
  | before (t : Token) (o : Operator)
  | between (left : Phrase) (t : Token) (o : Operator)

namespace Waiting

def operator : Waiting → Operator
  | parenthesis _ => .openParenthesis
  | before _ o | between _ _ o => o

def tokens : Waiting → List Token
  | parenthesis t | before t _ => [t]
  | between left t _ => left.tokens ++ [t]

/-- An operator with its right operand. A parenthesis is not an operator and has none. -/
def fill : Waiting → Phrase → Phrase
  | parenthesis _, p => p
  | before t o, p => .before t o p
  | between left t o, p => .between left t o p

def IsParenthesis (w : Waiting) : Prop := w.operator = .openParenthesis

instance (w : Waiting) : Decidable w.IsParenthesis := inferInstanceAs (Decidable (_ = _))

end Waiting

/-- The innermost of those that wait comes first. -/
structure Draft where
  waiting : List Waiting
  last : Option Phrase

namespace Draft

def start : Draft := ⟨[], none⟩

/-- The operators at the top of `ws` take the phrase behind them as long as `ready` holds. -/
def settle (ready : Operator → Bool) : List Waiting → Phrase → List Waiting × Phrase
  | [], p => ([], p)
  | w :: ws, p => if ready w.operator then settle ready ws (w.fill p) else (w :: ws, p)

def notParenthesis (o : Operator) : Bool := o ≠ .openParenthesis

/-- How a token continues a draft. -/
inductive Take (symbols : SymbolTable) (t : Token) : Draft → Draft → Prop where
  | operand {ws : List Waiting} {n : Node} : IsOperand symbols t n →
      Take symbols t ⟨ws, none⟩ ⟨ws, some (.operand t n)⟩
  | opening {ws : List Waiting} : t.isDelimiter "(" →
      Take symbols t ⟨ws, none⟩ ⟨.parenthesis t :: ws, none⟩
  | before {ws : List Waiting} {o : Operator} : t.isOperator o.symbol → o.standsBefore →
      Take symbols t ⟨ws, none⟩ ⟨.before t o :: ws, none⟩
  | closing {ws rest : List Waiting} {p q : Phrase} {a : Token} : t.isDelimiter ")" →
      settle notParenthesis ws p = (.parenthesis a :: rest, q) →
      Take symbols t ⟨ws, some p⟩ ⟨rest, some (.enclosed a q t)⟩
  | behind {ws : List Waiting} {name : Token} {v : Variable} {o : Operator} :
      t.isOperator o.symbol → o.standsBehind →
      Take symbols t ⟨ws, some (.operand name (.var v))⟩ ⟨ws, some (.behind name v t o)⟩
  | between {ws rest : List Waiting} {p q : Phrase} {o : Operator} : t.isOperator o.symbol →
      o.standsBetween → settle (Expression.bindsBefore o) ws p = (rest, q) →
      Take symbols t ⟨ws, some p⟩ ⟨.between q t o :: rest, none⟩

inductive Reads (symbols : SymbolTable) : Draft → List Token → Draft → Prop where
  | nil (d : Draft) : Reads symbols d [] d
  | cons {d d₁ d₂ : Draft} {t : Token} {ts : List Token} : Take symbols t d d₁ →
      Reads symbols d₁ ts d₂ → Reads symbols d (t :: ts) d₂

def Yields (d : Draft) (p : Phrase) : Prop :=
  ∃ q, d.last = some q ∧ (∀ w ∈ d.waiting, ¬ w.IsParenthesis) ∧
    (settle (fun _ => true) d.waiting q).2 = p

/-! ## What is read is a phrase of the grammar -/

def tokensOf : List Waiting → List Token
  | [] => []
  | w :: ws => tokensOf ws ++ w.tokens

def tokens (d : Draft) : List Token :=
  tokensOf d.waiting ++ (d.last.map Phrase.tokens).getD []

/-- The innermost of those that wait leaves `c` to itself as the root of its right operand. -/
def Accepts (ws : List Waiting) (c : Operator) : Prop := ∀ w ∈ ws.head?, w.operator.TakesRight c

variable {symbols : SymbolTable}

inductive Sound (symbols : SymbolTable) : Waiting → Prop where
  | parenthesis {t : Token} : t.isDelimiter "(" → Sound symbols (.parenthesis t)
  | before {t : Token} {o : Operator} : t.isOperator o.symbol → o.standsBefore →
      Sound symbols (.before t o)
  | between {l : Phrase} {t : Token} {o : Operator} : l.Grammatical symbols → l.Bound →
      (∀ c ∈ l.root?, o.TakesLeft c) → t.isOperator o.symbol → o.standsBetween →
      Sound symbols (.between l t o)

/-- Each that waits is accepted by the one below it. -/
inductive Chain (symbols : SymbolTable) : List Waiting → Prop where
  | nil : Chain symbols []
  | cons {w : Waiting} {ws : List Waiting} : Sound symbols w →
      (¬ w.IsParenthesis → Accepts ws w.operator) → Chain symbols ws → Chain symbols (w :: ws)

/-- `p` is a phrase of the grammar that may stand behind `ws`. -/
structure Fits (symbols : SymbolTable) (ws : List Waiting) (p : Phrase) : Prop where
  grammatical : p.Grammatical symbols
  bound : p.Bound
  accepted : ∀ c ∈ p.root?, Accepts ws c

theorem fits_fill {w : Waiting} {ws : List Waiting} {p : Phrase} (hc : Chain symbols (w :: ws))
    (hp : Fits symbols (w :: ws) p) (hw : ¬ w.IsParenthesis) : Fits symbols ws (w.fill p) := by
  have hroot : ∀ c ∈ p.root?, w.operator.TakesRight c := fun c h => hp.accepted c h w rfl
  cases hc with
  | cons hs hacc hws =>
    cases hs with
    | parenthesis => exact absurd rfl hw
    | before ht ho =>
      refine ⟨.before ht ho hp.grammatical, ⟨hroot, hp.bound⟩, ?_⟩
      rintro c ⟨⟩
      exact hacc hw
    | between hl hb hleft ht ho =>
      refine ⟨.between hl ht ho hp.grammatical, ⟨hleft, hroot, hb, hp.bound⟩, ?_⟩
      rintro c ⟨⟩
      exact hacc hw

theorem tokens_fill {w : Waiting} (p : Phrase) (hw : ¬ w.IsParenthesis) :
    (w.fill p).tokens = w.tokens ++ p.tokens := by
  cases w with
  | parenthesis => exact absurd rfl hw
  | before => rfl
  | between => simp [Waiting.fill, Waiting.tokens, Phrase.tokens]

theorem root?_fill {w : Waiting} (p : Phrase) (hw : ¬ w.IsParenthesis) :
    (w.fill p).root? = some w.operator := by
  cases w with
  | parenthesis => exact absurd rfl hw
  | before => rfl
  | between => rfl

def Spares (ready : Operator → Bool) (ws : List Waiting) : Prop :=
  ∀ w ∈ ws, ready w.operator → ¬ w.IsParenthesis

theorem fits_settle {ready : Operator → Bool} {ws : List Waiting} {p : Phrase}
    (hr : Spares ready ws) (hc : Chain symbols ws) (hp : Fits symbols ws p) :
    Chain symbols (settle ready ws p).1 ∧ Fits symbols (settle ready ws p).1 (settle ready ws p).2 := by
  induction ws generalizing p with
  | nil => exact ⟨hc, hp⟩
  | cons w ws ih =>
    rw [settle]
    split
    · next hw =>
      have hfill := fits_fill hc hp (hr w List.mem_cons_self hw)
      cases hc with
      | cons _ _ hws => exact ih (fun v hv => hr v (List.mem_cons_of_mem w hv)) hws hfill
    · exact ⟨hc, hp⟩

theorem tokens_settle {ready : Operator → Bool} {ws : List Waiting} (p : Phrase)
    (hr : Spares ready ws) :
    tokensOf (settle ready ws p).1 ++ (settle ready ws p).2.tokens = tokensOf ws ++ p.tokens := by
  induction ws generalizing p with
  | nil => rfl
  | cons w ws ih =>
    rw [settle]
    split
    · next hw =>
      rw [ih _ (fun v hv => hr v (List.mem_cons_of_mem w hv)),
        tokens_fill p (hr w List.mem_cons_self hw)]
      simp [tokensOf]
    · rfl

theorem head_settle {ready : Operator → Bool} (ws : List Waiting) (p : Phrase) :
    ∀ w ∈ (settle ready ws p).1.head?, ready w.operator = false := by
  induction ws generalizing p with
  | nil => rintro w ⟨⟩
  | cons w ws ih =>
    rw [settle]
    split
    · exact ih _
    · next hw =>
      rintro v ⟨⟩
      simpa using hw

theorem settle_all (ws : List Waiting) (p : Phrase) : (settle (fun _ => true) ws p).1 = [] := by
  induction ws generalizing p with
  | nil => rfl
  | cons w ws ih => exact ih _

/-- The root of what is settled is that of the phrase before or was ready. -/
theorem root?_settle {ready : Operator → Bool} {ws : List Waiting} {p : Phrase}
    (hr : Spares ready ws) (hp : ∀ c ∈ p.root?, ready c) :
    ∀ c ∈ (settle ready ws p).2.root?, ready c := by
  induction ws generalizing p with
  | nil => exact hp
  | cons w ws ih =>
    rw [settle]
    split
    · next hw =>
      refine ih (fun v hv => hr v (List.mem_cons_of_mem w hv)) ?_
      rw [root?_fill p (hr w List.mem_cons_self hw)]
      rintro c ⟨⟩
      exact hw
    · exact hp

theorem notParenthesis_iff (w : Waiting) : notParenthesis w.operator ↔ ¬ w.IsParenthesis := by
  simp [notParenthesis, Waiting.IsParenthesis]

theorem spares_notParenthesis (ws : List Waiting) : Spares notParenthesis ws :=
  fun w _ h => (notParenthesis_iff w).mp h

theorem bindsBefore_openParenthesis {o : Operator} (h : o.standsBetween) :
    Expression.bindsBefore o .openParenthesis = false := by
  cases o <;> first | rfl | cases h

theorem not_parenthesis_of_standsBefore {t : Token} {o : Operator} (h : o.standsBefore) :
    ¬ (Waiting.before t o).IsParenthesis := by
  rintro ⟨⟩
  cases h

theorem not_parenthesis_of_standsBetween {l : Phrase} {t : Token} {o : Operator}
    (h : o.standsBetween) : ¬ (Waiting.between l t o).IsParenthesis := by
  rintro ⟨⟩
  cases h

theorem spares_bindsBefore {o : Operator} (ho : o.standsBetween) (ws : List Waiting) :
    Spares (Expression.bindsBefore o) ws := by
  intro w _ h hw
  rw [hw, bindsBefore_openParenthesis ho] at h
  cases h

/-- What a draft keeps: all that waits is in order, and the last phrase is an operand, or an operand with
`++` or `--` behind it. -/
structure Invariant (symbols : SymbolTable) (d : Draft) : Prop where
  chain : Chain symbols d.waiting
  grammatical : ∀ p ∈ d.last, p.Grammatical symbols
  bound : ∀ p ∈ d.last, p.Bound
  root : ∀ p ∈ d.last, ∀ c ∈ p.root?, c.standsBehind

theorem Sound.precedence_le {w : Waiting} (h : Sound symbols w) : w.operator.precedence ≤ 13 := by
  cases h with
  | parenthesis => exact Nat.zero_le _
  | before _ ho => exact Nat.le_of_eq (Operator.precedence_standsBefore ho)
  | between _ _ _ _ ho => exact (Operator.precedence_standsBetween ho).2

/-- Nothing that waits binds tighter than an operator in front of its operand. -/
theorem accepts_of_le {ws : List Waiting} (hc : Chain symbols ws) {c : Operator}
    (h : 13 ≤ c.precedence) : Accepts ws c := by
  intro w hw
  cases hc with
  | nil => cases hw
  | cons hs _ _ =>
    cases hw
    have hle := hs.precedence_le
    unfold Operator.TakesRight
    rw [Operator.associativity_eq]
    by_cases hw : w.operator.precedence = 1 ∨ 13 ≤ w.operator.precedence
    · simp only [hw, if_true]
      omega
    · simp only [hw, if_false]
      omega

theorem Invariant.fits {d : Draft} (h : Invariant symbols d) {p : Phrase} (hp : d.last = some p) :
    Fits symbols d.waiting p := by
  refine ⟨h.grammatical p hp, h.bound p hp, fun c hc => accepts_of_le h.chain ?_⟩
  have := Operator.precedence_standsBehind (h.root p hp c hc)
  omega

theorem invariant_start : Invariant symbols start :=
  ⟨.nil, nofun, nofun, nofun⟩

theorem invariant_wants {ws : List Waiting} (h : Chain symbols ws) : Invariant symbols ⟨ws, none⟩ :=
  ⟨h, nofun, nofun, nofun⟩

theorem invariant_last {ws : List Waiting} {p : Phrase} (h : Chain symbols ws)
    (hg : p.Grammatical symbols) (hb : p.Bound) (hr : ∀ c ∈ p.root?, c.standsBehind) :
    Invariant symbols ⟨ws, some p⟩ := by
  refine ⟨h, ?_, ?_, ?_⟩
  · intro q hq
    cases hq
    exact hg
  · intro q hq
    cases hq
    exact hb
  · intro q hq
    cases hq
    exact hr

theorem Take.invariant {t : Token} {d d' : Draft} (ht : Take symbols t d d')
    (h : Invariant symbols d) : Invariant symbols d' := by
  cases ht with
  | operand hn => exact invariant_last h.chain (.operand hn) trivial nofun
  | opening ha => exact invariant_wants (.cons (.parenthesis ha) (fun hp => absurd rfl hp) h.chain)
  | before ho hb =>
    refine invariant_wants (.cons (.before ho hb) (fun _ => ?_) h.chain)
    exact accepts_of_le h.chain (Nat.le_of_eq (Operator.precedence_standsBefore hb).symm)
  | @closing ws rest p q a hb hs =>
    have hfit := fits_settle (spares_notParenthesis ws) h.chain (h.fits rfl)
    rw [hs] at hfit
    obtain ⟨hchain, hq⟩ := hfit
    cases hchain with
    | cons ha _ hrest =>
      cases ha with
      | parenthesis ha =>
        exact invariant_last hrest (.enclosed ha hq.grammatical hb) hq.bound nofun
  | behind ho hb =>
    cases h.grammatical _ rfl with
    | operand hn =>
      refine invariant_last h.chain (.behind hn ho hb) trivial ?_
      intro c hc
      cases hc
      exact hb
  | @between ws rest p q o ho hb hs =>
    have hr := spares_bindsBefore hb ws
    have hfit := fits_settle hr h.chain (h.fits rfl)
    have hhead := @head_settle (Expression.bindsBefore o) ws p
    have hroot : ∀ c ∈ q.root?, o.TakesLeft c := by
      intro c hc
      have hready := root?_settle (p := p) hr (fun c hc => (o.takesLeft_iff c).mp ?_) c (hs ▸ hc)
      · exact (o.takesLeft_iff c).mpr hready
      · have := Operator.precedence_standsBehind (h.root p rfl c hc)
        have := (Operator.precedence_standsBetween hb).2
        unfold Operator.TakesLeft
        split <;> omega
    rw [hs] at hfit hhead
    refine invariant_wants (.cons (.between hfit.2.grammatical hfit.2.bound hroot ho hb) ?_ hfit.1)
    exact fun _ w hw => (w.operator.takesRight_iff o).mpr (hhead w hw)

theorem Take.tokens {t : Token} {d d' : Draft} (ht : Take symbols t d d') :
    d'.tokens = d.tokens ++ [t] := by
  cases ht with
  | operand | opening | before => simp [Draft.tokens, tokensOf, Waiting.tokens, Phrase.tokens]
  | @closing ws rest p q a _ hs =>
    have h := tokens_settle p (spares_notParenthesis ws)
    rw [hs] at h
    simp only [tokensOf, Waiting.tokens] at h
    simp [Draft.tokens, Phrase.tokens, ← h]
  | behind => simp [Draft.tokens, Phrase.tokens]
  | @between ws rest p q o _ hb hs =>
    have h := tokens_settle p (spares_bindsBefore hb ws)
    rw [hs] at h
    simp [Draft.tokens, tokensOf, Waiting.tokens, ← h]

theorem Reads.invariant {d d' : Draft} {ts : List Token} (hr : Reads symbols d ts d')
    (h : Invariant symbols d) : Invariant symbols d' := by
  induction hr with
  | nil => exact h
  | cons ht _ ih => exact ih (ht.invariant h)

theorem Reads.tokens {d d' : Draft} {ts : List Token} (hr : Reads symbols d ts d') :
    d'.tokens = d.tokens ++ ts := by
  induction hr with
  | nil => simp
  | cons ht _ ih => simp [ih, ht.tokens]

/-- A complete draft comes to a phrase of the grammar that keeps to precedence and associativity. -/
theorem Reads.yields_sound {d : Draft} {ts : List Token} {p : Phrase}
    (hr : Reads symbols start ts d) (hp : d.Yields p) :
    p.Grammatical symbols ∧ p.Bound ∧ p.tokens = ts := by
  obtain ⟨q, hq, hnone, rfl⟩ := hp
  have h := hr.invariant invariant_start
  have hspares : Spares (fun _ => true) d.waiting := fun w hw _ => hnone w hw
  have hall := settle_all d.waiting q
  have hfit := (fits_settle hspares h.chain (h.fits hq)).2
  have htokens := tokens_settle q hspares
  rw [hall] at htokens
  refine ⟨hfit.grammatical, hfit.bound, ?_⟩
  have hts := hr.tokens
  simp only [Draft.tokens, hq, start, tokensOf, Option.map_some, Option.getD_some, Option.map_none,
    Option.getD_none, List.nil_append] at htokens hts
  rw [htokens, hts]

theorem Reads.append {symbols : SymbolTable} {d₁ d₂ d₃ : Draft} {ts us : List Token}
    (h₁ : Reads symbols d₁ ts d₂) (h₂ : Reads symbols d₂ us d₃) : Reads symbols d₁ (ts ++ us) d₃ := by
  induction h₁ with
  | nil d => exact h₂
  | cons ht _ ih => exact .cons ht (ih h₂)

theorem Reads.single {symbols : SymbolTable} {d d' : Draft} {t : Token} (h : Take symbols t d d') :
    Reads symbols d [t] d' := .cons h (.nil d')

/-! ## Every phrase of the grammar is read -/

/-- What still waits when a phrase has been read, and the operand that it ends with. -/
def spine : Phrase → List Waiting × Phrase
  | .before t o p => ((spine p).1 ++ [.before t o], (spine p).2)
  | .between l t o r => ((spine r).1 ++ [.between l t o], (spine r).2)
  | p => ([], p)

theorem settle_spine {ready : Operator → Bool} (p : Phrase) (ws : List Waiting)
    (h : ∀ w ∈ (spine p).1, ready w.operator) :
    settle ready ((spine p).1 ++ ws) (spine p).2 = settle ready ws p := by
  induction p generalizing ws with
  | operand | enclosed | behind => rfl
  | before t o p ih =>
    have hlast : ready o := h (.before t o) (by simp [spine])
    rw [spine, List.append_assoc, ih _ (fun w hw => h w (by simp [spine, hw]))]
    simp [settle, Waiting.operator, hlast, Waiting.fill]
  | between l t o r _ ih =>
    have hlast : ready o := h (.between l t o) (by simp [spine])
    rw [spine, List.append_assoc, ih _ (fun w hw => h w (by simp [spine, hw]))]
    simp [settle, Waiting.operator, hlast, Waiting.fill]

/-- Along the right edge of a phrase the operators bind tighter and tighter. -/
theorem root_le_spine {p : Phrase} (hb : p.Bound) :
    ∀ w ∈ (spine p).1, ∃ c ∈ p.root?, c.precedence ≤ w.operator.precedence := by
  have step : ∀ (o : Operator) (q : Phrase), (∀ c ∈ q.root?, o.TakesRight c) →
      ∀ w : Waiting, (∃ c ∈ q.root?, c.precedence ≤ w.operator.precedence) →
        o.precedence ≤ w.operator.precedence := by
    rintro o q ho w ⟨c, hc, hle⟩
    have := ho c hc
    unfold Operator.TakesRight at this
    split at this <;> omega
  induction p with
  | operand | enclosed | behind => rintro w ⟨⟩
  | before t o p ih =>
    intro w hw
    refine ⟨o, rfl, ?_⟩
    rcases List.mem_append.mp hw with hw | hw
    · exact step o p hb.1 w (ih hb.2 w hw)
    · cases List.mem_singleton.mp hw
      exact Nat.le_refl _
  | between l t o r _ ih =>
    intro w hw
    refine ⟨o, rfl, ?_⟩
    rcases List.mem_append.mp hw with hw | hw
    · exact step o r hb.2.1 w (ih hb.2.2.2 w hw)
    · cases List.mem_singleton.mp hw
      exact Nat.le_refl _

theorem spine_not_parenthesis {p : Phrase} (hg : p.Grammatical symbols) (hb : p.Bound) :
    ∀ w ∈ (spine p).1, ¬ w.IsParenthesis := by
  intro w hw h
  obtain ⟨c, hc, hle⟩ := root_le_spine hb w hw
  have := hg.one_le_root c hc
  rw [h] at hle
  exact absurd (Nat.le_trans this hle) (by decide)

/-- Behind `ws`, which leaves its root alone, a phrase that keeps to precedence is read down its right
edge: each operand is settled just when the operator that it belongs to comes. -/
theorem reads_bound {p : Phrase} (hg : p.Grammatical symbols) (hb : p.Bound) (ws : List Waiting)
    (hws : ∀ c ∈ p.root?, Accepts ws c) :
    Reads symbols ⟨ws, none⟩ p.tokens ⟨(spine p).1 ++ ws, some (spine p).2⟩ := by
  induction hg generalizing ws with
  | operand hn => exact .single (.operand hn)
  | @enclosed a b p ha hg hb' ih =>
    have hinner := ih hb (.parenthesis a :: ws) (by
      rintro c hc w ⟨⟩
      exact Nat.lt_of_lt_of_le Nat.zero_lt_one (hg.one_le_root c hc))
    have hclose : settle notParenthesis ((spine p).1 ++ .parenthesis a :: ws) (spine p).2 =
        (.parenthesis a :: ws, p) := by
      rw [settle_spine p _ (fun w hw =>
        (notParenthesis_iff w).mpr (spine_not_parenthesis hg hb w hw))]
      rfl
    exact .cons (.opening ha) (hinner.append (.single (.closing hb' hclose)))
  | @before t o p ht ho hg ih =>
    have hinner := ih hb.2 (.before t o :: ws) (by
      rintro c hc w ⟨⟩
      exact hb.1 c hc)
    simp only [Phrase.tokens, spine, List.append_assoc]
    exact .cons (.before ht ho) hinner
  | behind hn ht ho => exact .cons (.operand hn) (.single (.behind ht ho))
  | @between l r t o hl ht ho hr ihl ihr =>
    obtain ⟨hleft, hright, hbl, hbr⟩ := hb
    have hacc := hws o rfl
    -- What waits below leaves `l` alone, as it leaves alone `o`, which does not bind tighter.
    have hl' := ihl hbl ws (fun c hc w hw => (hacc w hw).trans_takesLeft (hleft c hc))
    have hready : ∀ w ∈ (spine l).1, Expression.bindsBefore o w.operator := by
      intro w hw
      obtain ⟨c, hc, hle⟩ := root_le_spine hbl w hw
      have h := hleft c hc
      apply (o.takesLeft_iff _).mp
      unfold Operator.TakesLeft at h ⊢
      split at h <;> simp_all only <;> omega
    have hsettle : settle (Expression.bindsBefore o) ((spine l).1 ++ ws) (spine l).2 = (ws, l) := by
      rw [settle_spine l ws hready]
      cases ws with
      | nil => rfl
      | cons w ws =>
        have := (w.operator.takesRight_iff o).mp (hacc w rfl)
        simp [settle, this]
    have hr' := ihr hbr (.between l t o :: ws) (by
      rintro c hc w ⟨⟩
      exact hright c hc)
    simp only [Phrase.tokens, spine, List.append_assoc]
    exact hl'.append (.cons (.between ht ho hsettle) hr')

/-- The parentheses that are open, and what waits below the innermost one. -/
def opened (ws : List Waiting) : List Waiting := ws.dropWhile fun w => notParenthesis w.operator

theorem opened_cons {w : Waiting} (ws : List Waiting) (hw : ¬ w.IsParenthesis) :
    opened (w :: ws) = opened ws :=
  List.dropWhile_cons_of_pos (p := fun w : Waiting => notParenthesis w.operator)
    ((notParenthesis_iff w).mpr hw)

theorem opened_settle {ready : Operator → Bool} {ws : List Waiting} (p : Phrase)
    (hr : Spares ready ws) : opened (settle ready ws p).1 = opened ws := by
  induction ws generalizing p with
  | nil => rfl
  | cons w ws ih =>
    rw [settle]
    split
    · next hw =>
      rw [ih _ (fun v hv => hr v (List.mem_cons_of_mem w hv)),
        opened_cons ws (hr w List.mem_cons_self hw)]
    · rfl

theorem settle_notParenthesis (ws : List Waiting) (p : Phrase) :
    (settle notParenthesis ws p).1 = opened ws := by
  induction ws generalizing p with
  | nil => rfl
  | cons w ws ih =>
    rw [settle]
    split
    · next hw => rw [ih, opened_cons ws ((notParenthesis_iff w).mp hw)]
    · next hw =>
      exact (List.dropWhile_cons_of_neg (p := fun w : Waiting => notParenthesis w.operator) hw).symm

/-- Any phrase of the grammar is read to its end, whether or not it keeps to precedence. -/
theorem reads_grammatical {p : Phrase} (hg : p.Grammatical symbols) (ws : List Waiting) :
    ∃ ws' q, Reads symbols ⟨ws, none⟩ p.tokens ⟨ws', some q⟩ ∧ opened ws' = opened ws := by
  induction hg generalizing ws with
  | operand hn => exact ⟨_, _, .single (.operand hn), rfl⟩
  | @enclosed a b p ha hg hb ih =>
    obtain ⟨ws', q, hq, hopen⟩ := ih (.parenthesis a :: ws)
    have hclose : settle notParenthesis ws' q =
        (.parenthesis a :: ws, (settle notParenthesis ws' q).2) := by
      rw [Prod.ext_iff]
      exact ⟨(settle_notParenthesis ws' q).trans hopen, rfl⟩
    exact ⟨_, _, .cons (.opening ha) (hq.append (.single (.closing hb hclose))), rfl⟩
  | @before t o p ht ho hg ih =>
    obtain ⟨ws', q, hq, hopen⟩ := ih (.before t o :: ws)
    refine ⟨ws', q, .cons (.before ht ho) hq, hopen.trans ?_⟩
    exact opened_cons ws (not_parenthesis_of_standsBefore ho)
  | behind hn ht ho => exact ⟨_, _, .cons (.operand hn) (.single (.behind ht ho)), rfl⟩
  | @between l r t o hl ht ho hr ihl ihr =>
    obtain ⟨ws₁, q₁, hq₁, hopen₁⟩ := ihl ws
    obtain ⟨ws₂, q₂, hq₂, hopen₂⟩ :=
      ihr (.between (settle (Expression.bindsBefore o) ws₁ q₁).2 t o ::
        (settle (Expression.bindsBefore o) ws₁ q₁).1)
    refine ⟨ws₂, q₂, hq₁.append (.cons (.between ht ho rfl) hq₂), ?_⟩
    rw [hopen₂, opened_cons _ (not_parenthesis_of_standsBetween ho),
      opened_settle q₁ (spares_bindsBefore ho ws₁), hopen₁]

/-! ## There is one way to read -/

theorem Take.unique {t : Token} {d a b : Draft} (ha : Take symbols t d a)
    (hb : Take symbols t d b) : a = b := by
  cases ha with
  | operand hm =>
    cases hb with
    | operand hn => rw [hm.unique hn]
    | opening h => exact absurd h (hm.not_delimiter _)
    | before h => exact absurd h (hm.not_operator _)
  | opening h =>
    cases hb with
    | operand hn => exact absurd h (hn.not_delimiter _)
    | opening => rfl
    | before h' => exact absurd h' (Token.not_isOperator_of_isDelimiter h _)
  | before h ho =>
    cases hb with
    | operand hn => exact absurd h (hn.not_operator _)
    | opening h' => exact absurd h (Token.not_isOperator_of_isDelimiter h' _)
    | before h' ho' => rw [Operator.eq_of_token h h' (ho.trans ho'.symm)]
  | closing h hs =>
    cases hb with
    | closing _ hs' =>
      rw [hs] at hs'
      cases hs'
      rfl
    | behind h' => exact absurd h' (Token.not_isOperator_of_isDelimiter h _)
    | between h' => exact absurd h' (Token.not_isOperator_of_isDelimiter h _)
  | behind h ho =>
    have hn := Operator.not_standsBefore_of_standsBehind ho
    cases hb with
    | closing h' => exact absurd h (Token.not_isOperator_of_isDelimiter h' _)
    | behind h' ho' =>
      rw [Operator.eq_of_token h h' (hn.trans (Operator.not_standsBefore_of_standsBehind ho').symm)]
    | between h' ho' =>
      have hn' := Operator.not_standsBefore_of_standsBetween ho'
      cases Operator.eq_of_token h h' (hn.trans hn'.symm)
      exact absurd ho' (Operator.not_standsBetween_of_standsBehind ho)
  | between h ho hs =>
    have hn := Operator.not_standsBefore_of_standsBetween ho
    cases hb with
    | closing h' => exact absurd h (Token.not_isOperator_of_isDelimiter h' _)
    | behind h' ho' =>
      have hn' := Operator.not_standsBefore_of_standsBehind ho'
      cases Operator.eq_of_token h h' (hn.trans hn'.symm)
      exact absurd ho (Operator.not_standsBetween_of_standsBehind ho')
    | between h' ho' hs' =>
      have hn' := Operator.not_standsBefore_of_standsBetween ho'
      cases Operator.eq_of_token h h' (hn.trans hn'.symm)
      rw [hs] at hs'
      cases hs'
      rfl

theorem Reads.unique {ts : List Token} {d a b : Draft} (ha : Reads symbols d ts a)
    (hb : Reads symbols d ts b) : a = b := by
  induction ha with
  | nil =>
    cases hb
    rfl
  | cons ht _ ih =>
    cases hb with
    | cons ht' hb =>
      cases ht.unique ht'
      exact ih hb

/-! ## Phrases by their tokens -/

def Parses (symbols : SymbolTable) (ts : List Token) (p : Phrase) : Prop :=
  ∃ d, Reads symbols start ts d ∧ d.Yields p

theorem Parses.unique {ts : List Token} {p q : Phrase} (hp : Parses symbols ts p)
    (hq : Parses symbols ts q) : p = q := by
  obtain ⟨d, hd, r, hr, _, rfl⟩ := hp
  obtain ⟨d', hd', r', hr', _, rfl⟩ := hq
  cases hd.unique hd'
  cases hr.symm.trans hr'
  rfl

theorem parses_iff {ts : List Token} {p : Phrase} :
    Parses symbols ts p ↔ p.Grammatical symbols ∧ p.Bound ∧ p.tokens = ts := by
  constructor
  · rintro ⟨d, hd, hp⟩
    exact hd.yields_sound hp
  · rintro ⟨hg, hb, rfl⟩
    have hr := reads_bound hg hb [] (fun c _ w hw => nomatch hw)
    rw [List.append_nil] at hr
    refine ⟨_, hr, _, rfl, spine_not_parenthesis hg hb, ?_⟩
    have hs := @settle_spine (fun _ => true) p [] (fun _ _ => rfl)
    rw [List.append_nil] at hs
    rw [hs]
    rfl

/-- If the grammar allows the tokens at all, one of their phrases keeps to precedence. -/
theorem exists_parses {p : Phrase} (hg : p.Grammatical symbols) :
    ∃ q, Parses symbols p.tokens q := by
  obtain ⟨ws, q, hq, hopen⟩ := reads_grammatical hg []
  refine ⟨_, _, hq, q, rfl, ?_, rfl⟩
  intro w hw
  have hall : ∀ w ∈ ws, notParenthesis w.operator = true := List.dropWhile_eq_nil_iff.mp hopen
  exact (notParenthesis_iff w).mp (hall w hw)

end Draft

end Offside
