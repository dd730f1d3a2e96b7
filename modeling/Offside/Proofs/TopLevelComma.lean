import Offside.Proofs.BlockReading

/-!
# Commas outside of parentheses

Where the tokens of a line stand inside of enough parentheses, the search for a comma passes over them. An
expression has no comma outside of its own, nor has the line of a function: its parameters are enclosed.
-/

namespace Offside

set_option autoImplicit false

open Rules

/-- A token that is neither a parenthesis nor a comma, and does not end its statement. -/
structure IsFiller (t : Token) : Prop where
  word : t.endsStatement = false
  opening : ¬ t.isDelimiter "("
  closing : ¬ t.isDelimiter ")"
  comma : ¬ t.isDelimiter ","

/-- The search for a comma passes over `ts` where at least `least` parentheses are open. -/
def Hides (least : Nat) (ts : List Token) : Prop :=
  ∀ depth rest, least ≤ depth →
    TokenStream.hasComma depth (ts ++ rest) = TokenStream.hasComma depth rest

variable {symbols symbols' : SymbolTable} {t : Token} {ts us : List Token} {least : Nat} {n : Node}

namespace IsFiller

theorem of_kind (hw : t.endsStatement = false) (hk : t.kind ≠ .delimiter) : IsFiller t :=
  ⟨hw, Token.not_isDelimiter_of_kind hk, Token.not_isDelimiter_of_kind hk,
    Token.not_isDelimiter_of_kind hk⟩

theorem of_isOperator {text : String} (h : t.isOperator text) : IsFiller t :=
  of_kind (Parse.endsStatement_of_isOperator h) (by simp [Token.kind_of_isOperator h])

theorem of_identifier (h : t.kind = .identifier) : IsFiller t :=
  of_kind (by simp [Token.endsStatement, h]) (by simp [h])

theorem of_colon (h : t.isDelimiter ":") : IsFiller t :=
  ⟨Parse.endsStatement_of_isDelimiter h, fun h' => absurd (Token.isDelimiter_inj h h') (by decide),
    fun h' => absurd (Token.isDelimiter_inj h h') (by decide),
    fun h' => absurd (Token.isDelimiter_inj h h') (by decide)⟩

theorem of_isOperand (h : IsOperand symbols t n) : IsFiller t := by
  cases h with
  | literal hk | var hk | reference hk =>
    exact of_kind (by simp [Token.endsStatement, hk]) (by simp [hk])

end IsFiller

namespace Hides

theorem nil : Hides least [] := fun _ _ _ => rfl

theorem mono {more : Nat} (h : Hides least ts) (hle : least ≤ more) : Hides more ts :=
  fun depth rest hd => h depth rest (hle.trans hd)

theorem append (h : Hides least ts) (h' : Hides least us) : Hides least (ts ++ us) := by
  intro depth rest hd
  rw [List.append_assoc, h depth _ hd, h' depth _ hd]

theorem cons (ht : IsFiller t) (h : Hides least ts) : Hides least (t :: ts) := by
  intro depth rest hd
  rw [List.cons_append, TokenStream.hasComma, ht.word, if_neg ht.opening, if_neg ht.closing,
    Bool.eq_false_iff.mpr ht.comma]
  exact h depth rest hd

theorem cons_comma (ht : t.isDelimiter ",") (h : Hides (least + 1) ts) :
    Hides (least + 1) (t :: ts) := by
  intro depth rest hd
  have hopening : ¬ t.isDelimiter "(" := fun h' => absurd (Token.isDelimiter_inj ht h') (by decide)
  have hclosing : ¬ t.isDelimiter ")" := fun h' => absurd (Token.isDelimiter_inj ht h') (by decide)
  have hdepth : (depth == 0) = false := beq_eq_false_iff_ne.mpr (Nat.ne_zero_of_lt hd)
  rw [List.cons_append, TokenStream.hasComma, Parse.endsStatement_of_isDelimiter ht, if_neg hopening,
    if_neg hclosing, hdepth, Bool.and_false]
  exact h depth rest hd

theorem enclosed {opening closing : Token} (ho : opening.isDelimiter "(") (h : Hides (least + 1) ts)
    (hc : closing.isDelimiter ")") : Hides least (opening :: ts ++ [closing]) := by
  intro depth rest hd
  have hclosing : ¬ closing.isDelimiter "(" :=
    fun h' => absurd (Token.isDelimiter_inj hc h') (by decide)
  rw [List.append_assoc, List.cons_append, TokenStream.hasComma, Parse.endsStatement_of_isDelimiter ho,
    if_pos ho, if_neg nofun, h (depth + 1) _ (Nat.succ_le_succ hd), List.singleton_append,
    TokenStream.hasComma, Parse.endsStatement_of_isDelimiter hc, if_neg hclosing, if_pos hc, if_neg nofun]
  rfl

end Hides

/-! ## Expressions and signatures -/

theorem Phrase.Grammatical.hides {q : Phrase} (h : q.Grammatical symbols) : Hides 0 q.tokens := by
  induction h with
  | operand ho => exact .cons (.of_isOperand ho) .nil
  | enclosed ha _ hb ih => exact .enclosed ha (ih.mono (Nat.zero_le _)) hb
  | before ht _ _ ih => exact .cons (.of_isOperator ht) ih
  | behind ho ht => exact .cons (.of_isOperand ho) (.cons (.of_isOperator ht) .nil)
  | between _ ht _ _ ihl ihr => exact ihl.append (.cons (.of_isOperator ht) ihr)

theorem Expressed.hides (h : Expressed symbols ts n) : Hides 0 ts := by
  obtain ⟨q, hq, -, rfl, -⟩ := h
  exact hq.hides

namespace Rules

theorem Head.hides {head : DeclarationHead} (h : Head ts head) : Hides 0 ts := by
  cases h with
  | auto hk hc => exact .cons (.of_identifier hk) (.cons (.of_colon hc) .nil)
  | typed hk hc ht =>
    exact .cons (.of_identifier hk) (.cons (.of_colon hc) (.cons (.of_identifier ht) .nil))

theorem Declares.hides {d : Declared} {i : Identifier} (h : Declares symbols d ts n i) : Hides 0 ts := by
  cases h with
  | value hhead hseparates hvalue =>
    refine hhead.hides.append (.cons ?_ hvalue.hides)
    cases hseparates with
    | equals ht => exact .of_isOperator ht
    | colon ht => exact .of_colon ht
  | bare hhead => exact hhead.hides

theorem Parameters.hides {ns : List Node} (h : Parameters symbols ts ns symbols') : Hides 1 ts := by
  induction h with
  | last hd => exact hd.hides.mono (Nat.zero_le _)
  | more hd _ hcomma _ ih => exact (hd.hides.mono (Nat.zero_le _)).append (.cons_comma hcomma ih)

theorem Signature.hides {head : DeclarationHead} {ns : List Node} {returns : DataType}
    (h : Signature symbols ts head ns returns symbols') : Hides 0 ts := by
  cases h with
  | @mk ts ps rs colon opening closing _ _ _ _ hhead hcolon hopening hps hclosing hrs =>
    have hlist : Hides 1 ps := by
      cases hps with
      | none => exact .nil
      | some hps => exact hps.hides
    have hresult : Hides 0 rs := by
      cases hrs with
      | written harrow ht => exact .cons (.of_isOperator harrow) (.cons (.of_identifier ht) .nil)
      | implied => exact .nil
    have hline : ts ++ colon :: opening :: ps ++ closing :: rs =
        ts ++ (colon :: ((opening :: ps ++ [closing]) ++ rs)) := by simp
    rw [hline]
    have hparameters := Hides.enclosed hopening hlist hclosing
    exact hhead.hides.append (.cons (.of_colon hcolon) (hparameters.append hresult))

/-- A line that declares a function is not divided by commas. -/
theorem Signature.hasComma {tokens rest : List Token} {head : DeclarationHead} {ns : List Node}
    {returns : DataType} (h : Signature symbols ts head ns returns symbols')
    (hline : TakesLine tokens ts rest) : TokenStream.hasComma 0 tokens = false := by
  obtain ⟨stop, hstop, rfl⟩ := hline.stop
  rw [h.hides 0 _ (Nat.le_refl _), TokenStream.hasComma, if_pos (by simp [Token.endsStatement, hstop])]

end Rules

open Parse Execution

/-- Where the parser has read a function, its line is not divided by commas. -/
theorem Parse.declaration_hasComma {body : String → Parse Scope} {p p' : Parser} (hp : p.InSource)
    (h : declaration body p = .ok n p') (hf : isFunction n = true) :
    TokenStream.hasComma 0 p.stream.tokens = false := by
  obtain ⟨head, p₁, hhead, r₁⟩ := bind_eq_ok.mp h
  obtain ⟨ts, hts, h₁⟩ := declarationHead_passes hp hhead
  have hp₁ := h₁.inSource hp
  have hdeclared : ¬ ReadsDeclared p₁ .constant head n p' := by
    rintro ⟨us, i, symbols, hd, -⟩
    rw [not_isFunction_of_declares (hd ts hts)] at hf
    cases hf
  obtain ⟨b, p₂, hb, r₂⟩ := bind_eq_ok.mp r₁
  cases b with
  | false =>
    obtain rfl := acceptDelimiter_false hb
    exact absurd (declareVariable_passes _ hp₁ r₂) hdeclared
  | true =>
    obtain ⟨colon, hc, h₂⟩ := acceptDelimiter_true hp₁ hb
    simp only [if_true] at r₂
    rw [get_bind] at r₂
    split at r₂
    · have h₁₂ := h₁.trans h₂
      rw [h₁.symbols] at h₁₂
      obtain ⟨_, _, hopen, r₃⟩ := bind_eq_ok.mp r₂
      cases hopen
      obtain ⟨ns, p₃, hns, r₄⟩ := bind_eq_ok.mp r₃
      obtain ⟨returns, p₄, hreturns, r₅⟩ := bind_eq_ok.mp r₄
      obtain ⟨_, p₅, hend, -⟩ := bind_eq_ok.mp r₅
      obtain ⟨line, inner, hsig, hleaves⟩ := signature_leaves hp hts hc h₁₂ hns hreturns hend
      exact hsig.hasComma hleaves.line
    · exact absurd (.value hp₁ (.colon hc) h₂ r₂) hdeclared

end Offside
