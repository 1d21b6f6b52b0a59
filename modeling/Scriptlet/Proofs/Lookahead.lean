import Scriptlet.Proofs.Targets

/-!
One token of lookahead decides every choice of the grammar. For the symbols that matter, `Opens` says with which tokens
they begin, and `Stops` that the token after them cannot belong to them any more.
-/
namespace Scriptlet.Grammar

open Scriptlet.Parser (Level Misses)
open Scriptlet.Parser.Name (ofToken)

/-- The kinds of token that a primary expression begins with. -/
def opensCall : Token.Kind → Bool
  | .identifier | .number _ | .string _ | .punct .leftParen => true
  | .keyword k => k ∈ [.true, .false, .null, .this, .fun]
  | _ => false

def opensExpression : Token.Kind → Bool
  | .punct p => p ∈ [.leftParen, .bang, .minus, .plusPlus, .minusMinus]
  | k => opensCall k

def opensStatement : Token.Kind → Bool
  | .punct .leftBrace => true
  | .keyword k => k ∈ [.if, .while, .return, .break, .continue, .print] || opensCall (.keyword k)
  | k => opensExpression k

/-- The tokens begin with one that passes the test; a `fun` among them is that of a lambda. -/
def Opens (test : Token.Kind → Bool) (ts : List Token) : Prop :=
  ∃ t us, ts = t :: us ∧ test t.kind = true ∧ (t.isKeyword .fun → ∃ u vs, us = u :: vs ∧ u.is .leftParen)

variable {ts : List Token}

theorem Opens.mono {p q : Token.Kind → Bool} (h : Opens p ts) (hpq : ∀ k, p k = true → q k = true) : Opens q ts := by
  obtain ⟨t, us, rfl, ht, hf⟩ := h
  exact ⟨t, us, rfl, hpq _ ht, hf⟩

theorem Opens.append {p : Token.Kind → Bool} (h : Opens p ts) (us : List Token) : Opens p (ts ++ us) := by
  obtain ⟨t, vs, rfl, ht, hf⟩ := h
  refine ⟨t, vs ++ us, rfl, ht, fun hk => ?_⟩
  obtain ⟨u, ws, rfl, hu⟩ := hf hk
  exact ⟨u, ws ++ us, rfl, hu⟩

/-- A token that is no `fun` opens whatever its kind opens. -/
theorem opens_cons {p : Token.Kind → Bool} {t : Token} {us : List Token} (ht : p t.kind = true)
    (hf : t.kind ≠ .keyword .fun) : Opens p (t :: us) :=
  ⟨t, us, rfl, ht, fun h => absurd (of_decide_eq_true h) hf⟩

theorem Opens.misses {p : Token.Kind → Bool} {test : Token → Bool} (h : Opens p ts)
    (ht : ∀ t : Token, p t.kind = true → test t = false) : Misses test ts := by
  obtain ⟨t, us, rfl, hp, -⟩ := h
  exact Parser.misses_cons.2 (ht t hp)

theorem Opens.misses_punct {p : Token.Kind → Bool} {q : Punct} (h : Opens p ts)
    (hq : p (.punct q) = false) (rest : List Token) : Misses (·.is q) (ts ++ rest) := by
  refine (h.append rest).misses fun t ht => ?_
  rw [Bool.eq_false_iff]
  intro hk
  rw [of_decide_eq_true hk, hq] at ht
  cases ht

theorem Opens.misses_keyword {p : Token.Kind → Bool} {k : Keyword} (h : Opens p ts)
    (hk : p (.keyword k) = false) (rest : List Token) : Misses (·.isKeyword k) (ts ++ rest) := by
  refine (h.append rest).misses fun t ht => ?_
  rw [Bool.eq_false_iff]
  intro hw
  rw [of_decide_eq_true hw, hk] at ht
  cases ht

section Opens

variable {i j : NodeId} {e : Expr}

theorem primary_opens (d : Derives .primary ts i e j) : Opens opensCall ts := by
  cases d with
  | numberLiteral h | textLiteral h | name h => exact opens_cons (by simp [h, opensCall]) (by simp [h])
  | trueLiteral h | falseLiteral h | nullLiteral h | thisWord h | group h =>
    have h := of_decide_eq_true h
    exact opens_cons (by simp [h, opensCall]) (by simp [h])
  | lambda h d =>
    have h := of_decide_eq_true h
    cases d with
    | function ho => exact ⟨_, _, rfl, by simp [h, opensCall], fun _ => ⟨_, _, rfl, ho⟩⟩

theorem call_opens (d : Derives .call ts i e j) : Opens opensCall ts := by
  cases d with
  | call d => exact (primary_opens d).append _

theorem opensExpression_of_opensCall {k : Token.Kind} (h : opensCall k = true) : opensExpression k = true := by
  cases k with
  | punct p => cases p <;> simp_all [opensCall, opensExpression]
  | _ => exact h

theorem opensStatement_of_opensExpression {k : Token.Kind} (h : opensExpression k = true) :
    opensStatement k = true := by
  cases k with
  | punct p => cases p <;> simp_all [opensExpression, opensStatement]
  | keyword k => cases k <;> simp_all [opensExpression, opensStatement, opensCall]
  | _ => exact h

theorem suffixed_opens (d : Derives .suffixed ts i e j) : Opens opensCall ts := by
  cases d with
  | suffixed h => exact opens_cons (by simp [h, opensCall]) (by simp [h])
  | plainSuffixed d => exact call_opens d

theorem kind_of_steps {p q : Punct} {o : Token} (hp : (p, q) ∈ steps) (h : o.is p) :
    o.kind = .punct .plusPlus ∨ o.kind = .punct .minusMinus := by
  have h := of_decide_eq_true h
  simp only [steps, List.mem_cons, Prod.mk.injEq, List.not_mem_nil, or_false] at hp
  grind

theorem kind_of_stepOperator? {o : Token} (h : (Parser.stepOperator? o).isSome = true) :
    o.kind = .punct .plusPlus ∨ o.kind = .punct .minusMinus := by
  obtain ⟨q, h⟩ := Option.isSome_iff_exists.1 h
  obtain ⟨p, hp, h⟩ := stepOperator?_eq_some.1 h
  exact kind_of_steps hp h

theorem unary_opens (d : Derives .unary ts i e j) : Opens opensExpression ts := by
  cases d with
  | unary h =>
    have h : _ ∨ _ := h.imp of_decide_eq_true of_decide_eq_true
    rcases h with h | h <;> exact opens_cons (by simp [h, opensExpression]) (by simp [h])
  | plainUnary d =>
    cases d with
    | stepName hp h | stepProperty hp h =>
      rcases kind_of_steps hp h with h | h <;> exact opens_cons (by simp [h, opensExpression]) (by simp [h])
    | plainPrefixed d => exact (suffixed_opens d).mono fun _ => opensExpression_of_opensCall

theorem operand_opens {l : Option Level} {ts : List Token} {i j : NodeId} {e : Expr}
    (d : Derives (.operand l) ts i e j) : Opens opensExpression ts := by
  cases d with
  | unaryOperand d => exact unary_opens d
  | @operand l _ _ _ _ us _ _ d _ =>
    have : (levels (tighter l)).length < (levels (some l)).length := by simp [levels_some]
    exact (operand_opens d).append us
termination_by (levels l).length

theorem ternary_opens (d : Derives .ternary ts i e j) : Opens opensExpression ts := by
  cases d with
  | plainTernary d => exact operand_opens d
  | ternary d =>
    rw [List.append_assoc]
    exact (operand_opens d).append _

theorem assignment_opens (d : Derives .assignment ts i e j) : Opens opensExpression ts := by
  have ofCall {us vs : List Token} {o : Expr} {k : NodeId} (d : Derives .call us i o k) :
      Opens opensExpression (us ++ vs) := ((call_opens d).mono fun _ => opensExpression_of_opensCall).append vs
  cases d with
  | assignName h | updateName h => exact opens_cons (by simp [h, opensExpression, opensCall]) (by simp [h])
  | assignProperty d => exact ofCall d
  | updateProperty d => exact ofCall d
  | plainAssignment d => exact ternary_opens d

theorem expression_opens (d : Derives .expression ts i e j) : Opens opensExpression ts := by
  cases d with
  | expression d => exact (assignment_opens d).append _

theorem values_opens {es : List Expr} (d : Derives .values ts i es j) : Opens opensExpression ts := by
  cases d with
  | oneValue d => exact assignment_opens d
  | moreValues d => exact (assignment_opens d).append _

theorem statement_opens {l : Bool} {s : Stmt} (d : Derives (.statement l) ts i s j) : Opens opensStatement ts := by
  have word {t : Token} {us : List Token} {k : Keyword} (h : t.isKeyword k)
      (hk : opensStatement (.keyword k) = true) (hf : k ≠ .fun) : Opens opensStatement (t :: us) := by
    have h := of_decide_eq_true h
    exact opens_cons (by rw [h]; exact hk) (by simpa [h] using hf)
  cases d with
  | ifThen h => exact word h rfl (by decide)
  | ifElse h => exact word h rfl (by decide)
  | «while» h => exact word h rfl (by decide)
  | returnNull h => exact word h rfl (by decide)
  | returnValue h => exact word h rfl (by decide)
  | «break» h => exact word h rfl (by decide)
  | «continue» h => exact word h rfl (by decide)
  | print h => exact word h rfl (by decide)
  | blockStatement d =>
    cases d with
    | block h =>
      have h := of_decide_eq_true h
      exact opens_cons (by simp [h, opensStatement]) (by simp [h])
  | expressionStatement d =>
    exact ((expression_opens d).mono fun _ => opensStatement_of_opensExpression).append _

/-- What opens a declaration is none of the tokens that may follow one in its stead. -/
theorem declaration_opens {l : Bool} {s : Stmt} (d : Derives (.declaration l) ts i s j) :
    ∃ t us, ts = t :: us ∧ t.kind ≠ .keyword .else ∧ t.kind ≠ .punct .rightBrace := by
  have word {t : Token} {us : List Token} {k : Keyword} (h : t.isKeyword k) (hk : k ≠ .else) :
      ∃ u vs, t :: us = u :: vs ∧ u.kind ≠ .keyword .else ∧ u.kind ≠ .punct .rightBrace := by
    have h := of_decide_eq_true h
    exact ⟨t, us, rfl, by simpa [h] using hk, by simp [h]⟩
  cases d with
  | plainClass h => exact word h (by decide)
  | derivedClass h => exact word h (by decide)
  | functionDeclaration h => exact word h (by decide)
  | plainVariable h => exact word h (by decide)
  | initialVariable h => exact word h (by decide)
  | statement d =>
    obtain ⟨t, us, rfl, ht, -⟩ := statement_opens d
    refine ⟨t, us, rfl, fun h => ?_, fun h => ?_⟩ <;> simp [h, opensStatement, opensExpression, opensCall] at ht

theorem names_begin {ps : List Name} (d : Derives .names ts i ps j) : ∃ t us, ts = t :: us ∧ t.kind = .identifier := by
  cases d with
  | oneName h => exact ⟨_, _, rfl, h⟩
  | moreNames h => exact ⟨_, _, rfl, h⟩

theorem declarations_misses_else {l : Bool} {ss : List Stmt} {rest : List Token}
    (d : Derives (.declarations l) ts i ss j) (h : Misses (·.isKeyword .else) rest) :
    Misses (·.isKeyword .else) (ts ++ rest) := by
  cases d with
  | noDeclaration => exact h
  | moreDeclarations d =>
    obtain ⟨t, us, rfl, he, -⟩ := declaration_opens d
    exact Parser.misses_cons.2 (decide_eq_false he)

end Opens

/-- The kinds of token that would carry on a call, an operand over the given levels, and so on. -/
def callTails : List Token.Kind := [.punct .leftParen, .punct .dot, .punct .leftBracket]

def operandTails (l : Option Level) : List Token.Kind :=
  (levels l).flatMap operators ++ [.punct .plusPlus, .punct .minusMinus] ++ callTails

def ternaryTails : List Token.Kind := .punct .question :: operandTails (some .or)

def assignmentTails : List Token.Kind := .punct .equal :: compounds.map (.punct ·.1) ++ ternaryTails

def expressionTails : List Token.Kind := .punct .comma :: assignmentTails

/-- The first token, if there is one, is of none of the kinds. -/
def Stops (ks : List Token.Kind) (ts : List Token) : Prop := ∀ t ∈ ts.head?, t.kind ∉ ks

theorem stops_nil (ks : List Token.Kind) : Stops ks [] := by simp [Stops]

theorem stops_cons {ks : List Token.Kind} {t : Token} : Stops ks (t :: ts) ↔ t.kind ∉ ks := by
  simp [Stops]

theorem Stops.mono {ks ls : List Token.Kind} (h : Stops ks ts) (hs : ls ⊆ ks) : Stops ls ts :=
  fun t ht hk => h t ht (hs hk)

theorem Stops.misses {ks : List Token.Kind} {test : Token → Bool} (h : Stops ks ts)
    (ht : ∀ t : Token, test t = true → t.kind ∈ ks) : Misses test ts := by
  intro t hm
  rw [Bool.eq_false_iff]
  exact fun hp => h t hm (ht t hp)

theorem Stops.misses_punct {ks : List Token.Kind} {p : Punct} (h : Stops ks ts)
    (hp : .punct p ∈ ks) : Misses (·.is p) ts :=
  h.misses fun t ht => by rw [of_decide_eq_true ht]; exact hp

/-- A punctuator outside the list ends what the list would carry on. -/
theorem stops_punct {ks : List Token.Kind} {p : Punct} {t : Token} (h : t.is p)
    (hp : .punct p ∉ ks) : Stops ks (t :: ts) := by
  rw [stops_cons, of_decide_eq_true h]
  exact hp

theorem compounds_subset {p q : Punct} {o : Token} (hp : (p, q) ∈ compounds) (h : o.is p) :
    o.kind ∈ assignmentTails := by
  rw [of_decide_eq_true h]
  exact List.mem_append_left _ (.tail _ (List.mem_map.2 ⟨_, hp, rfl⟩))

theorem stops_compound {p q : Punct} {o : Token} (hp : (p, q) ∈ compounds) (h : o.is p) :
    Stops ternaryTails (o :: ts) := by
  have apart : ∀ c ∈ compounds, .punct c.1 ∉ ternaryTails := by decide
  exact stops_punct h (apart _ hp)

theorem misses_equal_compound {p q : Punct} {o : Token} (hp : (p, q) ∈ compounds) (h : o.is p) :
    Misses (·.is .equal) (o :: ts) := by
  have apart : ∀ c ∈ compounds, c.1 ≠ .equal := by decide
  rw [Parser.misses_cons, Token.is, of_decide_eq_true h]
  simpa using apart _ hp

/-- No operator of a level is one of a tighter level. -/
theorem stops_operator {l : Level} {o : Token} (h : o.kind ∈ operators l) :
    Stops (operandTails (tighter l)) (o :: ts) := by
  rw [stops_cons]
  have apart : ∀ k ∈ operators l, k ∉ operandTails (tighter l) := by cases l <;> decide
  exact apart _ h

theorem operandTails_tighter (l : Level) : operandTails (tighter l) ⊆ operandTails (some l) := by
  intro k hk
  simp only [operandTails, levels_some, List.flatMap_cons, List.append_assoc, List.mem_append] at hk ⊢
  exact .inr hk

theorem operators_subset (l : Level) : operators l ⊆ operandTails (some l) := by
  intro k hk
  simp only [operandTails, levels_some, List.flatMap_cons, List.append_assoc, List.mem_append]
  exact .inl hk

section Targets

variable {i j : NodeId} {e : Expr}

theorem calls_property {callee f : Expr} {us : List Token} {i j : NodeId} {d n : Token}
    (h : Derives (.calls callee) us i f j) (hd : d.is .dot) (hn : n.kind = .identifier) :
    Derives (.calls callee) (us ++ [d, n]) i (.get f (ofToken n)) j := by
  cases h with
  | noCall => exact .property hd hn .noCall
  | invoke ho ha hc h =>
    have := Derives.invoke ho ha hc (calls_property h hd hn)
    simpa using this
  | property hd' hn' h => exact .property hd' hn' (calls_property h hd hn)
  | index ho hx hc h =>
    have := Derives.index ho hx hc (calls_property h hd hn)
    simpa using this
termination_by us.length

theorem call_property {d n : Token} (h : Derives .call ts i e j) (hd : d.is .dot) (hn : n.kind = .identifier) :
    Derives .call (ts ++ [d, n]) i (.get e (ofToken n)) j := by
  cases h with
  | call h1 h2 =>
    rw [List.append_assoc]
    exact .call h1 (calls_property h2 hd hn)

theorem call_name {n : Token} (hn : n.kind = .identifier) :
    Derives .call [n] i (.variable i (ofToken n)) (i + 1) :=
  .call (.name hn) .noCall

/-- A call without operators is an operand of every level. -/
theorem operand_of_call {l : Option Level} (h : Derives .call ts i e j) : Derives (.operand l) ts i e j := by
  cases l with
  | none => exact .unaryOperand (.plainUnary (.plainPrefixed (.plainSuffixed h)))
  | some l =>
    have : (levels (tighter l)).length < (levels (some l)).length := by simp [levels_some]
    rw [← List.append_nil ts]
    exact .operand (operand_of_call h) .noOperator
termination_by (levels l).length

theorem ternary_of_call (h : Derives .call ts i e j) : Derives .ternary ts i e j :=
  .plainTernary (operand_of_call h)

end Targets

end Scriptlet.Grammar
