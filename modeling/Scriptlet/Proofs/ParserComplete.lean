import Scriptlet.Proofs.Lookahead

/-!
The parser accepts every derivation of the grammar, if the token after it cannot carry it on. The budget of a symbol is
paid by its tokens and by the number of symbols through which it can pass before one of them is taken.
-/
namespace Scriptlet.Grammar

open Scriptlet.Parser (Level Misses Takes misses_accept misses_acceptKeyword misses_acceptNamedFunction misses_cons
  misses_next misses_nil misses_take? misses_takeAs? misses_takeOperator? takes_accept takes_acceptKeyword
  takes_acceptNamedFunction takes_atEnd takes_expect takes_expectName takes_freshId takes_loopControl takes_next
  takes_pure takes_take? takes_takeAs? takes_takeOperator? takes_withLoopDepth)
open Scriptlet.Parser.Name (ofToken)

/-- What a budget suffices for: to each symbol, `24` for every token and the depth down to the first one. -/
structure Complete (n : Nat) : Prop where
  expression {depth ts rest i e j} : Derives .expression ts i e j → 24 * ts.length + 17 ≤ n →
    Stops expressionTails rest → Takes (Parser.expression n) depth ts rest i e j
  commas {depth left ts rest i e j} : Derives (.commas left) ts i e j → 24 * ts.length + 1 ≤ n →
    Stops expressionTails rest → Takes (Parser.commaTail n left) depth ts rest i e j
  assignment {depth ts rest i e j} : Derives .assignment ts i e j → 24 * ts.length + 16 ≤ n →
    Stops assignmentTails rest → Takes (Parser.assignment n) depth ts rest i e j
  ternary {depth ts rest i e j} : Derives .ternary ts i e j → 24 * ts.length + 15 ≤ n →
    Stops ternaryTails rest → Takes (Parser.ternary n) depth ts rest i e j
  operand {depth l ts rest i e j} : Derives (.operand l) ts i e j → 24 * ts.length + (levels l).length + 5 ≤ n →
    Stops (operandTails l) rest → Takes (Parser.operand n (levels l)) depth ts rest i e j
  operands {depth l left ts rest i e j} : Derives (.operands l left) ts i e j → 24 * ts.length + 1 ≤ n →
    Stops (operandTails (some l)) rest →
      Takes (Parser.operandTail n l (levels (tighter l)) left) depth ts rest i e j
  unary {depth ts rest i e j} : Derives .unary ts i e j → 24 * ts.length + 4 ≤ n →
    Stops (operandTails none) rest → Takes (Parser.unary n) depth ts rest i e j
  suffixed {depth ts rest i e j} : Derives .suffixed ts i e j → 24 * ts.length + 3 ≤ n →
    Stops (operandTails none) rest → Takes (Parser.suffixed n) depth ts rest i e j
  call {depth ts rest i e j} : Derives .call ts i e j → 24 * ts.length + 2 ≤ n →
    Stops callTails rest → Takes (Parser.call n) depth ts rest i e j
  calls {depth callee ts rest i e j} : Derives (.calls callee) ts i e j → 24 * ts.length + 1 ≤ n →
    Stops callTails rest → Takes (Parser.callTail n callee) depth ts rest i e j
  arguments {depth count ts rest i args j} : Derives .values ts i args j → 24 * ts.length + 17 ≤ n →
    count + args.length ≤ 255 → Stops expressionTails rest →
      Takes (Parser.arguments n count) depth ts rest i args j
  primary {depth ts rest i e j} : Derives .primary ts i e j → 24 * ts.length + 1 ≤ n →
    Takes (Parser.primary n) depth ts rest i e j
  routine {depth role ts rest i r j} : Derives .method ts i r j → 24 * ts.length + 1 ≤ n →
    Takes (Parser.routine n role) depth ts rest i r j
  routineRest {depth name role ts rest i r j} : Derives (.function name) ts i r j → 24 * ts.length + 1 ≤ n →
    Takes (Parser.routineRest n name role) depth ts rest i r j
  block {depth l ts c rest i body j} : Derives (.declarations l) ts i body j → c.is .rightBrace →
    24 * ts.length + 25 ≤ n → (l = true → depth ≠ 0) → Takes (Parser.block n) depth (ts ++ [c]) rest i body j
  members {depth ts c rest i ms j} : Derives .members ts i ms j → c.is .rightBrace → 24 * ts.length + 25 ≤ n →
    Takes (Parser.members n) depth (ts ++ [c]) rest i ms j
  declaration {depth l ts rest i s j} : Derives (.declaration l) ts i s j → 24 * ts.length + 19 ≤ n →
    (l = true → depth ≠ 0) → Misses (·.isKeyword .else) rest →
      Takes (Parser.declaration n) depth ts rest i s j
  statement {depth l ts rest i s j} : Derives (.statement l) ts i s j → 24 * ts.length + 18 ≤ n →
    (l = true → depth ≠ 0) → (endsOpen s = true → Misses (·.isKeyword .else) rest) →
      Takes (Parser.statement n) depth ts rest i s j
  condition {depth keyword o ts p rest i e j} : o.is .leftParen → Derives .expression ts i e j → p.is .rightParen →
    24 * ts.length + 18 ≤ n → Takes (Parser.condition n keyword) depth (o :: ts ++ [p]) rest i e j

section Expressions

variable {n depth : Nat} {ts rest : List Token} {i j : NodeId} {e : Expr} (ih : Complete n)
include ih

theorem expression_complete (d : Derives .expression ts i e j) (hn : 24 * ts.length + 17 ≤ n + 1)
    (hs : Stops expressionTails rest) : Takes (Parser.expression (n + 1)) depth ts rest i e j := by
  cases d with
  | @expression ts _ _ _ us _ _ d1 d2 =>
    rw [List.length_append] at hn
    refine .bind (ih.assignment d1 (by omega) ?_) (ih.commas d2 (by omega) hs)
    cases d2 with
    | noComma => exact hs.mono (List.subset_cons_self _ _)
    | comma hc => exact stops_punct hc (by decide)

theorem commas_complete {left : Expr} (d : Derives (.commas left) ts i e j)
    (hn : 24 * ts.length + 1 ≤ n + 1) (hs : Stops expressionTails rest) :
    Takes (Parser.commaTail (n + 1) left) depth ts rest i e j := by
  cases d with
  | noComma => exact .none (misses_take? (hs.misses_punct (by decide))) takes_pure
  | comma hc d1 d2 =>
    rw [List.cons_append, List.length_cons, List.length_append] at hn
    refine .cons (takes_take? hc) (.bind (ih.assignment d1 (by omega) ?_) (ih.commas d2 (by omega) hs))
    cases d2 with
    | noComma => exact hs.mono (List.subset_cons_self _ _)
    | comma hc => exact stops_punct hc (by decide)

theorem ternary_complete (d : Derives .ternary ts i e j) (hn : 24 * ts.length + 15 ≤ n + 1)
    (hs : Stops ternaryTails rest) : Takes (Parser.ternary (n + 1)) depth ts rest i e j := by
  have nine : (levels (some Level.or)).length = 9 := rfl
  cases d with
  | plainTernary d =>
    refine .last (ih.operand d (by omega) (hs.mono (List.subset_cons_self _ _))) ?_
    exact .none (misses_accept (hs.misses_punct (.head _ ..))) takes_pure
  | ternary d1 hq d2 hc d3 =>
    simp only [List.append_assoc, List.cons_append, List.length_append, List.length_cons] at hn ⊢
    refine .bind (ih.operand d1 (by omega) (stops_punct hq (by decide))) (.cons (takes_accept hq) ?_)
    refine .bind (ih.ternary d2 (by omega) (stops_punct hc (by decide))) (.cons (takes_expect hc) ?_)
    exact .last (ih.ternary d3 (by omega) hs) takes_pure

theorem operand_complete {l : Option Level} (d : Derives (.operand l) ts i e j)
    (hn : 24 * ts.length + (levels l).length + 5 ≤ n + 1) (hs : Stops (operandTails l) rest) :
    Takes (Parser.operand (n + 1) (levels l)) depth ts rest i e j := by
  cases d with
  | unaryOperand d =>
    have none : (levels Option.none).length = 0 := rfl
    exact ih.unary d (by omega) hs
  | @operand l _ _ _ _ _ _ _ d1 d2 =>
    rw [levels_some] at hn ⊢
    rw [List.length_append, List.length_cons] at hn
    refine .bind (ih.operand d1 (by omega) ?_) (ih.operands d2 (by omega) hs)
    cases d2 with
    | noOperator => exact hs.mono (operandTails_tighter l)
    | operator ho => exact stops_operator ho

theorem operands_complete {l : Level} {left : Expr} (d : Derives (.operands l left) ts i e j)
    (hn : 24 * ts.length + 1 ≤ n + 1) (hs : Stops (operandTails (some l)) rest) :
    Takes (Parser.operandTail (n + 1) l (levels (tighter l)) left) depth ts rest i e j := by
  cases d with
  | noOperator =>
    exact .none (misses_take? (hs.misses fun t ht => operators_subset l (has_iff.1 ht))) takes_pure
  | operator ho d1 d2 =>
    have few : (levels (tighter l)).length ≤ 8 := by cases l <;> decide
    rw [List.cons_append, List.length_cons, List.length_append] at hn
    rw [← node_eq_joined] at d2
    refine .cons (takes_take? (has_iff.2 ho)) (.bind (ih.operand d1 (by omega) ?_) (ih.operands d2 (by omega) hs))
    cases d2 with
    | noOperator => exact hs.mono (operandTails_tighter l)
    | operator ho => exact stops_operator ho

theorem unary_complete (d : Derives .unary ts i e j) (hn : 24 * ts.length + 4 ≤ n + 1)
    (hs : Stops (operandTails none) rest) : Takes (Parser.unary (n + 1)) depth ts rest i e j := by
  have operator {p q : Punct} {o : Token} {us : List Token} (hp : (p, q) ∈ steps) (ho : o.is p) :
      Misses (fun t => t.is .bang || t.is .minus) (o :: us) := by
    rw [misses_cons]
    rcases kind_of_steps hp ho with h | h <;> simp [h, Token.is]
  cases d with
  | unary ho d =>
    rw [List.length_cons] at hn
    have ho : (_ || _) = true := Bool.or_eq_true_iff.2 ho
    exact .cons (takes_take? ho) (.last (ih.unary d (by omega) hs) takes_pure)
  | plainUnary d =>
    cases d with
    | stepName hp ho hn' =>
      refine .none (misses_take? (operator hp ho)) ?_
      refine .cons (takes_takeOperator? (stepOperator?_eq_some.2 ⟨_, hp, ho⟩)) ?_
      refine .last (ih.suffixed (.plainSuffixed (call_name hn')) (by simp at hn ⊢; omega) hs) ?_
      exact .none (.none takes_freshId takes_pure) takes_pure
    | stepProperty hp ho d hd hn' =>
      refine .none (misses_take? (operator hp ho)) ?_
      refine .cons (takes_takeOperator? (stepOperator?_eq_some.2 ⟨_, hp, ho⟩)) ?_
      refine .last (ih.suffixed (.plainSuffixed (call_property d hd hn')) (by simp at hn ⊢; omega) hs) ?_
      exact .none takes_pure takes_pure
    | plainPrefixed d =>
      have begin := (suffixed_opens d).append rest
      refine .none (misses_take? (begin.misses fun t ht => ?_)) ?_
      · rw [Bool.or_eq_false_iff]
        constructor <;> rw [Bool.eq_false_iff] <;> intro h <;> simp [of_decide_eq_true h, opensCall] at ht
      refine .none (misses_takeOperator? (begin.misses fun t ht => ?_)) (ih.suffixed d (by omega) hs)
      rw [Bool.eq_false_iff]
      intro h
      rcases kind_of_stepOperator? h with h | h <;> simp [h, opensCall] at ht

theorem suffixed_complete (d : Derives .suffixed ts i e j) (hn : 24 * ts.length + 3 ≤ n + 1)
    (hs : Stops (operandTails none) rest) : Takes (Parser.suffixed (n + 1)) depth ts rest i e j := by
  cases d with
  | suffixed hn' hp ho =>
    simp only [List.length_cons, List.length_nil] at hn
    refine .cons (ih.call (call_name hn') (by simp only [List.length_cons, List.length_nil]; omega) ?_) ?_
    · rw [List.cons_append, stops_cons]
      rcases kind_of_steps hp ho with h | h <;> rw [h] <;> decide
    · refine .cons (takes_take? ?_) (.none takes_freshId takes_pure)
      rw [stepOperator?_eq_some.2 ⟨_, hp, ho⟩]
      rfl
  | plainSuffixed d =>
    refine .last (ih.call d (by omega) (hs.mono (by decide))) (.none (misses_take? (hs.misses fun t ht => ?_))
      takes_pure)
    rcases kind_of_stepOperator? ht with h | h <;> rw [h] <;> decide

theorem call_complete (d : Derives .call ts i e j) (hn : 24 * ts.length + 2 ≤ n + 1)
    (hs : Stops callTails rest) : Takes (Parser.call (n + 1)) depth ts rest i e j := by
  cases d with
  | call d1 d2 =>
    rw [List.length_append] at hn
    exact .bind (ih.primary d1 (by omega)) (ih.calls d2 (by omega) hs)

theorem assignment_complete (d : Derives .assignment ts i e j) (hn : 24 * ts.length + 16 ≤ n + 1)
    (hs : Stops assignmentTails rest) : Takes (Parser.assignment (n + 1)) depth ts rest i e j := by
  have split (ts us : List Token) (d n o : Token) : ts ++ d :: n :: o :: us = (ts ++ [d, n]) ++ o :: us := by simp
  cases d with
  | assignName hn' ho d =>
    simp only [List.length_cons] at hn
    refine .cons (ih.ternary (ternary_of_call (call_name hn')) (by simp; omega) (stops_punct ho (by decide))) ?_
    refine .cons (takes_take? ho) (.last (ih.assignment d (by omega) hs) ?_)
    exact .none takes_freshId takes_pure
  | assignProperty d1 hd hn' ho d2 =>
    rw [split] at hn ⊢
    rw [List.length_append, List.length_cons] at hn
    refine .bind (ih.ternary (ternary_of_call (call_property d1 hd hn')) (by omega) (stops_punct ho (by decide))) ?_
    exact .cons (takes_take? ho) (.last (ih.assignment d2 (by omega) hs) takes_pure)
  | updateName hn' hp ho d =>
    simp only [List.length_cons] at hn
    refine .cons (ih.ternary (ternary_of_call (call_name hn')) (by simp; omega) (stops_compound hp ho)) ?_
    refine .none (misses_take? (misses_equal_compound hp ho)) ?_
    refine .cons (takes_takeOperator? (compoundOperator?_eq_some.2 ⟨_, hp, ho⟩)) ?_
    refine .last (ih.assignment d (by omega) hs) ?_
    exact .none (.none takes_freshId takes_pure) takes_pure
  | updateProperty d1 hd hn' hp ho d2 =>
    rw [split] at hn ⊢
    rw [List.length_append, List.length_cons] at hn
    refine .bind (ih.ternary (ternary_of_call (call_property d1 hd hn')) (by omega) (stops_compound hp ho)) ?_
    refine .none (misses_take? (misses_equal_compound hp ho)) ?_
    refine .cons (takes_takeOperator? (compoundOperator?_eq_some.2 ⟨_, hp, ho⟩)) ?_
    refine .last (ih.assignment d2 (by omega) hs) ?_
    exact .none takes_pure takes_pure
  | plainAssignment d =>
    refine .last (ih.ternary d (by omega) (hs.mono (by decide))) ?_
    refine .none (misses_take? (hs.misses_punct (by decide))) ?_
    refine .none (misses_takeOperator? (hs.misses fun t ht => ?_)) takes_pure
    obtain ⟨q, h⟩ := Option.isSome_iff_exists.1 ht
    obtain ⟨p, hp, h⟩ := compoundOperator?_eq_some.1 h
    exact compounds_subset hp h

theorem calls_complete {callee : Expr} (d : Derives (.calls callee) ts i e j)
    (hn : 24 * ts.length + 1 ≤ n + 1) (hs : Stops callTails rest) :
    Takes (Parser.callTail (n + 1) callee) depth ts rest i e j := by
  -- the three tests are made in turn, so each alternative fails those before its own
  have other {t : Token} {p q : Punct} {us : List Token} (h : t.is p) (hq : p ≠ q) : Misses (·.is q) (t :: us) := by
    rw [misses_cons, Token.is, of_decide_eq_true h]
    simpa using hq
  cases d with
  | noCall =>
    refine .none (misses_accept (hs.misses_punct (by decide))) ?_
    refine .none (misses_accept (hs.misses_punct (by decide))) ?_
    exact .none (misses_accept (hs.misses_punct (by decide))) takes_pure
  | invoke ho d1 hc d2 =>
    simp only [List.cons_append, List.length_cons, List.length_append] at hn ⊢
    refine .cons (takes_accept ho) ?_
    cases d1 with
    | noArgument =>
      refine .none (takes_next hc) (.none takes_pure (.cons (takes_expect hc) ?_))
      exact ih.calls d2 (by omega) hs
    | someArguments d1 hlen =>
      refine .none (misses_next (((values_opens d1).append _).misses_punct rfl rest)) ?_
      refine .bind (ih.arguments d1 (by omega) (by omega) (stops_punct hc (by decide))) ?_
      exact .cons (takes_expect hc) (ih.calls d2 (by omega) hs)
  | property hd hn' d =>
    simp only [List.length_cons] at hn
    refine .none (misses_accept (other hd (by decide))) (.cons (takes_accept hd) ?_)
    exact .cons (takes_expectName hn') (ih.calls d (by omega) hs)
  | index ho d1 hc d2 =>
    simp only [List.cons_append, List.length_cons, List.length_append] at hn ⊢
    refine .none (misses_accept (other ho (by decide))) ?_
    refine .none (misses_accept (other ho (by decide))) (.cons (takes_accept ho) ?_)
    refine .bind (ih.expression d1 (by omega) (stops_punct hc (by decide))) ?_
    exact .cons (takes_expect hc) (ih.calls d2 (by omega) hs)

theorem arguments_complete {count : Nat} {args : List Expr} (d : Derives .values ts i args j)
    (hn : 24 * ts.length + 17 ≤ n + 1) (hc : count + args.length ≤ 255) (hs : Stops expressionTails rest) :
    Takes (Parser.arguments (n + 1) count) depth ts rest i args j := by
  have few : 0 < args.length := by cases d <;> simp
  have below : ¬ maxArity ≤ count := by simp only [maxArity]; omega
  unfold Parser.arguments
  rw [if_neg below]
  cases d with
  | oneValue d =>
    refine .last (ih.assignment d (by omega) (hs.mono (List.subset_cons_self _ _))) ?_
    exact .none (misses_accept (hs.misses_punct (by decide))) takes_pure
  | moreValues d1 ho d2 =>
    simp only [List.length_append, List.length_cons] at hn hc
    refine .bind (ih.assignment d1 (by omega) (stops_punct ho (by decide))) (.cons (takes_accept ho) ?_)
    exact .last (ih.arguments d2 (by omega) (by omega) hs) takes_pure

theorem primary_complete (d : Derives .primary ts i e j) (hn : 24 * ts.length + 1 ≤ n + 1) :
    Takes (Parser.primary (n + 1)) depth ts rest i e j := by
  cases d with
  | numberLiteral h | textLiteral h => exact .cons (takes_takeAs? (by simp [Parser.literal?, h])) takes_pure
  | trueLiteral h | falseLiteral h | nullLiteral h =>
    have h := of_decide_eq_true h
    exact .cons (takes_takeAs? (by simp [Parser.literal?, h])) takes_pure
  | thisWord h =>
    have hk := of_decide_eq_true h
    refine .none (misses_takeAs? (misses_cons.2 (by simp [Parser.literal?, hk]))) ?_
    exact .cons (takes_take? h) (.none takes_freshId takes_pure)
  | name h =>
    refine .none (misses_takeAs? (misses_cons.2 (by simp [Parser.literal?, h]))) ?_
    refine .none (misses_take? (misses_cons.2 (by simp [Token.isKeyword, h]))) ?_
    exact .cons (takes_take? (by simpa using h)) (.none takes_freshId takes_pure)
  | group ho d hc =>
    have hk := of_decide_eq_true ho
    simp only [List.cons_append, List.length_cons, List.length_append] at hn ⊢
    refine .none (misses_takeAs? (misses_cons.2 (by simp [Parser.literal?, hk]))) ?_
    refine .none (misses_take? (misses_cons.2 (by simp [Token.isKeyword, hk]))) ?_
    refine .none (misses_take? (misses_cons.2 (by simp [hk]))) ?_
    refine .cons (takes_accept ho) (.bind (ih.expression d (by omega) (stops_punct hc (by decide))) ?_)
    exact .cons (takes_expect hc) takes_pure
  | lambda hf d =>
    have hk := of_decide_eq_true hf
    rw [List.length_cons] at hn
    refine .none (misses_takeAs? (misses_cons.2 (by simp [Parser.literal?, hk]))) ?_
    refine .none (misses_take? (misses_cons.2 (by simp [Token.isKeyword, hk]))) ?_
    refine .none (misses_take? (misses_cons.2 (by simp [hk]))) ?_
    refine .none (misses_accept (misses_cons.2 (by simp [Token.is, hk]))) ?_
    exact .cons (takes_take? hf) (.last (ih.routineRest d (by omega)) takes_pure)

end Expressions

section Declarations

variable {n depth : Nat} {ts rest : List Token} {i j : NodeId}

theorem parameters_complete {count : Nat} {ts rest : List Token} {i j : NodeId} {ps : List Name}
    (d : Derives .names ts i ps j) (hn : ts.length < n) (hc : count + ps.length ≤ 255)
    (hs : Misses (·.is .comma) rest) : Takes (Parser.parameters n count) depth ts rest i ps j := by
  induction n generalizing count ts i ps j with
  | zero => omega
  | succ n ih =>
    have few : 0 < ps.length := by cases d <;> simp
    have below : ¬ maxArity ≤ count := by simp only [maxArity]; omega
    unfold Parser.parameters
    rw [if_neg below]
    cases d with
    | oneName hn' =>
      exact .cons (takes_expectName hn') (.none (misses_accept hs) takes_pure)
    | moreNames hn' ho d =>
      simp only [List.length_cons] at hn hc
      refine .cons (takes_expectName hn') (.cons (takes_accept ho) ?_)
      exact .last (ih d (by omega) (by omega)) takes_pure

theorem routine_complete {role : Role} {r : Routine} (ih : Complete n) (d : Derives .method ts i r j)
    (hn : 24 * ts.length + 1 ≤ n + 1) : Takes (Parser.routine (n + 1) role) depth ts rest i r j := by
  cases d with
  | method hn' d =>
    rw [List.length_cons] at hn
    exact .cons (takes_expectName hn') (ih.routineRest d (by omega))

theorem routineRest_complete {name : Name} {role : Role} {r : Routine} (ih : Complete n)
    (d : Derives (.function name) ts i r j) (hn : 24 * ts.length + 1 ≤ n + 1) :
    Takes (Parser.routineRest (n + 1) name role) depth ts rest i r j := by
  cases d with
  | function ho d1 hc d2 =>
    cases d2 with
    | block ho' d2 hc' =>
      simp only [List.cons_append, List.length_cons, List.length_append, List.length_nil] at hn ⊢
      refine .cons (takes_expect ho) ?_
      have body : Takes (Parser.withLoopDepth (fun _ => 0) (Parser.block n)) depth _ rest i _ j :=
        takes_withLoopDepth (ih.block d2 hc' (by omega) (by simp))
      cases d1 with
      | noParameter =>
        refine .none (takes_next hc) (.none takes_pure (.cons (takes_expect hc) ?_))
        exact .cons (takes_expect ho') (.last body takes_pure)
      | someParameters d1 hlen =>
        refine .none (misses_next ?_) ?_
        · obtain ⟨t, us, rfl, ht⟩ := names_begin d1
          simp [misses_cons, Token.is, ht]
        refine .bind (parameters_complete d1 (by omega) (by omega) ?_) (.cons (takes_expect hc) ?_)
        · simp [misses_cons, Token.is, of_decide_eq_true hc]
        · exact .cons (takes_expect ho') (.last body takes_pure)

theorem block_complete {l : Bool} {c : Token} {body : List Stmt} (ih : Complete n)
    (d : Derives (.declarations l) ts i body j) (hc : c.is .rightBrace) (hn : 24 * ts.length + 25 ≤ n + 1)
    (hl : l = true → depth ≠ 0) : Takes (Parser.block (n + 1)) depth (ts ++ [c]) rest i body j := by
  cases d with
  | noDeclaration =>
    refine .none (takes_next hc) (.none takes_atEnd ?_)
    exact .cons (takes_expect hc) takes_pure
  | moreDeclarations d1 d2 =>
    obtain ⟨t, us, rfl, he, hb⟩ := declaration_opens d1
    simp only [List.cons_append, List.length_cons, List.length_append] at hn
    rw [List.append_assoc]
    refine .none (misses_next ?_) (.none takes_atEnd ?_)
    · simpa [misses_cons, Token.is] using hb
    · refine .bind (ih.declaration d1 (by simp; omega) hl ?_) (.last (ih.block d2 hc (by omega) hl) takes_pure)
      rw [List.append_assoc]
      exact declarations_misses_else d2 (by simp [misses_cons, Token.isKeyword, of_decide_eq_true hc])

theorem members_complete {c : Token} {ms : List Routine × List Routine} (ih : Complete n)
    (d : Derives .members ts i ms j) (hc : c.is .rightBrace) (hn : 24 * ts.length + 25 ≤ n + 1) :
    Takes (Parser.members (n + 1)) depth (ts ++ [c]) rest i ms j := by
  cases d with
  | noMember =>
    refine .none (takes_next hc) (.none takes_atEnd ?_)
    exact .cons (takes_expect hc) takes_pure
  | oneMethod d1 d2 =>
    cases d1 with
    | method hn' d1 =>
      simp only [List.cons_append, List.length_cons, List.length_append] at hn
      refine .none (misses_next ?_) (.none takes_atEnd ?_)
      · simp [misses_cons, Token.is, hn']
      refine .none (misses_acceptKeyword ?_) ?_
      · simp [misses_cons, Token.isKeyword, hn']
      rw [List.append_assoc]
      refine .bind (ih.routine (.method hn' d1) (by simp; omega)) ?_
      exact .last (ih.members d2 hc (by omega)) takes_pure
  | oneStatic hs d1 d2 =>
    simp only [List.cons_append, List.length_cons, List.length_append] at hn ⊢
    refine .none (misses_next ?_) (.none takes_atEnd (.cons (takes_acceptKeyword hs) ?_))
    · simp [misses_cons, Token.is, of_decide_eq_true hs]
    rw [List.append_assoc]
    refine .bind (ih.routine d1 (by omega)) ?_
    exact .last (ih.members d2 hc (by omega)) takes_pure

theorem condition_complete {keyword : Keyword} {o p : Token} {e : Expr} (ih : Complete n) (ho : o.is .leftParen)
    (d : Derives .expression ts i e j) (hp : p.is .rightParen) (hn : 24 * ts.length + 18 ≤ n + 1) :
    Takes (Parser.condition (n + 1) keyword) depth (o :: ts ++ [p]) rest i e j := by
  rw [List.cons_append]
  refine .cons (takes_expect ho) (.bind (ih.expression d (by omega) (stops_punct hp (by decide))) ?_)
  exact .cons (takes_expect hp) takes_pure

theorem declaration_complete {l : Bool} {s : Stmt} (ih : Complete n) (d : Derives (.declaration l) ts i s j)
    (hn : 24 * ts.length + 19 ≤ n + 1) (hl : l = true → depth ≠ 0) (hs : Misses (·.isKeyword .else) rest) :
    Takes (Parser.declaration (n + 1)) depth ts rest i s j := by
  cases d with
  | plainClass hc hn' ho d he =>
    simp only [List.cons_append, List.length_cons, List.length_append, List.length_nil] at hn ⊢
    refine .cons (takes_acceptKeyword hc) (.cons (takes_expectName hn') ?_)
    refine .none (misses_accept ?_) (.none takes_pure (.cons (takes_expect ho) ?_))
    · simp [misses_cons, Token.is, of_decide_eq_true ho]
    · exact .last (ih.members d he (by omega)) takes_pure
  | derivedClass hc hn' hb d1 ho d2 he =>
    simp only [List.cons_append, List.append_assoc, List.length_cons, List.length_append, List.length_nil] at hn ⊢
    refine .cons (takes_acceptKeyword hc) (.cons (takes_expectName hn') ?_)
    refine .cons (takes_accept hb) (.bind (ih.call d1 (by omega) (stops_punct ho (by decide))).map ?_)
    exact .cons (takes_expect ho) (.last (ih.members d2 he (by omega)) takes_pure)
  | functionDeclaration hc d =>
    refine .none (misses_acceptKeyword ?_) ?_
    · simp [misses_cons, Token.isKeyword, of_decide_eq_true hc]
    cases d with
    | method hn' d =>
      simp only [List.length_cons] at hn
      refine .cons (takes_acceptNamedFunction hc hn') ?_
      exact .last (ih.routine (.method hn' d) (by simp; omega)) takes_pure
  | plainVariable hc hn' he =>
    refine .none (misses_acceptKeyword ?_) (.none (misses_acceptNamedFunction ?_) ?_)
    · simp [misses_cons, Token.isKeyword, of_decide_eq_true hc]
    · rintro t u vs ⟨⟩ hf
      cases (of_decide_eq_true hf).symm.trans (of_decide_eq_true hc)
    refine .cons (takes_acceptKeyword hc) (.cons (takes_expectName hn') ?_)
    refine .none (misses_accept ?_) (.none takes_pure (.cons (takes_expect he) takes_pure))
    simp [misses_cons, Token.is, of_decide_eq_true he]
  | initialVariable hc hn' ho d he =>
    simp only [List.cons_append, List.length_cons, List.length_append, List.length_nil] at hn ⊢
    refine .none (misses_acceptKeyword ?_) (.none (misses_acceptNamedFunction ?_) ?_)
    · simp [misses_cons, Token.isKeyword, of_decide_eq_true hc]
    · rintro t u vs ⟨⟩ hf
      cases (of_decide_eq_true hf).symm.trans (of_decide_eq_true hc)
    refine .cons (takes_acceptKeyword hc) (.cons (takes_expectName hn') ?_)
    refine .cons (takes_accept ho) (.bind (ih.expression d (by omega) (stops_punct he (by decide))).map ?_)
    exact .cons (takes_expect he) takes_pure
  | statement d =>
    have begin := statement_opens d
    refine .none (misses_acceptKeyword (begin.misses_keyword rfl rest)) ?_
    refine .none (misses_acceptNamedFunction ?_) ?_
    · intro t u vs h hf
      obtain ⟨t', us, rfl, -, lambda⟩ := begin
      obtain ⟨rfl, -⟩ := List.cons.inj h
      obtain ⟨u', ws, rfl, hu⟩ := lambda hf
      obtain ⟨-, h⟩ := List.cons.inj h
      obtain ⟨rfl, -⟩ := List.cons.inj h
      simp [of_decide_eq_true hu]
    refine .none (misses_acceptKeyword (begin.misses_keyword rfl rest)) ?_
    exact ih.statement d (by omega) hl fun _ => hs

theorem statement_complete {l : Bool} {s : Stmt} (ih : Complete n) (d : Derives (.statement l) ts i s j)
    (hn : 24 * ts.length + 18 ≤ n + 1) (hl : l = true → depth ≠ 0)
    (hs : endsOpen s = true → Misses (·.isKeyword .else) rest) :
    Takes (Parser.statement (n + 1)) depth ts rest i s j := by
  -- a statement that begins with one keyword fails the tests for the others
  have other {t : Token} {us : List Token} {k k' : Keyword} (h : t.isKeyword k) (hk : k ≠ k') :
      Misses (·.isKeyword k') (t :: us) := by
    rw [misses_cons, Token.isKeyword, of_decide_eq_true h]
    simpa using hk
  have brace {t : Token} {us : List Token} {k : Keyword} (h : t.is .leftBrace) : Misses (·.isKeyword k) (t :: us) := by
    rw [misses_cons, Token.isKeyword, of_decide_eq_true h]
    rfl
  have split (o p : Token) (ts us : List Token) : o :: ts ++ p :: us = (o :: ts ++ [p]) ++ us := by simp
  have split' (o p : Token) (ts us vs : List Token) : o :: ts ++ p :: us ++ vs = (o :: ts ++ [p]) ++ (us ++ vs) := by
    simp
  cases d with
  | ifThen hc ho d1 hp d2 =>
    rw [List.cons_append, split] at hn ⊢
    simp only [List.length_cons, List.length_append, List.length_nil] at hn
    refine .cons (takes_acceptKeyword hc) (.bind (ih.condition ho d1 hp (by omega)) ?_)
    refine .last (ih.statement d2 (by omega) hl fun _ => hs rfl) ?_
    exact .none (misses_acceptKeyword (hs rfl)) (.none takes_pure takes_pure)
  | ifElse hc ho d1 hp d2 hy hd d3 =>
    rw [List.cons_append, List.cons_append, split'] at hn ⊢
    simp only [List.length_cons, List.length_append, List.length_nil] at hn
    refine .cons (takes_acceptKeyword hc) (.bind (ih.condition ho d1 hp (by omega)) ?_)
    refine .bind (ih.statement d2 (by omega) hl fun h => ?_) (.cons (takes_acceptKeyword hd) ?_)
    · rw [hy] at h
      cases h
    · exact .last (ih.statement d3 (by omega) hl hs).map takes_pure
  | «while» hc ho d1 hp d2 =>
    rw [List.cons_append, split] at hn ⊢
    simp only [List.length_cons, List.length_append, List.length_nil] at hn
    refine .none (misses_acceptKeyword (other hc (by decide))) (.cons (takes_acceptKeyword hc) ?_)
    refine .bind (ih.condition ho d1 hp (by omega)) (.last (takes_withLoopDepth ?_) takes_pure)
    exact ih.statement d2 (by omega) (fun _ => Nat.succ_ne_zero depth) hs
  | returnNull hc he =>
    refine .none (misses_acceptKeyword (other hc (by decide))) ?_
    refine .none (misses_acceptKeyword (other hc (by decide))) (.cons (takes_take? hc) ?_)
    exact .none (takes_next he) (.none takes_pure (.cons (takes_expect he) takes_pure))
  | returnValue hc d he =>
    simp only [List.cons_append, List.length_cons, List.length_append, List.length_nil] at hn ⊢
    refine .none (misses_acceptKeyword (other hc (by decide))) ?_
    refine .none (misses_acceptKeyword (other hc (by decide))) (.cons (takes_take? hc) ?_)
    refine .none (misses_next (((expression_opens d).append _).misses_punct rfl rest)) ?_
    refine .bind (ih.expression d (by omega) (stops_punct he (by decide))).map ?_
    exact .cons (takes_expect he) takes_pure
  | «break» hc he =>
    refine .none (misses_acceptKeyword (other hc (by decide))) ?_
    refine .none (misses_acceptKeyword (other hc (by decide))) ?_
    refine .none (misses_take? (other hc (by decide))) (.cons (takes_take? hc) ?_)
    exact .cons (takes_loopControl (hl rfl) he) takes_pure
  | «continue» hc he =>
    refine .none (misses_acceptKeyword (other hc (by decide))) ?_
    refine .none (misses_acceptKeyword (other hc (by decide))) ?_
    refine .none (misses_take? (other hc (by decide))) ?_
    refine .none (misses_take? (other hc (by decide))) (.cons (takes_take? hc) ?_)
    exact .cons (takes_loopControl (hl rfl) he) takes_pure
  | blockStatement d =>
    cases d with
    | block ho d hc =>
      simp only [List.cons_append, List.length_cons, List.length_append, List.length_nil] at hn ⊢
      refine .none (misses_acceptKeyword (brace ho)) (.none (misses_acceptKeyword (brace ho)) ?_)
      refine .none (misses_take? (brace ho)) (.none (misses_take? (brace ho)) ?_)
      refine .none (misses_take? (brace ho)) (.cons (takes_accept ho) ?_)
      exact .last (ih.block d hc (by omega) hl) takes_pure
  | print hc d he =>
    simp only [List.cons_append, List.length_cons, List.length_append, List.length_nil] at hn ⊢
    refine .none (misses_acceptKeyword (other hc (by decide))) ?_
    refine .none (misses_acceptKeyword (other hc (by decide))) ?_
    refine .none (misses_take? (other hc (by decide))) (.none (misses_take? (other hc (by decide))) ?_)
    refine .none (misses_take? (other hc (by decide))) (.none (misses_accept ?_) ?_)
    · simp [misses_cons, Token.is, of_decide_eq_true hc]
    refine .cons (takes_acceptKeyword hc) ?_
    refine .bind (ih.expression d (by omega) (stops_punct he (by decide))) ?_
    exact .cons (takes_expect he) takes_pure
  | expressionStatement d he =>
    simp only [List.length_append, List.length_cons, List.length_nil] at hn
    have begin := fun us => (expression_opens d).append us
    refine .none (misses_acceptKeyword ((begin _).misses_keyword rfl rest)) ?_
    refine .none (misses_acceptKeyword ((begin _).misses_keyword rfl rest)) ?_
    refine .none (misses_take? ((begin _).misses_keyword rfl rest)) ?_
    refine .none (misses_take? ((begin _).misses_keyword rfl rest)) ?_
    refine .none (misses_take? ((begin _).misses_keyword rfl rest)) ?_
    refine .none (misses_accept ((begin _).misses_punct rfl rest)) ?_
    refine .none (misses_acceptKeyword ((begin _).misses_keyword rfl rest)) ?_
    refine .bind (ih.expression d (by omega) (stops_punct he (by decide))) ?_
    exact .cons (takes_expect he) takes_pure

theorem complete (n : Nat) : Complete n := by
  induction n with
  | zero =>
    constructor
    all_goals intros
    all_goals omega
  | succ n ih =>
    exact {
      expression := expression_complete ih
      commas := commas_complete ih
      assignment := assignment_complete ih
      ternary := ternary_complete ih
      operand := operand_complete ih
      operands := operands_complete ih
      unary := unary_complete ih
      suffixed := suffixed_complete ih
      call := call_complete ih
      calls := calls_complete ih
      arguments := arguments_complete ih
      primary := primary_complete ih
      routine := routine_complete ih
      routineRest := routineRest_complete ih
      block := block_complete ih
      members := members_complete ih
      declaration := declaration_complete ih
      statement := statement_complete ih
      condition := condition_complete ih }

/-- A program is followed by nothing. -/
theorem program_complete {l : Bool} {program : List Stmt} (d : Derives (.declarations l) ts i program j)
    (hn : 24 * ts.length + 20 ≤ n) (hl : l = true → depth ≠ 0) :
    Takes (Parser.program n) depth ts [] i program j := by
  induction n generalizing ts i program with
  | zero => omega
  | succ n ih =>
    cases d with
    | noDeclaration => exact .none takes_atEnd takes_pure
    | moreDeclarations d1 d2 =>
      obtain ⟨t, us, rfl, -, -⟩ := declaration_opens d1
      simp only [List.length_append, List.length_cons] at hn
      have first : Takes (Parser.declaration n) depth (t :: us) _ i _ _ :=
        (complete n).declaration d1 (by simp; omega) hl (declarations_misses_else d2 (misses_nil _))
      refine .none takes_atEnd (.bind (a := some _) ?_ (.last (ih d2 (by omega)) takes_pure))
      intro line noted
      simp only [Parser.declaration?, first line noted]

theorem wholeExpression_complete {e : Expr} (d : WholeExpression ts i e j) (hn : 24 * ts.length + 17 ≤ n) :
    Takes (Parser.wholeExpression n) depth ts [] i e j := by
  rcases d with d | ⟨us, c, rfl, hc, d⟩
  · refine .last ((complete n).expression d hn (stops_nil _)) ?_
    exact .none (misses_accept (misses_nil _)) (.none takes_atEnd takes_pure)
  · rw [List.length_append] at hn
    refine .bind ((complete n).expression d (by omega) (stops_punct hc (by decide))) ?_
    exact .cons (takes_accept hc) (.none takes_atEnd takes_pure)

end Declarations

end Scriptlet.Grammar
