import Scriptlet.Proofs.ParserLaws

/-!
The tables of operators agree with the parser's, and a tree that can be assigned to has one shape of tokens only: a
name, or a call followed by a point and a name.
-/
namespace Scriptlet.Grammar

open Scriptlet.Parser (Level)
open Scriptlet.Parser.Name (ofToken)

/-- A level and all that bind tighter, as the parser lists them. -/
def levels : Option Level → List Level
  | none => []
  | some l => Level.all.dropWhile (· ≠ l)

theorem levels_some (l : Level) : levels (some l) = l :: levels (tighter l) := by
  cases l <;> rfl

theorem has_iff {l : Level} {t : Token} : l.has t = true ↔ t.kind ∈ operators l := by
  cases l <;> simp [Level.has, operators, Token.is, Token.isKeyword, or_assoc, or_left_comm]

theorem node_eq_joined (l : Level) (left : Expr) (op : Token) (right : Expr) :
    l.node left op right = joined l left op right := by
  cases l <;> rfl

theorem compoundOperator?_eq_some {t : Token} {q : Punct} :
    Parser.compoundOperator? t = some q ↔ ∃ p, (p, q) ∈ compounds ∧ t.is p := by
  simp only [compounds, Token.is, decide_eq_true_eq, List.mem_cons, Prod.mk.injEq, List.not_mem_nil, or_false]
  unfold Parser.compoundOperator?
  split <;> grind

theorem stepOperator?_eq_some {t : Token} {q : Punct} :
    Parser.stepOperator? t = some q ↔ ∃ p, (p, q) ∈ steps ∧ t.is p := by
  simp only [steps, Token.is, decide_eq_true_eq, List.mem_cons, Prod.mk.injEq, List.not_mem_nil, or_false]
  unfold Parser.stepOperator?
  split <;> grind

/-- What can be assigned to. -/
def isTarget : Expr → Bool
  | .variable _ _ => true
  | .get _ _ => true
  | _ => false

theorem not_isTarget_joined (l : Level) (left : Expr) (op : Token) (right : Expr) :
    isTarget (joined l left op right) = false := by
  cases l <;> rfl

variable {ts us : List Token} {i j : NodeId} {e : Expr}

/-- What operators build is no target, so a repetition that ends in one had no operator. -/
theorem operands_of_isTarget {l : Level} {us : List Token} {i j : NodeId} {left e : Expr}
    (h : Derives (.operands l left) us i e j)
    (ht : isTarget e = true) : us = [] ∧ left = e ∧ i = j := by
  cases h with
  | noOperator => exact ⟨rfl, rfl, rfl⟩
  | operator _ _ h =>
    obtain ⟨-, rfl, -⟩ := operands_of_isTarget h ht
    rw [not_isTarget_joined] at ht
    cases ht
termination_by us.length

theorem call_of_suffixed (h : Derives .suffixed ts i e j) (ht : isTarget e = true) :
    Derives .call ts i e j := by
  cases h with
  | suffixed => cases ht
  | plainSuffixed h => exact h

theorem call_of_unary (h : Derives .unary ts i e j) (ht : isTarget e = true) :
    Derives .call ts i e j := by
  cases h with
  | unary => cases ht
  | plainUnary h =>
    cases h with
    | stepName => cases ht
    | stepProperty => cases ht
    | plainPrefixed h => exact call_of_suffixed h ht

theorem call_of_operand {l : Option Level} {ts : List Token} {i j : NodeId} {e : Expr}
    (h : Derives (.operand l) ts i e j)
    (ht : isTarget e = true) : Derives .call ts i e j := by
  cases h with
  | unaryOperand h => exact call_of_unary h ht
  | @operand l _ _ _ _ us _ _ h1 h2 =>
    obtain ⟨rfl, rfl, rfl⟩ := operands_of_isTarget h2 ht
    rw [List.append_nil]
    have : (levels (tighter l)).length < (levels (some l)).length := by simp [levels_some]
    exact call_of_operand h1 ht
termination_by (levels l).length

theorem call_of_ternary (h : Derives .ternary ts i e j) (ht : isTarget e = true) :
    Derives .call ts i e j := by
  cases h with
  | plainTernary h => exact call_of_operand h ht
  | ternary => cases ht

/-- A call adds to what it is applied to, or is the same. -/
theorem calls_variable {callee : Expr} {us : List Token} {i j id : NodeId} {name : Name}
    (h : Derives (.calls callee) us i (.variable id name) j) :
    us = [] ∧ callee = .variable id name ∧ i = j := by
  cases h with
  | noCall => exact ⟨rfl, rfl, rfl⟩
  | invoke _ _ _ h => cases (calls_variable h).2.1
  | property _ _ h => cases (calls_variable h).2.1
  | index _ _ _ h => cases (calls_variable h).2.1
termination_by us.length

theorem call_variable {id : NodeId} {name : Name} (h : Derives .call ts i (.variable id name) j) :
    ∃ n, ts = [n] ∧ n.kind = .identifier ∧ id = i ∧ name = ofToken n ∧ j = i + 1 := by
  cases h with
  | call h1 h2 =>
    obtain ⟨rfl, rfl, rfl⟩ := calls_variable h2
    cases h1 with
    | name h => exact ⟨_, rfl, h, rfl, rfl, rfl⟩

theorem calls_get {callee object : Expr} {us : List Token} {i j : NodeId} {name : Name}
    (h : Derives (.calls callee) us i (.get object name) j) :
    (us = [] ∧ callee = .get object name ∧ i = j) ∨
      ∃ vs d n, us = vs ++ [d, n] ∧ d.is .dot ∧ n.kind = .identifier ∧ name = ofToken n ∧
        Derives (.calls callee) vs i object j := by
  cases h with
  | noCall => exact .inl ⟨rfl, rfl, rfl⟩
  | invoke ho ha hc h =>
    rcases calls_get h with ⟨-, he, -⟩ | ⟨vs, d, n, rfl, hd, hn, rfl, hv⟩
    · cases he
    · exact .inr ⟨_, d, n, by simp, hd, hn, rfl, .invoke ho ha hc hv⟩
  | property hd hn h =>
    rcases calls_get h with ⟨rfl, he, rfl⟩ | ⟨vs, d, n, rfl, hd', hn', rfl, hv⟩
    · cases he
      exact .inr ⟨[], _, _, rfl, hd, hn, rfl, .noCall⟩
    · exact .inr ⟨_, d, n, by simp, hd', hn', rfl, .property hd hn hv⟩
  | index ho hx hc h =>
    rcases calls_get h with ⟨-, he, -⟩ | ⟨vs, d, n, rfl, hd, hn, rfl, hv⟩
    · cases he
    · exact .inr ⟨_, d, n, by simp, hd, hn, rfl, .index ho hx hc hv⟩
termination_by us.length

theorem call_get {object : Expr} {name : Name} (h : Derives .call ts i (.get object name) j) :
    ∃ vs d n, ts = vs ++ [d, n] ∧ d.is .dot ∧ n.kind = .identifier ∧ name = ofToken n ∧
      Derives .call vs i object j := by
  cases h with
  | call h1 h2 =>
    rcases calls_get h2 with ⟨rfl, rfl, rfl⟩ | ⟨vs, d, n, rfl, hd, hn, rfl, hv⟩
    · cases h1
    · exact ⟨_, d, n, by simp, hd, hn, rfl, .call h1 hv⟩

end Scriptlet.Grammar
