import Scriptlet.Proofs.ParserSound
import Scriptlet.Proofs.ParserComplete

/-!
The parser and the grammar agree: a list of tokens is accepted if and only if the grammar derives it, and the tree and
the numbers of its nodes are those of the derivation. In particular the grammar is unambiguous.
-/
namespace Scriptlet.Grammar

open Scriptlet.Parser (State Takes)

variable {α : Type} {p : Nat → Parser α} {tokens : List Token} {base next : NodeId} {a : α}

/-- The tokens that count: those before the first end token. -/
def significant (tokens : List Token) : List Token := tokens.takeWhile (·.kind ≠ .eof)

theorem significant_append {ts more : List Token} {e : Token} (hts : ∀ t ∈ ts, t.kind ≠ .eof) (he : e.kind = .eof) :
    significant (ts ++ e :: more) = ts := by
  unfold significant
  rw [List.takeWhile_append_of_pos (by simpa using hts)]
  simp [he]

/-- A run accepts when it neither fails nor notes a fault. -/
theorem run_eq_ok : Parser.run p tokens base = ⟨.ok a, next⟩ ↔
    ∃ s, p (Parser.budget tokens) (.start tokens base) = .ok a s ∧ s.noted = [] ∧ s.nextId = next := by
  unfold Parser.run
  split
  · next b s h =>
    by_cases hs : s.noted = []
    · simp only [h, hs, List.isEmpty_nil, if_true, Parser.Outcome.mk.injEq, Except.ok.injEq, Parser.Result.ok.injEq]
      constructor
      · rintro ⟨rfl, rfl⟩
        exact ⟨s, ⟨rfl, rfl⟩, hs, rfl⟩
      · rintro ⟨_, ⟨rfl, rfl⟩, -, rfl⟩
        exact ⟨rfl, rfl⟩
    · simp [h, hs]
  · next h => simp [h]
  · next h => simp [h]

theorem run_of_takes (h : ∀ n, 24 * (significant tokens).length + 20 ≤ n →
    Takes (p n) 0 (significant tokens) [] base a next) : Parser.run p tokens base = ⟨.ok a, next⟩ := by
  have enough : 24 * (significant tokens).length + 20 ≤ Parser.budget tokens := by
    have : (significant tokens).length ≤ tokens.length := (List.takeWhile_sublist _).length_le
    simp only [Parser.budget]
    omega
  have accepted := h _ enough (State.start tokens base).endLine []
  rw [List.append_nil] at accepted
  exact run_eq_ok.2 ⟨_, accepted, rfl, rfl⟩

theorem parse_eq_ok {program : List Stmt} :
    Parser.parse tokens base = ⟨.ok program, next⟩ ↔ Program (significant tokens) base program next := by
  constructor
  · intro h
    obtain ⟨s, hp, clean, rfl⟩ := run_eq_ok.1 h
    obtain ⟨j, rfl, d⟩ := program_sound _ hp clean
    exact d
  · intro d
    exact run_of_takes fun n hn => program_complete d hn (by simp)

theorem parseExpression_eq_ok {e : Expr} :
    Parser.parseExpression tokens base = ⟨.ok e, next⟩ ↔ WholeExpression (significant tokens) base e next := by
  constructor
  · intro h
    obtain ⟨s, hp, clean, rfl⟩ := run_eq_ok.1 h
    exact wholeExpression_sound _ hp clean
  · intro d
    exact run_of_takes fun n hn => wholeExpression_complete d (by omega)

/-- What the parser answers on a list of tokens and an end token is decided by the grammar alone. -/
theorem parser_accepts_iff_derives (ts : List Token) (hts : ∀ t ∈ ts, t.kind ≠ .eof) (e : Token) (he : e.kind = .eof)
    (more : List Token) (base : NodeId) :
    (∀ program next, Parser.parse (ts ++ e :: more) base = ⟨.ok program, next⟩ ↔ Program ts base program next) ∧
    (∀ value next,
      Parser.parseExpression (ts ++ e :: more) base = ⟨.ok value, next⟩ ↔ WholeExpression ts base value next) := by
  constructor
  · intro program next
    rw [parse_eq_ok, significant_append hts he]
  · intro value next
    rw [parseExpression_eq_ok, significant_append hts he]

/-- `a = b - c - d;` is one statement: the subtractions group to the left, the name to assign to is read first. -/
theorem parser_accepts_iff_derives_difference :
    Program [⟨.identifier, "a", 1⟩, .ofPunct .equal 1, ⟨.identifier, "b", 1⟩, .ofPunct .minus 1,
        ⟨.identifier, "c", 1⟩, .ofPunct .minus 1, ⟨.identifier, "d", 1⟩, .ofPunct .semicolon 1] 0
      [.expression (.assign 4 ⟨"a", 1⟩ (.binary
        (.binary (.variable 1 ⟨"b", 1⟩) (.ofPunct .minus 1) (.variable 2 ⟨"c", 1⟩)) (.ofPunct .minus 1)
        (.variable 3 ⟨"d", 1⟩)))] 5 :=
  ((parser_accepts_iff_derives _ (by decide) (.eof 1) rfl [] 0).1 _ _).1 (by cbv)

end Scriptlet.Grammar
