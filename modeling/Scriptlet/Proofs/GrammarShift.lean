import Scriptlet.Proofs.LexerSeam
import Scriptlet.Proofs.ParserExact
import Scriptlet.Proofs.SessionLaws

/-!
Derivations at other numbers and lines. The grammar looks at neither the lines of tokens nor the numbers of nodes, so a
derivation can be moved, and the programs of two texts are put together by putting their declarations together.
-/
namespace Scriptlet.Grammar

open Scriptlet.Parser (Level)
open Scriptlet.Parser.Name (ofToken)

/-- What a repetition starts from is relabeled with the rest. -/
def Symbol.relabel (ρ : Relabeling) : Symbol → Symbol
  | .function name => .function (ρ.name name)
  | .commas left => .commas (ρ.expr left)
  | .operands level left => .operands level (ρ.expr left)
  | .calls callee => .calls (ρ.expr callee)
  | k => k

def relabelTree (ρ : Relabeling) : (k : Symbol) → k.Tree → (k.relabel ρ).Tree
  | .declarations _, ss => ρ.stmts ss
  | .block _, ss => ρ.stmts ss
  | .declaration _, s => ρ.stmt s
  | .statement _, s => ρ.stmt s
  | .members, ms => (ρ.routines ms.1, ρ.routines ms.2)
  | .method, r => ρ.routine r
  | .function _, r => ρ.routine r
  | .parameters, ps => ps.map ρ.name
  | .names, ps => ps.map ρ.name
  | .arguments, es => ρ.exprs es
  | .values, es => ρ.exprs es
  | .expression, e => ρ.expr e
  | .commas _, e => ρ.expr e
  | .assignment, e => ρ.expr e
  | .ternary, e => ρ.expr e
  | .operand _, e => ρ.expr e
  | .operands _ _, e => ρ.expr e
  | .unary, e => ρ.expr e
  | .prefixed, e => ρ.expr e
  | .suffixed, e => ρ.expr e
  | .call, e => ρ.expr e
  | .calls _, e => ρ.expr e
  | .primary, e => ρ.expr e

theorem expr_joined (ρ : Relabeling) (l : Level) (left right : Expr) (op : Token) :
    ρ.expr (joined l left op right) = joined l (ρ.expr left) (ρ.token op) (ρ.expr right) := by
  cases l <;> rfl

mutual

theorem endsOpen_stmt (ρ : Relabeling) (s : Stmt) : endsOpen (ρ.stmt s) = endsOpen s := by
  match s with
  | .conditional e yes no => exact branchOpen_branch ρ no
  | .loop e body => exact endsOpen_stmt ρ body
  | .expression _ | .print _ | .var _ _ | .block _ | .break _ | .continue _ | .function _ | .return _ _ | .class _ => rfl

theorem branchOpen_branch (ρ : Relabeling) (s? : Option Stmt) : branchOpen (ρ.branch s?) = branchOpen s? := by
  match s? with
  | none => rfl
  | some s => exact endsOpen_stmt ρ s

end

/-- Numbers that follow each other keep doing so. -/
theorem Derives.relabel {ρ : Relabeling} (hρ : ∀ i, ρ.number (i + 1) = ρ.number i + 1) {k : Symbol} {ts : List Token}
    {i j : NodeId} {t : k.Tree} (d : Derives k ts i t j) :
    Derives (k.relabel ρ) (ts.map ρ.token) (ρ.number i) (relabelTree ρ k t) (ρ.number j) := by
  induction d with
  | noDeclaration => exact .noDeclaration
  | moreDeclarations _ _ ih1 ih2 => rw [List.map_append]; exact .moreDeclarations ih1 ih2
  | plainClass hc hn ho _ he ih =>
    rw [List.map_append]
    exact .plainClass (c := ρ.token _) (n := ρ.token _) (o := ρ.token _) (e := ρ.token _) hc hn ho ih he
  | derivedClass hc hn hb _ ho _ he ih1 ih2 =>
    rw [List.map_append, List.map_append]
    exact .derivedClass (c := ρ.token _) (n := ρ.token _) (b := ρ.token _) (o := ρ.token _) (e := ρ.token _)
      hc hn hb ih1 ho ih2 he
  | noMember => exact .noMember
  | oneMethod _ _ ih1 ih2 => rw [List.map_append]; exact .oneMethod ih1 ih2
  | oneStatic hc _ _ ih1 ih2 =>
    rw [List.map_append]
    exact .oneStatic (c := ρ.token _) hc ih1 ih2
  | method hn _ ih => exact .method hn ih
  | function ho _ hc _ ih1 ih2 => rw [List.map_append]; exact .function ho ih1 hc ih2
  | noParameter => exact .noParameter
  | someParameters _ hl ih => exact .someParameters ih (by simpa [relabelTree] using hl)
  | oneName hn => exact .oneName hn
  | moreNames hn hc _ ih => exact .moreNames hn hc ih
  | functionDeclaration hc _ ih => exact .functionDeclaration hc ih
  | plainVariable hc hn he => exact .plainVariable hc hn he
  | initialVariable hc hn ho _ he ih => rw [List.map_append]; exact .initialVariable hc hn ho ih he
  | statement _ ih => exact .statement ih
  | ifThen hc ho _ hp _ ih1 ih2 => rw [List.map_append]; exact .ifThen hc ho ih1 hp ih2
  | ifElse hc ho _ hp _ hopen hd _ ih1 ih2 ih3 =>
    rw [List.map_append, List.map_append]
    exact .ifElse hc ho ih1 hp ih2 ((endsOpen_stmt ρ _).trans hopen) hd ih3
  | «while» hc ho _ hp _ ih1 ih2 => rw [List.map_append]; exact .while hc ho ih1 hp ih2
  | returnNull hc he => exact .returnNull hc he
  | returnValue hc _ he ih => rw [List.map_append]; exact .returnValue hc ih he
  | «break» hc he => exact .break hc he
  | «continue» hc he => exact .continue hc he
  | blockStatement _ ih => exact .blockStatement ih
  | print hc _ he ih => rw [List.map_append]; exact .print hc ih he
  | expressionStatement _ he ih => rw [List.map_append]; exact .expressionStatement ih he
  | block ho _ hc ih => rw [List.map_append]; exact .block ho ih hc
  | expression _ _ ih1 ih2 => rw [List.map_append]; exact .expression ih1 ih2
  | noComma => exact .noComma
  | comma hc _ _ ih1 ih2 => rw [List.map_append]; exact .comma hc ih1 ih2
  | assignName hn ho _ ih =>
    rw [hρ] at ih ⊢
    exact .assignName hn ho ih
  | assignProperty _ hd hn ho _ ih1 ih2 => rw [List.map_append]; exact .assignProperty ih1 hd hn ho ih2
  | updateName hn hpq ho _ ih =>
    rw [hρ] at ih ⊢
    exact .updateName hn hpq ho ih
  | updateProperty _ hd hn hpq ho _ ih1 ih2 => rw [List.map_append]; exact .updateProperty ih1 hd hn hpq ho ih2
  | plainAssignment _ ih => exact .plainAssignment ih
  | plainTernary _ ih => exact .plainTernary ih
  | ternary _ hq _ hc _ ih1 ih2 ih3 =>
    rw [List.map_append, List.map_append]
    exact .ternary ih1 hq ih2 hc ih3
  | operand _ _ ih1 ih2 => rw [List.map_append]; exact .operand ih1 ih2
  | noOperator => exact .noOperator
  | operator ho _ _ ih1 ih2 =>
    change Derives (.operands _ (ρ.expr (joined _ _ _ _))) _ _ (ρ.expr _) _ at ih2
    rw [expr_joined] at ih2
    rw [List.map_append]
    exact .operator ho ih1 ih2
  | unaryOperand _ ih => exact .unaryOperand ih
  | unary ho _ ih => exact .unary ho ih
  | plainUnary _ ih => exact .plainUnary ih
  | @stepName p q o n i hpq ho hn =>
    have step : relabelTree ρ .prefixed (.assign (i + 1) (ofToken n) (updated i n o q one)) =
        .assign (ρ.number i + 1) (ofToken (ρ.token n)) (updated (ρ.number i) (ρ.token n) (ρ.token o) q one) := by
      rw [← hρ]
      rfl
    rw [step, hρ, hρ]
    exact .stepName (n := ρ.token n) (o := ρ.token o) hpq ho hn
  | stepProperty hpq ho _ hd hn ih => rw [List.map_append]; exact .stepProperty hpq ho ih hd hn
  | plainPrefixed _ ih => exact .plainPrefixed ih
  | @suffixed p q n o i hn hpq ho =>
    have step : relabelTree ρ .suffixed (.suffix (i + 1) (ofToken n) o) =
        .suffix (ρ.number i + 1) (ofToken (ρ.token n)) (ρ.token o) := by
      rw [← hρ]
      rfl
    rw [step, hρ, hρ]
    exact .suffixed (n := ρ.token n) (o := ρ.token o) hn hpq ho
  | plainSuffixed _ ih => exact .plainSuffixed ih
  | call _ _ ih1 ih2 => rw [List.map_append]; exact .call ih1 ih2
  | noCall => exact .noCall
  | invoke ho _ hc _ ih1 ih2 => rw [List.map_append]; exact .invoke ho ih1 hc ih2
  | property hd hn _ ih => exact .property hd hn ih
  | index ho _ hc _ ih1 ih2 => rw [List.map_append]; exact .index ho ih1 hc ih2
  | noArgument => exact .noArgument
  | someArguments _ hl ih => exact .someArguments ih (by simpa [relabelTree] using hl)
  | oneValue _ ih => exact .oneValue ih
  | moreValues _ hc _ ih1 ih2 => rw [List.map_append]; exact .moreValues ih1 hc ih2
  | numberLiteral h => exact .numberLiteral h
  | textLiteral h => exact .textLiteral h
  | trueLiteral h => exact .trueLiteral h
  | falseLiteral h => exact .falseLiteral h
  | nullLiteral h => exact .nullLiteral h
  | thisWord h => rw [hρ]; exact .thisWord h
  | name h => rw [hρ]; exact .name h
  | group ho _ hc ih => rw [List.map_append]; exact .group ho ih hc
  | lambda hc _ ih => exact .lambda hc ih

theorem Derives.append {l : Bool} {ts us : List Token} {i j k : NodeId} {ss ss' : List Stmt}
    (d : Derives (.declarations l) ts i ss j) (d' : Derives (.declarations l) us j ss' k) :
    Derives (.declarations l) (ts ++ us) i (ss ++ ss') k := by
  cases d with
  | noDeclaration => exact d'
  | moreDeclarations d ds =>
    rw [List.append_assoc]
    exact .moreDeclarations d (ds.append d')
termination_by ss.length

theorem significant_tokensOf (source : String) : significant (Session.tokensOf source) = Token.wordsOf source := by
  rw [Session.tokensOf, Token.tokens_scan]
  exact significant_append Token.kind_words rfl

/-- A program that is read at another number has the same tree at later numbers. -/
theorem parse_move {source : String} {program : List Stmt} {next : NodeId}
    (h : Parser.parse (Session.tokensOf source) 0 = ⟨.ok program, next⟩) (base : NodeId) :
    Parser.parse (Session.tokensOf source) base =
      ⟨.ok (program.map (Relabeling.shift base 0).stmt), next + base⟩ := by
  have moved := (parse_eq_ok.1 h).relabel (ρ := Relabeling.shift base 0) fun i => Nat.add_right_comm i 1 base
  have tokens (ts : List Token) : ts.map (Relabeling.shift base 0).token = ts := List.map_id ts
  have start : (Relabeling.shift base 0).number 0 = base := Nat.zero_add base
  rw [tokens, start] at moved
  rw [parse_eq_ok, ← Relabeling.stmts_eq_map]
  exact moved

/-- The program of two texts with a line break between them: the second is read from the number at which the first
ends, and stands further down. -/
theorem parse_seam {first second : String} {base middle next : NodeId} {program program' : List Stmt}
    (faultless : Item.faults (Token.scan first) = []) (faultless' : Item.faults (Token.scan second) = [])
    (comment : Token.endsInComment first = false)
    (h : Parser.parse (Session.tokensOf first) base = ⟨.ok program, middle⟩)
    (h' : Parser.parse (Session.tokensOf second) middle = ⟨.ok program', next⟩) :
    Parser.parse (Session.tokensOf (first ++ "\n" ++ second)) base =
      ⟨.ok (program ++ program'.map (Relabeling.shift 0 (Token.newlines first.toList + 1)).stmt), next⟩ := by
  rw [parse_eq_ok, significant_tokensOf] at h h' ⊢
  rw [(Token.scan_seam faultless faultless' comment 0).2, ← Relabeling.stmts_eq_map]
  exact h.append (h'.relabel fun _ => rfl)

end Scriptlet.Grammar
