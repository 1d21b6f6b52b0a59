import Scriptlet.Proofs.GrammarShift
import Scriptlet.Proofs.MaximalMunch
import Scriptlet.Proofs.Stages

/-!
Addresses as program text. An address whose names are identifiers is also the text of an expression, and so are an
assignment to it and a call of it with the names of globals for arguments. These texts are read into one tree each, and
outside of any scope their analysis finds nothing to record.
-/
namespace Scriptlet

namespace Token

/-- The text is one identifier and nothing else. -/
def IsIdentifier (text : String) : Prop := scan text = [.token ⟨.identifier, text, 1⟩, .token (.eof 1)]

instance (text : String) : Decidable (IsIdentifier text) := inferInstanceAs (Decidable (_ = _))

theorem Tiles.munch {cs : List Char} {ps : List Piece} (h : Tiles cs ps) {p : Piece} (hp : p ∈ ps) :
    ∃ rest, Munch p rest := by
  induction h with
  | nil => cases hp
  | cons munch _ ih =>
    rcases List.mem_cons.1 hp with rfl | hp
    · exact ⟨_, munch⟩
    · exact ih hp

theorem IsIdentifier.spells {text : String} (h : IsIdentifier text) : Kind.Spells .identifier text.toList := by
  obtain ⟨shown, items, pieces⟩ := items_eq 1 (pieces text.toList)
  have same : shown ++ [_] = [.token ⟨.identifier, text, 1⟩] ++ [.token (.eof 1)] := items.symm.trans h
  obtain ⟨rfl, -⟩ := List.append_inj' same rfl
  obtain ⟨p, ps, ⟨meaning, lexeme⟩, -, filtered⟩ := List.forall₂_cons_right_iff.1 pieces
  have member : p ∈ Token.pieces text.toList :=
    List.mem_of_mem_filter (filtered.symm ▸ List.mem_cons_self : p ∈ List.filter _ _)
  obtain ⟨rest, munch⟩ := (tiles_iff.2 rfl : Tiles text.toList _).munch member
  cases munch with
  | token _ spells _ =>
    cases meaning
    rw [show text.toList = _ from lexeme]
    exact spells
  | _ => cases meaning

/-- The text has these tokens, all of them on its first line, and no fault. -/
structure Lexes (cs : List Char) (ts : List Token) : Prop where
  faultless : ∀ p ∈ pieces cs, ∀ f, p.meaning ≠ .fault f
  tokens : words 1 (pieces cs) = ts

section Lexes

variable {c : Char} {cs : List Char} {ts : List Token}

theorem lexes_nil : Lexes [] [] := by
  refine ⟨?_, ?_⟩
  · rw [pieces]
    exact List.forall_mem_nil _
  · rw [pieces]
    rfl

/-- A token at the start of the text. -/
theorem Lexes.token {kind : Kind} {text rest : List Char} (h : Lexes rest ts)
    (first : firstPiece c cs = (⟨text, .token kind⟩, rest)) (line : newlines text = 0) :
    Lexes (c :: cs) (⟨kind, String.ofList text, 1⟩ :: ts) := by
  constructor
  · rw [pieces, first]
    exact List.forall_mem_cons.2 ⟨by simp, h.faultless⟩
  · rw [pieces, first, words]
    simp only [line, Nat.add_zero]
    rw [h.tokens]

theorem Lexes.blank (h : Lexes cs ts) : Lexes (' ' :: cs) ts := by
  have first : firstPiece ' ' cs = (⟨[' '], .blank⟩, cs) := rfl
  constructor
  · rw [pieces, first]
    exact List.forall_mem_cons.2 ⟨by simp, h.faultless⟩
  · rw [pieces, first]
    exact h.tokens

/-- A name ends where no name goes on. -/
theorem Lexes.identifier {name : String} (h : Lexes cs ts) (hn : IsIdentifier name)
    (stop : ∀ d ∈ cs.head?, isNamePart d = false) : Lexes (name.toList ++ cs) (⟨.identifier, name, 1⟩ :: ts) := by
  have spells := hn.spells
  rw [← String.ofList_toList (s := name)]
  generalize name.toList = text at spells
  rw [String.toList_ofList]
  obtain ⟨d, ds, rfl⟩ := spells.ne_nil
  cases spells with
  | identifier start parts other =>
    have take : (ds ++ cs).takeWhile isNamePart = ds ∧ (ds ++ cs).dropWhile isNamePart = cs := by
      rw [List.takeWhile_append_of_pos parts, List.dropWhile_append_of_pos parts]
      cases cs with
      | nil => simp
      | cons e es => simp [stop e rfl]
    have word : wordKind (d :: ds) = .identifier :=
      ((Kind.Spells.identifier start parts other).of_name start).2.symm
    have digit : isDigit d = false := by
      rw [← Bool.not_eq_true]
      intro digit
      rw [isNameStart_of_isDigit digit] at start
      cases start
    have quote : isQuote d = false := by
      rw [← Bool.not_eq_true]
      intro quote
      rw [(quote_exclusive quote).2.2] at start
      cases start
    have first : firstPiece d (ds ++ cs) = (⟨d :: ds, .token .identifier⟩, cs) := by
      simp only [firstPiece, isBlank_of_isNameStart start, quote, digit, start, wordPiece, take.1, take.2, word,
        Bool.false_eq_true, if_false, if_true]
    refine h.token first (List.count_eq_zero.2 fun newline => ?_)
    rcases List.mem_cons.1 newline with rfl | newline
    · exact absurd start (by decide)
    · exact absurd (parts _ newline) (by decide)

/-- A punctuator of one character, where none of two starts. -/
theorem Lexes.punct {p : Punct} (h : Lexes cs ts) (hp : p.chars = [c]) (slash : c ≠ '/')
    (single : ∀ d ∈ cs.head?, Punct.ofChars? [c, d] = none) : Lexes (c :: cs) (.ofPunct p 1 :: ts) := by
  obtain ⟨d, ds, he, blank, quote, digit, name⟩ := punct_first p
  cases hp.symm.trans he
  have one : Punct.ofChars? [c] = some p := hp ▸ Punct.ofChars?_chars p
  have two : (cs.head?.bind fun d => Punct.ofChars? [c, d]) = none := by
    rcases hs : cs.head? with _ | d
    · rfl
    · exact single d hs
  have first : firstPiece c cs = (⟨[c], .token (.punct p)⟩, cs) := by
    rw [firstPiece_punct blank quote digit name (fun h => slash h.1) (fun h => slash h.1)]
    simp only [punctPiece, two, one]
  have line : newlines [c] = 0 := by
    refine List.count_eq_zero.2 fun newline => ?_
    obtain rfl := List.mem_singleton.1 newline
    cases blank
  rw [Token.ofPunct, Punct.text, hp]
  exact h.token first line

/-- Points, parentheses and commas start nothing longer. -/
theorem ofChars?_pair (hc : c ∈ ['.', '(', ')', ',']) (d : Char) : Punct.ofChars? [c, d] = none := by
  rw [Punct.ofChars?, List.find?_eq_none]
  intro p _
  simp only [List.mem_cons, List.not_mem_nil, or_false] at hc
  rcases hc with rfl | rfl | rfl | rfl <;> cases p <;> simp [Punct.chars]

theorem Lexes.faults {source : String} (h : Lexes source.toList ts) : Item.faults (scan source) = [] :=
  (faults_items 1 _).2 h.faultless

end Lexes

end Token

open Token (IsIdentifier Lexes)

/-- An identifier on the first line. -/
def nameToken (name : String) : Token := ⟨.identifier, name, 1⟩

namespace Address

/-- The tokens of a first name and those that are looked up one in the other. -/
def tokens (first : String) (rest : List String) : List Token :=
  nameToken first :: rest.flatMap fun name => [.ofPunct .dot 1, nameToken name]

/-- Reads of a first name and of those that are looked up one in the other. -/
def tree (id : NodeId) (first : String) (rest : List String) : Expr :=
  rest.foldl (fun e name => .get e ⟨name, 1⟩) (.variable id ⟨first, 1⟩)

/-- An address has a first name, and the others come after points. -/
theorem exists_segments (address : String) : ∃ first rest, segments address = first :: rest ∧
    address.toList = first.toList ++ rest.flatMap fun name => '.' :: name.toList := by
  have whole : ['.'].intercalate (address.toList.splitOn '.') = address.toList := List.intercalate_splitOn '.'
  unfold segments
  rcases hs : address.toList.splitOn '.' with _ | ⟨x, xs⟩
  · exact absurd hs (List.splitOn_ne_nil '.' address.toList)
  · refine ⟨String.ofList x, xs.map String.ofList, rfl, ?_⟩
    rw [← whole, hs, String.toList_ofList]
    clear hs whole
    induction xs generalizing x with
    | nil => simp
    | cons y ys ih => rw [List.intercalate_cons_cons, ih y]; simp

theorem lexes_rest {rest : List String} (hr : ∀ name ∈ rest, IsIdentifier name) {cs : List Char} {ts : List Token}
    (h : Lexes cs ts) (stop : ∀ d ∈ cs.head?, Token.isNamePart d = false) :
    Lexes ((rest.flatMap fun name => '.' :: name.toList) ++ cs)
        ((rest.flatMap fun name => [.ofPunct .dot 1, nameToken name]) ++ ts) ∧
      ∀ d ∈ ((rest.flatMap fun name => '.' :: name.toList) ++ cs).head?, Token.isNamePart d = false := by
  induction rest with
  | nil => exact ⟨h, stop⟩
  | cons name rest ih =>
    obtain ⟨first, others⟩ := List.forall_mem_cons.1 hr
    obtain ⟨lexes, stop⟩ := ih others
    refine ⟨?_, ?_⟩
    · simp only [List.flatMap_cons, List.cons_append, List.append_assoc, List.nil_append]
      exact (lexes.identifier first stop).punct rfl (by decide) fun d _ => Token.ofChars?_pair (by simp) d
    · rintro d ⟨⟩
      rfl

/-- An address followed by something that does not go on with its last name. -/
theorem lexes_path {address first : String} {rest : List String} (whole : segments address = first :: rest)
    (names : ∀ name ∈ segments address, IsIdentifier name) {cs : List Char} {ts : List Token} (h : Lexes cs ts)
    (stop : ∀ d ∈ cs.head?, Token.isNamePart d = false) :
    Lexes (address.toList ++ cs) (tokens first rest ++ ts) := by
  obtain ⟨first', rest', whole', chars⟩ := exists_segments address
  cases whole.symm.trans whole'
  rw [whole] at names
  obtain ⟨hf, hr⟩ := List.forall_mem_cons.1 names
  obtain ⟨lexes, stop⟩ := lexes_rest hr h stop
  rw [chars, List.append_assoc]
  exact lexes.identifier hf stop

end Address

namespace Grammar

open Scriptlet.Parser.Name (ofToken)

/-- What is read off names after points goes on with what follows them. -/
theorem calls_path {e f : Expr} {rest : List String} {us : List Token} {i j : NodeId}
    (h : Derives (.calls (rest.foldl (fun e name => .get e ⟨name, 1⟩) e)) us i f j) :
    Derives (.calls e) ((rest.flatMap fun name => [.ofPunct .dot 1, nameToken name]) ++ us) i f j := by
  induction rest generalizing e with
  | nil => exact h
  | cons name rest ih => exact .property rfl rfl (ih h)

theorem call_path_then {first : String} {rest : List String} {us : List Token} {i j : NodeId} {f : Expr}
    (h : Derives (.calls (Address.tree i first rest)) us (i + 1) f j) :
    Derives .call (Address.tokens first rest ++ us) i f j := by
  have name : Derives .primary [nameToken first] i (.variable i ⟨first, 1⟩) (i + 1) := .name rfl
  have call := Derives.call name (calls_path h)
  exact call

theorem call_path (first : String) (rest : List String) (i : NodeId) :
    Derives .call (Address.tokens first rest) i (Address.tree i first rest) (i + 1) := by
  have path := call_path_then (.noCall (e := Address.tree i first rest) (i := i + 1))
  rwa [List.append_nil] at path

theorem whole_of_assignment {ts : List Token} {i j : NodeId} {e : Expr} (h : Derives .assignment ts i e j) :
    WholeExpression ts i e j := by
  rw [← List.append_nil ts]
  exact .inl (.expression h .noComma)

theorem assignment_of_call {ts : List Token} {i j : NodeId} {e : Expr} (h : Derives .call ts i e j) :
    Derives .assignment ts i e j :=
  .plainAssignment (ternary_of_call h)

end Grammar

/-- The tokens of names with commas between them. -/
def argumentTokens : List String → List Token
  | [] => []
  | [name] => [nameToken name]
  | name :: names => nameToken name :: .ofPunct .comma 1 :: argumentTokens names

/-- Reads of names, numbered one after the other. -/
def argumentTrees : NodeId → List String → List Expr
  | _, [] => []
  | id, name :: names => .variable id ⟨name, 1⟩ :: argumentTrees (id + 1) names

theorem length_argumentTrees (id : NodeId) (names : List String) : (argumentTrees id names).length = names.length := by
  induction names generalizing id with
  | nil => rfl
  | cons name names ih => rw [argumentTrees, List.length_cons, List.length_cons, ih]

theorem lexes_arguments {names : List String} (hn : ∀ name ∈ names, IsIdentifier name) {cs : List Char} {ts : List Token}
    (h : Lexes cs ts) (stop : ∀ d ∈ cs.head?, Token.isNamePart d = false) :
    Lexes ((", ".intercalate names).toList ++ cs) (argumentTokens names ++ ts) := by
  rw [String.toList_intercalate]
  induction names with
  | nil => exact h
  | cons name names ih =>
    obtain ⟨first, others⟩ := List.forall_mem_cons.1 hn
    cases names with
    | nil =>
      rw [argumentTokens, List.map_cons, List.map_nil, List.intercalate_singleton]
      exact h.identifier first stop
    | cons other names =>
      rw [List.map_cons, List.map_cons, List.intercalate_cons_cons, argumentTokens, ← List.map_cons]
      · rw [List.append_assoc, List.append_assoc]
        refine (Lexes.punct (p := .comma) (ih others).blank rfl (by decide) ?_).identifier first ?_
        · exact fun d _ => Token.ofChars?_pair (by simp) d
        · rintro d ⟨⟩
          rfl
      · simp

namespace Grammar

theorem values_names (name : String) (names : List String) (i : NodeId) :
    Derives .values (argumentTokens (name :: names)) i (argumentTrees i (name :: names)) (i + (name :: names).length) := by
  have first (i : NodeId) (name : String) : Derives .assignment [nameToken name] i (.variable i ⟨name, 1⟩) (i + 1) :=
    assignment_of_call (call_name rfl)
  induction names generalizing i name with
  | nil => exact .oneValue (first i name)
  | cons other names ih =>
    have rest := Derives.moreValues (first i name) (c := .ofPunct .comma 1) rfl (ih other (i + 1))
    rw [List.length_cons, Nat.add_comm _ 1, ← Nat.add_assoc]
    exact rest

theorem arguments_names {names : List String} (i : NodeId) (few : names.length ≤ 255) :
    Derives .arguments (argumentTokens names) i (argumentTrees i names) (i + names.length) := by
  cases names with
  | nil => exact .noArgument
  | cons name names =>
    refine .someArguments (values_names name names i) ?_
    rw [length_argumentTrees]
    exact few

end Grammar

namespace Scope

/-- Outside of any scope the analysis passes and leaves everything as it is. -/
def Still (a : Analysis Unit) : Prop := ∀ c : Context, c.scopes = [] → a c = (.ok (), c)

theorem Still.andThen {a b : Analysis Unit} (ha : Still a) (hb : Still b) : Still (do a; b) := by
  intro c hc
  change Analysis.andThen a (fun _ => b) c = _
  rw [Analysis.andThen, ha c hc]
  exact hb c hc

theorem still_bindNode (id : NodeId) (name : String) : Still (Analysis.bindNode id name) := by
  intro c hc
  rw [Analysis.bindNode, hc]
  rfl

theorem still_variable (id : NodeId) (name : Name) : Still (Analysis.expr (.variable id name)) := by
  have check : Still (Analysis.checkInitialized name) := by
    intro c hc
    rw [Analysis.checkInitialized, hc]
    rfl
  rw [Analysis.expr]
  exact check.andThen (still_bindNode id name.text)

theorem still_tree (id : NodeId) (first : String) (rest : List String) :
    Still (Analysis.expr (Address.tree id first rest)) := by
  have start := still_variable id ⟨first, 1⟩
  unfold Address.tree
  generalize Expr.variable id ⟨first, 1⟩ = e at start
  induction rest generalizing e with
  | nil => exact start
  | cons name rest ih =>
    refine ih _ ?_
    rw [Analysis.expr]
    exact start

theorem still_arguments (id : NodeId) (names : List String) : Still (Analysis.exprs (argumentTrees id names)) := by
  induction names generalizing id with
  | nil => exact fun c _ => rfl
  | cons name names ih => exact (still_variable id ⟨name, 1⟩).andThen (ih (id + 1))

theorem Still.resolve {e : Expr} (h : Still (Analysis.expr e)) (d : Distances) :
    resolveExpression e d = ⟨.ok (), [], d⟩ := by
  have passed := h ⟨[], none, .none, [], d⟩ rfl
  simp only [resolveExpression, Report.of, passed, List.mergeSort_nil]

end Scope

namespace Session

open Grammar (WholeExpression)

/-- An expression that outside of any scope has nothing to record is run in the world as it is. -/
theorem check_expression {s : Session} {source : String} {ts : List Token} {e : Expr} {next : NodeId}
    (clear : s.reporter.blocked = false) (lexes : Lexes source.toList ts) (whole : WholeExpression ts s.nextId e next)
    (still : Scope.Still (Scope.Analysis.expr e)) :
    ∃ s', s.check .expression source = (s', .ok (.evaluate e)) ∧ s'.world = s.world := by
  have parsed : Parser.parseExpression (tokensOf source) s.nextId = ⟨.ok e, next⟩ := by
    rw [Grammar.parseExpression_eq_ok, Grammar.significant_tokensOf, Token.wordsOf, lexes.tokens]
    exact whole
  refine ⟨s.analysed next ⟨.ok (), [], s.world.distances⟩, ?_, rfl⟩
  rw [check_eq_load clear lexes.faults, load_expression, parsed]
  simp only [process, Session.parsed, Session.resolved, still.resolve]
  rfl

variable {s : Session} {address first : String} {rest : List String}

variable (clear : s.reporter.blocked = false) (names : ∀ name ∈ Address.segments address, IsIdentifier name)

include clear names in
theorem check_address (whole : Address.segments address = first :: rest) :
    ∃ s', s.check .expression address = (s', .ok (.evaluate (Address.tree s.nextId first rest))) ∧
      s'.world = s.world := by
  have lexes := Address.lexes_path whole names Token.lexes_nil (by rintro d ⟨⟩)
  rw [List.append_nil, List.append_nil] at lexes
  exact check_expression clear lexes (Grammar.whole_of_assignment (Grammar.assignment_of_call
    (Grammar.call_path first rest s.nextId))) (Scope.still_tree _ first rest)

section Assignments

variable {g : String} (hg : IsIdentifier g)
include names hg

/-- The text of an assignment, to a global or to a field, with a global for its value. -/
theorem lexes_assignment (whole : Address.segments address = first :: rest) :
    Lexes (address ++ " = " ++ g).toList (Address.tokens first rest ++ [.ofPunct .equal 1, nameToken g]) := by
  have value : Lexes g.toList [nameToken g] := by
    have lexes := Token.lexes_nil.identifier hg (by rintro d ⟨⟩)
    rwa [List.append_nil] at lexes
  have equal : Lexes ('=' :: ' ' :: g.toList) [.ofPunct .equal 1, nameToken g] := by
    refine value.blank.punct rfl (by decide) ?_
    rintro d ⟨⟩
    decide
  rw [String.toList_append, String.toList_append, List.append_assoc]
  exact Address.lexes_path whole names equal.blank (by rintro d ⟨⟩; rfl)

include clear

theorem check_assignment_name (whole : Address.segments address = [first]) :
    ∃ s', s.check .expression (address ++ " = " ++ g) =
        (s', .ok (.evaluate (.assign (s.nextId + 2) ⟨first, 1⟩ (.variable (s.nextId + 1) ⟨g, 1⟩)))) ∧
      s'.world = s.world := by
  have value := Grammar.assignment_of_call (Grammar.call_name (n := nameToken g) (i := s.nextId + 1) rfl)
  have derives : Grammar.Derives .assignment (Address.tokens first [] ++ [.ofPunct .equal 1, nameToken g]) s.nextId _ _ :=
    .assignName (n := nameToken first) rfl rfl value
  refine check_expression clear (lexes_assignment names hg whole) (Grammar.whole_of_assignment derives) ?_
  rw [Scope.Analysis.expr]
  exact (Scope.still_variable _ _).andThen (Scope.still_bindNode _ _)

theorem check_assignment_field {last : String} (whole : Address.segments address = first :: (rest ++ [last])) :
    ∃ s', s.check .expression (address ++ " = " ++ g) = (s', .ok (.evaluate
        (.set (Address.tree s.nextId first rest) ⟨last, 1⟩ (.variable (s.nextId + 1) ⟨g, 1⟩)))) ∧
      s'.world = s.world := by
  have value := Grammar.assignment_of_call (Grammar.call_name (n := nameToken g) (i := s.nextId + 1) rfl)
  have derives := Grammar.Derives.assignProperty (Grammar.call_path first rest s.nextId) (d := .ofPunct .dot 1) rfl
    (n := nameToken last) rfl (o := .ofPunct .equal 1) rfl value
  have tokens : Address.tokens first (rest ++ [last]) ++ [.ofPunct .equal 1, nameToken g] =
      Address.tokens first rest ++ .ofPunct .dot 1 :: nameToken last :: .ofPunct .equal 1 :: [nameToken g] := by
    simp [Address.tokens]
  rw [← tokens] at derives
  refine check_expression clear (lexes_assignment names hg whole) (Grammar.whole_of_assignment derives) ?_
  rw [Scope.Analysis.expr]
  exact (Scope.still_variable _ _).andThen (Scope.still_tree _ first rest)

end Assignments

include clear names in
theorem check_call (whole : Address.segments address = first :: rest) {gs : List String}
    (hgs : ∀ g ∈ gs, IsIdentifier g) (few : gs.length ≤ 255) :
    ∃ s', s.check .expression (address ++ "(" ++ ", ".intercalate gs ++ ")") = (s', .ok (.evaluate
        (.call (Address.tree s.nextId first rest) (argumentTrees (s.nextId + 1) gs) 1))) ∧
      s'.world = s.world := by
  have pair (c : Char) (hc : c ∈ ['.', '(', ')', ',']) (cs : List Char) :
      ∀ d ∈ cs.head?, Punct.ofChars? [c, d] = none :=
    fun d _ => Token.ofChars?_pair hc d
  have close : Lexes [')'] [.ofPunct .rightParen 1] := Token.lexes_nil.punct rfl (by decide) (pair ')' (by simp) [])
  have arguments := lexes_arguments hgs close (by rintro d ⟨⟩; rfl)
  have opened : Lexes ('(' :: ((", ".intercalate gs).toList ++ [')']))
      (.ofPunct .leftParen 1 :: (argumentTokens gs ++ [.ofPunct .rightParen 1])) :=
    arguments.punct rfl (by decide) (pair '(' (by simp) _)
  have lexes := Address.lexes_path whole names opened (by rintro d ⟨⟩; rfl)
  have text : (address ++ "(" ++ ", ".intercalate gs ++ ")").toList =
      address.toList ++ '(' :: ((", ".intercalate gs).toList ++ [')']) := by
    simp
  rw [← text] at lexes
  have invoke := Grammar.Derives.invoke (e := Address.tree s.nextId first rest) (o := .ofPunct .leftParen 1) rfl
    (Grammar.arguments_names (s.nextId + 1) few) (c := .ofPunct .rightParen 1) rfl .noCall
  have derives := Grammar.call_path_then invoke
  refine check_expression clear lexes (Grammar.whole_of_assignment (Grammar.assignment_of_call derives)) ?_
  rw [Scope.Analysis.expr]
  exact (Scope.still_tree _ first rest).andThen (Scope.still_arguments _ gs)

end Session

end Scriptlet
