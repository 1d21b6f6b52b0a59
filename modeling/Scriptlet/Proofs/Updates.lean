import Scriptlet.Proofs.Acceptance
import Scriptlet.Proofs.ImitatedTexts
import Scriptlet.Proofs.UpdateRuns

/-!
Updates mean what they stand for. `x += v` is `x = x + (v)` and `++x` is `x = x + 1`, for the analysis of names and in
every run. `o.f += v` is `t.f = t.f + (v)` once `o` has been evaluated, for a variable `t` that holds the object, be it a
new one; so it is `o.f = o.f + (v)` where `o` is a variable or the receiver. A text that names its target twice uses up
one number more; to compare the two trees, the numbers of the shorter one are raised by one.
-/
namespace Scriptlet

open Scriptlet.Parser.Name (ofToken)

namespace Scope

open Analysis

variable {a : Token} {id id' : NodeId} {c c' : Context} {x : String} {v : Expr} {used : String → Bool}

theorem innermostStage_markNearest (scopes : List Scope) (h : used x = true) :
    innermostStage x (markNearest used scopes) ≠ some .declared := by
  unfold innermostStage
  cases scopes with
  | nil => exact nofun
  | cons scope outer =>
    intro waiting
    obtain ⟨e, found, stage⟩ :=
      Option.map_eq_some_iff.1 (show ((scope.mark used).find? x).map Entry.stage = _ from waiting)
    have found : List.find? (fun e => e.name = x) (scope.mark used) = some e := found
    have name : e.name = x := by simpa using List.find?_some found
    obtain ⟨e', -, rfl⟩ := List.mem_map.1 (List.mem_of_find?_eq_some found)
    by_cases marked : used e'.name = true
    · rw [if_pos marked] at stage
      cases stage
    · rw [if_neg marked] at name
      exact marked (name ▸ h)

/-- Whether a word that names a variable or the receiver may be used. -/
def Context.Admits (c : Context) (a : Token) : Prop :=
  if a.isKeyword .this then c.receiver = .object else innermostStage a.lexeme c.scopes ≠ some .declared

theorem admits_of_passes (h : Passes (expr (a.occurrence id)) c) : c.Admits a := by
  obtain ⟨scopes, routine, receiver, warnings, distances⟩ := c
  unfold Token.occurrence at h
  unfold Context.Admits
  split at h
  · next this =>
    rw [if_pos this]
    cases receiver with
    | object => rfl
    | none => cases h
    | static => cases h
  · next named =>
    rw [if_neg named]
    intro waiting
    obtain ⟨checked, -⟩ := passes_seq.1 h
    rw [Passes, checkInitialized_eq] at checked
    have waiting : innermostStage (ofToken a).text scopes = some .declared := waiting
    rw [waiting] at checked
    cases checked

/-- A word that may be used is bound. -/
theorem expr_occurrence (h : c.Admits a) : expr (a.occurrence id) c = (.ok (), c.bound id a.referent) := by
  unfold Context.Admits at h
  unfold Token.occurrence Token.referent
  split at h
  · next this =>
    rw [if_pos this, if_pos this, ← bindNode_eq]
    obtain ⟨scopes, routine, receiver, warnings, distances⟩ := c
    cases h
    rfl
  · next named =>
    rw [if_neg named, if_neg named, ← bindNode_eq]
    have checked : Passes (checkInitialized (ofToken a)) c := by
      rw [Passes, checkInitialized_eq]
      split
      · next waiting => exact absurd waiting h
      · rfl
    have whole := seq_of_passes (b := bindNode id a.lexeme) checked
    rw [after_checkInitialized] at whole
    exact whole

theorem names_bound (c : Context) (id : NodeId) (x : String) : (c.bound id x).names = c.names := by
  have names := (declares_bindNode id x).names_after (passes_bindNode (c := c) id x)
  rwa [after, bindNode_eq, extend_nil] at names

/-- A word that has been bound may be used again later, and then leaves nothing but the distance of its node. -/
theorem bound_again (scopes : c'.scopes = markNearest used (c.bound id x).scopes) :
    c'.bound id' x = { c' with distances := (nearest x c'.names).elim c'.distances (c'.distances.insert id') } := by
  have marked : markNearest (fun y => y = x) c'.scopes = c'.scopes := by
    simp only [scopes, Context.bound, markNearest_markNearest]
    apply markNearest_congr
    intro y
    cases used y <;> cases decide (y = x) <;> rfl
  rw [Context.bound, marked]

theorem Context.Admits.again (h : c.Admits a) (scopes : c'.scopes = markNearest used (c.bound id a.referent).scopes)
    (receiver : c'.receiver = c.receiver) : c'.Admits a := by
  unfold Context.Admits at *
  split at h
  · next this => rw [if_pos this, receiver, h]
  · next named =>
    rw [if_neg named, scopes, Context.bound, markNearest_markNearest]
    apply innermostStage_markNearest
    simp [Token.referent, named]

/-- The second analysis accepts, refuses and leaves what the first one does; but it has one node more, numbered `n`, and
binds it to the frame of the node `n + 1`. -/
def BindsAlso (n : NodeId) (first second : Analysis Unit) : Prop :=
  ∀ c, c.distances.get? n = c.distances.get? (n + 1) →
    ∃ d, second c = ((first c).1, { (first c).2 with distances := d }) ∧
      (∀ i, i ≠ n → d.get? i = (first c).2.distances.get? i) ∧
      ((first c).1 = .ok () → d.get? n = (first c).2.distances.get? (n + 1))

theorem bindsAlso_spelledUpdate {n : NodeId} (f : Name) (op : Token) (shaped : (Part.expr v).Shaped)
    (fresh : ∀ i ∈ (Part.expr v).ids, n + 2 ≤ i) :
    BindsAlso n (expr (.update (a.occurrence (n + 1)) f op v))
      (expr (.spelledUpdate (a.occurrence n) (a.occurrence (n + 1)) f op v)) := by
  intro c same
  have update : expr (.update (a.occurrence (n + 1)) f op v) = (do expr (a.occurrence (n + 1)); expr v) := by
    simp only [expr]
  have spelled : expr (.spelledUpdate (a.occurrence n) (a.occurrence (n + 1)) f op v) =
      (do (do expr (a.occurrence (n + 1)); expr v); expr (a.occurrence n)) := by
    simp only [Expr.spelledUpdate, expr]
  rw [update, spelled]
  by_cases passes : Passes (do expr (a.occurrence (n + 1)); expr v) c
  · obtain ⟨first, second⟩ := passes_seq.1 passes
    have admits := admits_of_passes first
    have bound : after (expr (a.occurrence (n + 1))) c = c.bound (n + 1) a.referent :=
      congrArg Prod.snd (expr_occurrence admits)
    rw [bound] at second
    rw [seq_of_passes passes, passes_iff.1 passes, after_seq first, bound]
    -- what the value leaves: the scopes are still marked, and the two nodes have not been touched
    have receiver := (steady_analysis (p := .expr v) shaped second).receiver
    obtain ⟨used, -, left⟩ := leaves_analysis (.expr v) shaped
    have scopes := (left _ second).scopes
    rw [show leftBy (.expr v) = [] from rfl, enlarge_nil] at scopes
    have names := (declares_analysis (.expr v) shaped).names_after second
    rw [show declaredNames (.expr v) = [] from rfl, extend_nil, names_bound] at names
    have kept (i : NodeId) (low : i < n + 2) := keeps_analysis (.expr v)
      (fun mem => absurd (fresh i mem) (Nat.not_le.2 low)) (c.bound (n + 1) a.referent)
    change ∀ i, i < n + 2 → (after (expr v) _).distances.get? i = _ at kept
    change (after (expr v) _).receiver = _ at receiver
    change (after (expr v) _).scopes = _ at scopes
    change (after (expr v) _).names = _ at names
    generalize after (expr v) (c.bound (n + 1) a.referent) = c' at receiver scopes names kept
    rw [expr_occurrence (admits.again scopes receiver), bound_again scopes, names]
    refine ⟨_, rfl, ?_, ?_⟩
    · intro i other
      cases nearest a.referent c.names with
      | none => rfl
      | some k => exact Distances.get?_insert_of_ne _ k other
    · intro _
      have before := kept n (Nat.lt_succ_of_lt (Nat.lt_succ_self n))
      rw [kept (n + 1) (Nat.lt_succ_self (n + 1))]
      rw [Context.bound] at before ⊢
      cases found : nearest a.referent c.names with
      | none =>
        rw [found] at before
        exact before.trans same
      | some k => exact (Distances.get?_insert_self ..).trans (Distances.get?_insert_self ..).symm
  · rw [seq_of_fails passes]
    exact ⟨_, rfl, fun _ _ => rfl, fun ok => absurd ok passes⟩

end Scope

namespace Grammar

open Scriptlet.Parser (Level)

/-- Whatever the tokens are followed by, the parser reads them, numbering from `i`, as the tree. -/
def ReadAs (ts : List Token) (i : NodeId) (e : Expr) (j : NodeId) : Prop :=
  ∀ tokens, significant tokens = ts → Parser.parseExpression tokens i = ⟨.ok e, j⟩

/-- `target += value`, with any of the operators that compute and assign. -/
def updateText (target : List Token) (p : Punct) (line : Nat) (value : List Token) : List Token :=
  target ++ .ofPunct p line :: value

/-- `++target` -/
def stepText (p : Punct) (line : Nat) (target : List Token) : List Token := .ofPunct p line :: target

/-- `target = target + operand`, with any operator. -/
def spelledText (target : List Token) (q : Punct) (line : Nat) (operand : List Token) : List Token :=
  target ++ .ofPunct .equal line :: (target ++ .ofPunct q line :: operand)

/-- `(value)` -/
def bracketed (line : Nat) (value : List Token) : List Token :=
  .ofPunct .leftParen line :: value ++ [.ofPunct .rightParen line]

/-- `object.f` -/
def fieldOf (object : List Token) (line : Nat) (f : Token) : List Token := object ++ [.ofPunct .dot line, f]

variable {ts us : List Token} {i j k n : NodeId} {e l r v : Expr} {p q : Punct} {x f : Token}

theorem readAs_of_assignment (h : Derives .assignment ts i e j) : ReadAs ts i e j := by
  intro tokens same
  rw [parseExpression_eq_ok, same]
  exact whole_of_assignment h

/-- An operand of the next level is an operand of the level. -/
theorem operand_of_tighter {l : Level} (h : Derives (.operand (tighter l)) ts i e j) :
    Derives (.operand (some l)) ts i e j := by
  rw [← List.append_nil ts]
  exact .operand h .noOperator

theorem assignment_of_term (h : Derives (.operand (some .term)) ts i e j) : Derives .assignment ts i e j :=
  .plainAssignment (.plainTernary (operand_of_tighter (l := .or) (operand_of_tighter (l := .and)
    (operand_of_tighter (l := .equality) (operand_of_tighter (l := .comparison) (operand_of_tighter (l := .bitOr)
      (operand_of_tighter (l := .bitXor) (operand_of_tighter (l := .bitAnd) h))))))))

theorem assignment_of_prefixed (h : Derives .prefixed ts i e j) : Derives .assignment ts i e j :=
  assignment_of_term (operand_of_tighter (l := .term) (operand_of_tighter (l := .factor)
    (.unaryOperand (.plainUnary h))))

theorem operand_binary (line : Nat) {m : Level} (hm : m ≠ .or ∧ m ≠ .and) (hq : .punct q ∈ operators m)
    (left : Derives .call ts i l j) (right : Derives .call us j r k) :
    Derives (.operand (some m)) (ts ++ .ofPunct q line :: us) i (.binary l (.ofPunct q line) r) k := by
  have tail : Derives (.operands m l) (.ofPunct q line :: us ++ []) j (joined m l (.ofPunct q line) r) k :=
    .operator hq (operand_of_call right) .noOperator
  have whole := Derives.operand (operand_of_call left) tail
  rw [List.append_nil] at whole
  rwa [joined, if_neg (not_or.2 hm)] at whole

/-- An arithmetic operator between two operands that need no brackets. -/
theorem assignment_binary (line : Nat) (h : (p, q) ∈ compounds) (left : Derives .call ts i l j)
    (right : Derives .call us j r k) :
    Derives .assignment (ts ++ .ofPunct q line :: us) i (.binary l (.ofPunct q line) r) k := by
  have level : .punct q ∈ operators .term ∨ .punct q ∈ operators .factor := by
    simp only [compounds, List.mem_cons, Prod.mk.injEq, List.not_mem_nil, or_false] at h
    rcases h with ⟨-, rfl⟩ | ⟨-, rfl⟩ | ⟨-, rfl⟩ | ⟨-, rfl⟩ | ⟨-, rfl⟩ <;> decide
  apply assignment_of_term
  rcases level with term | factor
  · exact operand_binary line (by decide) term left right
  · exact operand_of_tighter (operand_binary line (m := .factor) (by decide) factor left right)

theorem call_bracketed (line : Nat) (h : Derives .assignment ts i v j) :
    Derives .call (bracketed line ts) i (.group v) j := by
  have inner : Derives .expression (ts ++ []) i v j := .expression h .noComma
  rw [List.append_nil] at inner
  have group : Derives .primary (.ofPunct .leftParen line :: ts ++ [.ofPunct .rightParen line]) i (.group v) j :=
    .group rfl inner rfl
  have call := Derives.call group .noCall
  rwa [List.append_nil] at call

theorem call_occurrence {a : Token} (h : a.kind = .identifier ∨ a.isKeyword .this) :
    Derives .call [a] i (a.occurrence i) (i + 1) := by
  unfold Token.occurrence
  split
  · next this => exact .call (.thisWord this) .noCall
  · next named => exact call_name (h.resolve_right named)

theorem Derives.raise (h : Derives .assignment ts i v j) :
    Derives .assignment ts (i + 1) ((Parser.higher 1).expr v) (j + 1) := by
  have raised := h.relabel (ρ := Parser.higher 1) fun _ => rfl
  rwa [List.map_congr_left fun t _ => Relabeling.token_renumber _ t, List.map_id'] at raised

/-- Two texts that are read from the same number, where the second uses up one number more. The numbers of the first tree
being raised by one, the analysis does the same to both in every context, and machines run them in parallel from every
state; so no host can tell which of the two it has submitted. -/
structure Interchangeable (ts us : List Token) (n : NodeId) : Prop where
  trees : ∃ e e' next, ReadAs ts n e next ∧ ReadAs us n e' (next + 1) ∧
    (∀ c, Scope.Analysis.expr ((Parser.higher 1).expr e) c = Scope.Analysis.expr e' c) ∧
    ∀ host (s : Machine.State), Machine.Parallel host (s.go (.evaluate ((Parser.higher 1).expr e))) (s.go (.evaluate e'))
  texts : Session.Indistinct ts us n

/-- The same of texts where the second names its object once more. It has a node `n` that the first has not, which the
analysis binds as the node `n + 1`; and machines run the two in parallel where it has been bound so. -/
structure InterchangeableTwice (ts us : List Token) (n : NodeId) : Prop where
  trees : ∃ e e' next, ReadAs ts n e next ∧ ReadAs us n e' (next + 1) ∧
    Scope.BindsAlso n (Scope.Analysis.expr ((Parser.higher 1).expr e)) (Scope.Analysis.expr e') ∧
    ∀ host (s : Machine.State), s.distances.get? n = s.distances.get? (n + 1) →
      Machine.Parallel host (s.go (.evaluate ((Parser.higher 1).expr e))) (s.go (.evaluate e'))
  texts : Session.Indistinct ts us n

theorem ReadAs.source (h : ReadAs ts i e j) {source : String} (spells : Session.Spells source ts) :
    Parser.parseExpression (Session.tokensOf source) i = ⟨.ok e, j⟩ := by
  apply h
  rw [significant_tokensOf, spells.2]

theorem Interchangeable.of_trees {e' : Expr} (read : ReadAs ts n e j) (read' : ReadAs us n e' (j + 1))
    (analysed : ∀ c, Scope.Analysis.expr ((Parser.higher 1).expr e) c = Scope.Analysis.expr e' c)
    (parallel : ∀ host (s : Machine.State),
      Machine.Parallel host (s.go (.evaluate ((Parser.higher 1).expr e))) (s.go (.evaluate e'))) :
    Interchangeable ts us n := by
  refine ⟨⟨e, e', j, read, read', analysed, parallel⟩, ?_⟩
  rintro host s first second lawful oblivious reachable rfl spells spells'
  have alternatives : Session.Alternatives host s first second e e' j
      (Scope.resolveExpression ((Parser.higher 1).expr e) s.world.distances).distances :=
    { scanned := spells.1
      scanned' := spells'.1
      parsed := read.source spells
      parsed' := read'.source spells'
      report := by simp only [Scope.resolveExpression, Scope.Report.of, analysed]
      agree := fun _ _ => rfl
      parallel := fun _ m _ => parallel host m }
  exact alternatives.imitates lawful oblivious reachable

theorem InterchangeableTwice.of_trees {e' : Expr} (read : ReadAs ts n e j) (read' : ReadAs us n e' (j + 1))
    (analysed : Scope.BindsAlso n (Scope.Analysis.expr ((Parser.higher 1).expr e)) (Scope.Analysis.expr e'))
    (parallel : ∀ host (s : Machine.State), s.distances.get? n = s.distances.get? (n + 1) →
      Machine.Parallel host (s.go (.evaluate ((Parser.higher 1).expr e))) (s.go (.evaluate e'))) :
    InterchangeableTwice ts us n := by
  refine ⟨⟨e, e', j, read, read', analysed, parallel⟩, ?_⟩
  rintro host s first second lawful oblivious reachable rfl spells spells'
  have unset (i : NodeId) (le : s.nextId ≤ i) : s.world.distances.get? i = none := by
    obtain ⟨t, life⟩ := reachable
    exact (life.aligned lawful).2.unset i le
  obtain ⟨d, report, agree, bound⟩ := analysed (Scope.outside s.world.distances)
    ((unset _ (Nat.le_refl _)).trans (unset _ (Nat.le_succ _)).symm)
  have alternatives : Session.Alternatives host s first second e e' j d :=
    { scanned := spells.1
      scanned' := spells'.1
      parsed := read.source spells
      parsed' := read'.source spells'
      report := by
        change Scope.Analysis.expr e' ⟨[], none, .none, [], s.world.distances⟩ = _ at report
        simp only [Scope.resolveExpression, Scope.Report.of, report]
        rfl
      agree := agree
      parallel := fun accepted m same => by
        apply parallel
        rw [same, bound accepted, agree _ (Nat.succ_ne_self _)] }
  exact alternatives.imitates lawful oblivious reachable

theorem is_ofPunct (p : Punct) (line : Nat) : (Token.ofPunct p line).is p := by simp [Token.is, Token.ofPunct]

theorem interchangeable_compound (compound : (p, q) ∈ compounds) (hx : x.kind = .identifier)
    (hv : Derives .assignment ts (n + 1) v j) (line : Nat) :
    Interchangeable (updateText [x] p line ts) (spelledText [x] q line (bracketed line ts)) n := by
  have read : Derives .assignment (updateText [x] p line ts) n _ _ := .updateName hx compound (is_ofPunct p line) hv
  have operand := assignment_binary line compound (call_name (i := n + 1) hx) (call_bracketed line hv.raise)
  have read' : Derives .assignment (spelledText [x] q line (bracketed line ts)) n _ _ := .assignName hx rfl operand
  apply Interchangeable.of_trees (readAs_of_assignment read) (readAs_of_assignment read')
  · intro c
    rfl
  · intro host s
    let s' := s.push (.assign (j + 1) (ofToken x)) (.value .null)
    have opened (right : Expr) : Machine.Parallel host (s.go (.evaluate (.assign (j + 1) (ofToken x) right)))
        (s'.go (.evaluate right)) := .of_step rfl rfl
    exact (opened _).trans ((Machine.parallel_group s' _ _ _).trans (opened _).symm)

theorem interchangeable_step {r : Punct} {unit : Token} (compound : (p, q) ∈ compounds) (step : (r, q) ∈ steps)
    (hx : x.kind = .identifier) (one : unit.kind = .number .one) (line : Nat) :
    Interchangeable (stepText r line [x]) (spelledText [x] q line [unit]) n := by
  have read : Derives .assignment (stepText r line [x]) n _ _ :=
    assignment_of_prefixed (.stepName step (is_ofPunct r line) hx)
  have operand := assignment_binary line compound (call_name (i := n + 1) hx) (.call (.numberLiteral one) .noCall)
  have read' : Derives .assignment (spelledText [x] q line [unit]) n _ _ := .assignName hx rfl operand
  exact .of_trees (readAs_of_assignment read) (readAs_of_assignment read') (fun _ => rfl) fun _ _ => .refl _

theorem derives_updateProperty {o : Expr} (compound : (p, q) ∈ compounds) (hf : f.kind = .identifier)
    (ho : Derives .call ts i o j) (hv : Derives .assignment us j v k) (line : Nat) :
    Derives .assignment (updateText (fieldOf ts line f) p line us) i (.update o (ofToken f) (.ofPunct q line) v) k := by
  have read := Derives.updateProperty ho (d := .ofPunct .dot line) rfl hf compound (is_ofPunct p line) hv
  rw [updateText, fieldOf, List.append_assoc]
  exact read

/-- An update through a word, and the assignment that names the word twice. -/
theorem interchangeableTwice_occurrence {a : Token} (compound : (p, q) ∈ compounds) (hf : f.kind = .identifier)
    (ha : a.kind = .identifier ∨ a.isKeyword .this) (plain : Spelled ts) (hv : Derives .assignment ts (n + 1) v j)
    (line : Nat) :
    InterchangeableTwice (updateText (fieldOf [a] line f) p line ts)
      (spelledText (fieldOf [a] line f) q line (bracketed line ts)) n := by
  have higher : Derives .assignment ts (n + 2) ((Parser.higher 1).expr v) (j + 1) := hv.raise
  have field : Derives .call (fieldOf [a] line f) (n + 1) (.get (a.occurrence (n + 1)) (ofToken f)) (n + 2) :=
    call_property (call_occurrence ha) rfl hf
  have value := assignment_binary line compound field (call_bracketed line higher)
  have read' : Derives .assignment (spelledText (fieldOf [a] line f) q line (bracketed line ts)) n
      (.spelledUpdate (a.occurrence n) (a.occurrence (n + 1)) (ofToken f) (.ofPunct q line) ((Parser.higher 1).expr v))
      (j + 1) :=
    .assignProperty (call_occurrence ha) (d := .ofPunct .dot line) rfl hf (o := .ofPunct .equal line) rfl value
  have raised : (Parser.higher 1).expr (.update (a.occurrence n) (ofToken f) (.ofPunct q line) v) =
      .update (a.occurrence (n + 1)) (ofToken f) (.ofPunct q line) ((Parser.higher 1).expr v) := by
    unfold Token.occurrence
    split <;> rfl
  have read := derives_updateProperty compound hf (call_occurrence ha) hv line
  apply InterchangeableTwice.of_trees (readAs_of_assignment read) (readAs_of_assignment read')
  · rw [raised]
    apply Scope.bindsAlso_spelledUpdate
    · exact (higher.formed (fun _ => plain) Part.allFormed_nil).one.shaped
    · intro i hi
      exact ((higher.adds.fresh (n + 2) (fresh_nil (Nat.le_refl _))).from_le i (by simpa using hi))
  · intro host s same
    rw [raised]
    exact Machine.parallel_update_occurrence same

/-- Updates mean what they stand for, whatever the operator and whatever the value is. -/
theorem updates_as_spelled (compound : (p, q) ∈ compounds) (hx : x.kind = .identifier) (hf : f.kind = .identifier)
    (plain : Spelled ts) (hv : Derives .assignment ts (n + 1) v j) (line : Nat) :
    -- `x += v` and `x = x + (v)`
    Interchangeable (updateText [x] p line ts) (spelledText [x] q line (bracketed line ts)) n ∧
    -- `++x` and `x = x + 1`
    (∀ r unit, (r, q) ∈ steps → unit.kind = .number .one →
      Interchangeable (stepText r line [x]) (spelledText [x] q line [unit]) n) ∧
    -- `o.f += v` and `t.f = t.f + (v)`
    (∀ object o k v j, Derives .call object n o k → Derives .assignment ts k v j →
      ReadAs (updateText (fieldOf object line f) p line ts) n (.update o (ofToken f) (.ofPunct q line) v) j ∧
        ∀ host s, Machine.UpdatesOnce host s o (ofToken f) (.ofPunct q line) v) ∧
    -- `a.f += v` and `a.f = a.f + (v)`, where `a` is a variable or the receiver
    (∀ a, a.kind = .identifier ∨ a.isKeyword .this →
      InterchangeableTwice (updateText (fieldOf [a] line f) p line ts)
        (spelledText (fieldOf [a] line f) q line (bracketed line ts)) n) ∧
    -- `++o.f` and `o.f += 1`
    ∀ r unit object o k, (r, q) ∈ steps → unit.kind = .number .one → Derives .call object n o k →
      ∃ e, ReadAs (stepText r line (fieldOf object line f)) n e k ∧
        ReadAs (updateText (fieldOf object line f) p line [unit]) n e k := by
  refine ⟨interchangeable_compound compound hx hv line,
    fun r unit step one => interchangeable_step compound step hx one line, ?_,
    fun a ha => interchangeableTwice_occurrence compound hf ha plain hv line, ?_⟩
  · intro object o k v j ho hv
    exact ⟨readAs_of_assignment (derives_updateProperty compound hf ho hv line),
      fun host s => Machine.updatesOnce host s o _ _ v⟩
  · intro r unit object o k step one ho
    have read := assignment_of_prefixed (.stepProperty step (is_ofPunct r line) ho (d := .ofPunct .dot line) rfl hf)
    have value : Derives .assignment [unit] k Grammar.one k := assignment_of_call (.call (.numberLiteral one) .noCall)
    exact ⟨_, readAs_of_assignment read, readAs_of_assignment (derives_updateProperty compound hf ho value line)⟩

/-- A machine that has the library and a variable `y`. -/
def readyState : Machine.State :=
  .start ⟨Store.bare.withLibrary.defineGlobal "y" .null, ⟨#[], [], true, .zero⟩, .empty⟩ (.value .null)

/-- In `x += y = 1` the value is an assignment itself, so the other text needs its brackets. In `List().f += y = 1` the
object is a new list, which no variable holds until `t` does. -/
theorem updates_as_spelled_nested :
    (∃ e e' next,
      ReadAs [⟨.identifier, "x", 1⟩, .ofPunct .plusEqual 1, ⟨.identifier, "y", 1⟩, .ofPunct .equal 1,
        ⟨.number .one, "1", 1⟩] 0 e next ∧
      ReadAs [⟨.identifier, "x", 1⟩, .ofPunct .equal 1, ⟨.identifier, "x", 1⟩, .ofPunct .plus 1, .ofPunct .leftParen 1,
        ⟨.identifier, "y", 1⟩, .ofPunct .equal 1, ⟨.number .one, "1", 1⟩, .ofPunct .rightParen 1] 0 e' (next + 1) ∧
      ∀ host (s : Machine.State) w o,
        Machine.Finishes host (s.go (.evaluate ((Parser.higher 1).expr e))) w o ↔
          Machine.Finishes host (s.go (.evaluate e')) w o) ∧
    Session.Imitates .sample (.withConsole ⟨#[], [], true, .zero⟩) "x += y = 1" "x = x + (y = 1)" ∧
    ∃ u, Machine.run .sample 6 (readyState.go (.evaluate (.call (.variable 0 ⟨"List", 1⟩) [] 1))).alone = u ∧
      u.outcome? = some (.value (.instance ⟨0⟩)) ∧
      Machine.ParallelBut "t" .sample
        (u.under [.updateObject ⟨"f", 1⟩ (.ofPunct .plus 1) (.assign 2 ⟨"y", 1⟩ one)])
        (((u.under []).write Store.globals "t" (.instance ⟨0⟩)).go
          (.evaluate (.spelledUpdate (.variable 3 ⟨"t", 1⟩) (.variable 4 ⟨"t", 1⟩) ⟨"f", 1⟩ (.ofPunct .plus 1)
            (.assign 2 ⟨"y", 1⟩ one)))) := by
  have value : Derives .assignment [⟨.identifier, "y", 1⟩, .ofPunct .equal 1, ⟨.number .one, "1", 1⟩] 1
      (.assign 2 ⟨"y", 1⟩ one) 3 :=
    .assignName rfl rfl (assignment_of_call (.call (.numberLiteral rfl) .noCall))
  have plain : Spelled [⟨.identifier, "y", 1⟩, .ofPunct .equal 1, ⟨.number .one, "1", 1⟩] := by
    unfold Spelled
    decide
  have compound : (Punct.plusEqual, Punct.plus) ∈ compounds := by decide
  obtain ⟨⟨⟨e, e', next, read, read', -, parallel⟩, texts⟩, -, once, -⟩ :=
    updates_as_spelled (x := ⟨.identifier, "x", 1⟩) (f := ⟨.identifier, "f", 1⟩) compound rfl rfl plain value 1
  refine ⟨⟨e, e', next, read, read', fun host s _ _ => (parallel host s).finishes_iff⟩, ?_, ?_⟩
  · exact (texts .sample _ _ _ Host.sample_lawful Host.sample_oblivious ⟨[], .fresh _⟩ rfl ⟨by cbv, by cbv⟩
      ⟨by cbv, by cbv⟩).1
  · let o : Expr := .call (.variable 0 ⟨"List", 1⟩) [] 1
    have object : Derives .call [⟨.identifier, "List", 1⟩, .ofPunct .leftParen 1, .ofPunct .rightParen 1] 0 o 1 :=
      .call (.name rfl) (.invoke rfl .noArgument rfl .noCall)
    have fresh := ((once _ o 1 _ 3 object value).2 .sample readyState).fresh
    have code : readyState.store.AllCode (Routine.Lacks "t") :=
      Store.AllCode.initial.kept (Store.Kept.bare.trans ((Store.Kept.withLibrary _).trans (.defineGlobal _ _ _)))
    have mentioned : "t" ∉ (Part.expr (.update o ⟨"f", 1⟩ (.ofPunct .plus 1) (.assign 2 ⟨"y", 1⟩ one))).names := by
      simp [o, one, Part.names_eq, Part.mentions, Part.node?, Part.children, Part.exprChildren]
    have spare : Machine.Spare .sample "t"
        (readyState.go (.evaluate (.update o ⟨"f", 1⟩ (.ofPunct .plus 1) (.assign 2 ⟨"y", 1⟩ one)))) :=
      ⟨Host.sample_lawful, Host.sample_overlooks "t", by decide, mentioned, fun _ hp => absurd hp List.not_mem_nil, code⟩
    have ended : (Machine.run .sample 6 (readyState.go (.evaluate o)).alone).outcome? = some (.value (.instance ⟨0⟩)) := by
      cbv
    exact ⟨_, rfl, ended, fresh ⟨"t", 1⟩ spare 6 _ _ rfl ended Store.globals 3 4 (by cbv) (by cbv)⟩

end Grammar

end Scriptlet
