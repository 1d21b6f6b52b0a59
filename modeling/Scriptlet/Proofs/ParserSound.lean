import Scriptlet.Proofs.Targets

/-!
Whatever the parser accepts without noting a fault is derived by the grammar, with the tree that the parser builds.
`Reads` follows the tokens through a parser, one rule for each elementary one; the statements for all nonterminals are
bundled for one budget, and proved for the next.
-/
namespace Scriptlet.Grammar

open Scriptlet.Parser (State Level bind_eq_ok pure_eq_ok map_eq_ok accept_eq_ok acceptKeyword_eq_ok expect_eq_ok
  expectName_eq_ok atEnd_eq_ok loopDepth_eq_ok freshId_eq_ok note_eq_ok withLoopDepth_eq_ok fail_ne_ok takeAs?_eq_ok
  Misses)
open Scriptlet.Parser.Name (ofToken)

/-- Whether the state is in a loop. -/
def inLoop (s : State) : Bool := s.loopDepth ≠ 0

/-- What is read: whether in a loop, from which number on, which tokens before which others, with which result, and the
number after it. -/
abbrev Account (α : Type) := Bool → NodeId → List Token → List Token → α → NodeId → Prop

/-- A parse that ends without noted faults reads tokens and hands out numbers, and changes nothing else. What it reads
is described by `D`. -/
def Reads {α : Type} (p : Parser α) (D : Account α) : Prop :=
  ∀ s a s', p s = .ok a s' → s'.noted = [] →
    ∃ ts rest j, s.rest = ts ++ rest ∧ s' = { s with rest, nextId := j } ∧ D (inLoop s) s.nextId ts rest a j

abbrev ReadsAs (k : Symbol) (p : Parser k.Tree) : Prop := Reads p fun _ i ts _ t j => Derives k ts i t j

section Rules

variable {α β : Type} {p : Parser α} {D E : Account α} {G : Account β}

theorem Reads.imp (h : Reads p D) (imp : ∀ {l i ts rest a j}, D l i ts rest a j → E l i ts rest a j) : Reads p E := by
  intro s a s' hp clean
  obtain ⟨ts, rest, j, hs, rfl, d⟩ := h _ _ _ hp clean
  exact ⟨ts, rest, j, hs, rfl, imp d⟩

theorem reads_pure {a : α} (h : ∀ {l i rest}, D l i [] rest a i) : Reads (pure a) D := by
  intro s b s' hp _
  obtain ⟨rfl, rfl⟩ := pure_eq_ok.1 hp
  exact ⟨[], _, _, rfl, rfl, h⟩

theorem reads_fail {place : Place} {fault : Parser.Fault} : Reads (Parser.fail place fault : Parser α) D :=
  fun _ _ _ h => absurd h fail_ne_ok

theorem Reads.bind {f : α → Parser β} (first : Reads p D)
    (later : ∀ a, Reads (f a) fun l j us rest b k => ∀ i ts, D l i ts (us ++ rest) a j → G l i (ts ++ us) rest b k) :
    Reads (p >>= f) G := by
  intro s b s' h clean
  obtain ⟨a, u, hp, hf⟩ := bind_eq_ok.1 h
  obtain ⟨us, rest, k, hu, rfl, d2⟩ := later a _ _ _ hf clean
  obtain ⟨ts, rest', j, hs, rfl, d1⟩ := first _ _ _ hp clean
  obtain rfl : rest' = us ++ rest := hu
  exact ⟨ts ++ us, rest, k, by simp [hs], rfl, d2 _ _ d1⟩

theorem Reads.map {g : α → β} (h : Reads p D) (imp : ∀ {l i ts rest a j}, D l i ts rest a j → G l i ts rest (g a) j) :
    Reads (do return g (← p)) G := by
  intro s b s' h' clean
  obtain ⟨a, u, hp, hf⟩ := bind_eq_ok.1 h'
  obtain ⟨rfl, rfl⟩ := pure_eq_ok.1 hf
  obtain ⟨ts, rest, j, hs, rfl, d⟩ := h _ _ _ hp clean
  exact ⟨ts, rest, j, hs, rfl, imp d⟩

theorem Reads.map_bind {γ : Type} {g : α → γ} {f : γ → Parser β} (first : Reads p D)
    (later : ∀ a, Reads (f (g a)) fun l j us rest b k =>
      ∀ i ts, D l i ts (us ++ rest) a j → G l i (ts ++ us) rest b k) :
    Reads (g <$> p >>= f) G := by
  intro s b s' h clean
  obtain ⟨_, u, hm, hf⟩ := bind_eq_ok.1 h
  obtain ⟨a, hp, rfl⟩ := map_eq_ok.1 hm
  exact first.bind later _ _ _ (bind_eq_ok.2 ⟨a, u, hp, hf⟩) clean

theorem Reads.ite {q : Parser α} {c : Prop} [Decidable c] (yes : Reads p D) (no : Reads q D) :
    Reads (if c then p else q) D := by
  split
  · exact yes
  · exact no

/-- A parser that only looks. -/
theorem Reads.still {f : α → Parser β} (still : ∀ s, ∃ a, p s = .ok a s) (later : ∀ a, Reads (f a) G) :
    Reads (p >>= f) G := by
  intro s b s' h clean
  obtain ⟨a, u, hp, hf⟩ := bind_eq_ok.1 h
  obtain ⟨a', same⟩ := still s
  cases same.symm.trans hp
  exact later _ _ _ _ hf clean

/-- After a noted fault a parse may end, but not without noted faults. -/
theorem Reads.note {f : Unit → Parser β} {place : Place} {fault : Parser.Fault}
    (later : Reads (f ()) fun _ _ _ _ _ _ => True) :
    Reads (Parser.note place fault >>= f) G := by
  intro s b s' h clean
  obtain ⟨_, u, hp, hf⟩ := bind_eq_ok.1 h
  obtain ⟨ts, rest, j, -, rfl, -⟩ := later _ _ _ hf clean
  obtain rfl := note_eq_ok.1 hp
  simp at clean

theorem Reads.freshId {f : NodeId → Parser β}
    (later : ∀ k, Reads (f k) fun l i ts rest b j => i = k + 1 → G l k ts rest b j) :
    Reads (Parser.freshId >>= f) G := by
  intro s b s' h clean
  obtain ⟨k, u, hp, hf⟩ := bind_eq_ok.1 h
  obtain ⟨rfl, rfl⟩ := freshId_eq_ok.1 hp
  obtain ⟨ts, rest, j, hs, rfl, d⟩ := later _ _ _ _ hf clean
  exact ⟨ts, rest, j, hs, rfl, d rfl⟩

theorem Reads.withLoopDepth {change : Nat → Nat} {b : Bool} (h : Reads p D)
    (change_ne : ∀ d, decide (change d ≠ 0) = b) :
    Reads (Parser.withLoopDepth change p) fun _ i ts rest a j => D b i ts rest a j := by
  intro s a s' h' clean
  obtain ⟨u, hp, rfl⟩ := withLoopDepth_eq_ok.1 h'
  obtain ⟨ts, rest, j, hs, rfl, d⟩ := h _ _ _ hp clean
  have within : inLoop { s with loopDepth := change s.loopDepth } = b := change_ne s.loopDepth
  exact ⟨ts, rest, j, hs, rfl, within ▸ d⟩

/-- One token, and then what is read after it. -/
theorem cons_read {s s' : State} {t : Token} {rest₀ : List Token} {P : List Token → List Token → NodeId → Prop}
    (hs : s.rest = t :: rest₀)
    (h : ∃ ts rest j, rest₀ = ts ++ rest ∧ s' = { s with rest, nextId := j } ∧ P (t :: ts) rest j) :
    ∃ ts rest j, s.rest = ts ++ rest ∧ s' = { s with rest, nextId := j } ∧ P ts rest j := by
  obtain ⟨ts, rest, j, rfl, rfl, d⟩ := h
  exact ⟨t :: ts, rest, j, hs, rfl, d⟩

theorem Reads.takeAs? {g : Token → Option α} {f : Option α → Parser β}
    (taken : ∀ t a, g t = some a → Reads (f (some a)) fun l i ts rest b j => G l i (t :: ts) rest b j)
    (missed : Reads (f none) G) : Reads (Parser.takeAs? g >>= f) G := by
  intro s b s' h clean
  obtain ⟨r, u, hp, hf⟩ := bind_eq_ok.1 h
  rcases takeAs?_eq_ok.1 hp with ⟨t, rest, a, hs, ha, rfl, rfl⟩ | ⟨rfl, rfl, -⟩
  · exact cons_read hs (taken t a ha _ _ _ hf clean)
  · exact missed _ _ _ hf clean

theorem Reads.take? {test : Token → Bool} {f : Option Token → Parser β}
    (taken : ∀ t, test t = true → Reads (f (some t)) fun l i ts rest b j => G l i (t :: ts) rest b j)
    (missed : Reads (f none) G) : Reads (Parser.take? test >>= f) G := by
  refine .takeAs? (fun t a ha => ?_) missed
  obtain ⟨rfl, ht⟩ := Option.guard_eq_some_iff.1 ha
  exact taken t ht

theorem Reads.accept {q : Punct} {f : Bool → Parser β}
    (taken : ∀ t : Token, t.is q → Reads (f true) fun l i ts rest b j => G l i (t :: ts) rest b j)
    (missed : Reads (f false) G) : Reads (Parser.accept q >>= f) G := by
  intro s b s' h clean
  obtain ⟨r, u, hp, hf⟩ := bind_eq_ok.1 h
  rcases accept_eq_ok.1 hp with ⟨rfl, t, rest, hs, ht, rfl⟩ | ⟨rfl, rfl, -⟩
  · exact cons_read hs (taken t ht _ _ _ hf clean)
  · exact missed _ _ _ hf clean

theorem Reads.acceptKeyword_misses {k : Keyword} {f : Bool → Parser β}
    (taken : ∀ t : Token, t.isKeyword k → Reads (f true) fun l i ts rest b j => G l i (t :: ts) rest b j)
    (missed : Reads (f false) fun l i ts rest b j => Misses (·.isKeyword k) (ts ++ rest) → G l i ts rest b j) :
    Reads (Parser.acceptKeyword k >>= f) G := by
  intro s b s' h clean
  obtain ⟨r, u, hp, hf⟩ := bind_eq_ok.1 h
  rcases acceptKeyword_eq_ok.1 hp with ⟨rfl, t, rest, hs, ht, rfl⟩ | ⟨rfl, rfl, misses⟩
  · exact cons_read hs (taken t ht _ _ _ hf clean)
  · obtain ⟨ts, rest, j, hs, rfl, d⟩ := missed _ _ _ hf clean
    exact ⟨ts, rest, j, hs, rfl, d (hs ▸ misses)⟩

theorem Reads.acceptKeyword {k : Keyword} {f : Bool → Parser β}
    (taken : ∀ t : Token, t.isKeyword k → Reads (f true) fun l i ts rest b j => G l i (t :: ts) rest b j)
    (missed : Reads (f false) G) : Reads (Parser.acceptKeyword k >>= f) G :=
  .acceptKeyword_misses taken (missed.imp fun d _ => d)

theorem Reads.acceptNamedFunction {f : Bool → Parser β}
    (taken : ∀ t : Token, t.isKeyword .fun → Reads (f true) fun l i ts rest b j => G l i (t :: ts) rest b j)
    (missed : Reads (f false) G) : Reads (Parser.acceptNamedFunction >>= f) G := by
  intro s b s' h clean
  obtain ⟨r, u, hp, hf⟩ := bind_eq_ok.1 h
  rcases Parser.acceptNamedFunction_eq_ok.1 hp with ⟨rfl, t, v, rest, hs, ht, -, rfl⟩ | ⟨rfl, rfl, -⟩
  · exact cons_read hs (taken t ht _ _ _ hf clean)
  · exact missed _ _ _ hf clean

theorem Reads.expect {q : Punct} {fault : Parser.Fault} {f : Token → Parser β}
    (later : ∀ t : Token, t.is q → Reads (f t) fun l i ts rest b j => G l i (t :: ts) rest b j) :
    Reads (Parser.expect q fault >>= f) G := by
  intro s b s' h clean
  obtain ⟨t, u, hp, hf⟩ := bind_eq_ok.1 h
  obtain ⟨rest, hs, ht, rfl⟩ := expect_eq_ok.1 hp
  exact cons_read hs (later t ht _ _ _ hf clean)

theorem Reads.expectName {fault : Parser.Fault} {f : Name → Parser β}
    (later : ∀ t : Token, t.kind = .identifier →
      Reads (f (ofToken t)) fun l i ts rest b j => G l i (t :: ts) rest b j) :
    Reads (Parser.expectName fault >>= f) G := by
  intro s b s' h clean
  obtain ⟨name, u, hp, hf⟩ := bind_eq_ok.1 h
  obtain ⟨t, rest, hs, ht, rfl, rfl⟩ := expectName_eq_ok.1 hp
  exact cons_read hs (later t ht _ _ _ hf clean)

theorem Reads.updateTarget? {target : Expr} {op : Token} {value : Expr} {f : Option Expr → Parser β}
    (ofName : ∀ id name k, target = .variable id name →
      Reads (f (some (.assign k name (.binary (.variable id name) op value)))) fun l i ts rest b j =>
        i = k + 1 → G l k ts rest b j)
    (ofProperty : ∀ object name, target = .get object name → Reads (f (some (.update object name op value))) G)
    (other : Reads (f none) G) : Reads (Parser.updateTarget? target op value >>= f) G := by
  intro s b s' h clean
  obtain ⟨r, u, hp, hf⟩ := bind_eq_ok.1 h
  rcases Parser.updateTarget?_eq_ok.1 hp with ⟨id, name, he, rfl, rfl⟩ | ⟨object, name, he, rfl, rfl⟩ | ⟨-, -, rfl, rfl⟩
  · obtain ⟨ts, rest, j, hs, rfl, d⟩ := ofName id name _ he _ _ _ hf clean
    exact ⟨ts, rest, j, hs, rfl, d rfl⟩
  · exact ofProperty object name he _ _ _ hf clean
  · exact other _ _ _ hf clean

/-- Nothing is noted only where the count has not reached the limit. -/
theorem Reads.limit {count : Nat} {fault : Parser.Fault} (h : Reads p D) :
    Reads (if maxArity ≤ count then do
        let place ← Parser.place
        let _ ← Parser.note place fault
        p
      else p) fun l i ts rest a j => count + 1 ≤ 255 ∧ D l i ts rest a j := by
  split
  · exact .still (fun _ => ⟨_, rfl⟩) fun _ => .note (h.imp fun _ => trivial)
  · next few =>
    unfold maxArity at few
    exact h.imp fun d => ⟨by omega, d⟩

end Rules

structure Sound (n : Nat) : Prop where
  expression : ReadsAs .expression (Parser.expression n)
  commas (left : Expr) : ReadsAs (.commas left) (Parser.commaTail n left)
  assignment : ReadsAs .assignment (Parser.assignment n)
  ternary : ReadsAs .ternary (Parser.ternary n)
  operand (l : Option Level) : ReadsAs (.operand l) (Parser.operand n (levels l))
  operands (l : Level) (left : Expr) :
    ReadsAs (.operands l left) (Parser.operandTail n l (levels (tighter l)) left)
  unary : ReadsAs .unary (Parser.unary n)
  suffixed : ReadsAs .suffixed (Parser.suffixed n)
  call : ReadsAs .call (Parser.call n)
  calls (callee : Expr) : ReadsAs (.calls callee) (Parser.callTail n callee)
  arguments (count : Nat) : Reads (Parser.arguments n count) fun _ i ts _ es j =>
    Derives .values ts i es j ∧ count + es.length ≤ 255
  primary : ReadsAs .primary (Parser.primary n)
  routine (role : Role) : ReadsAs .method (Parser.routine n role)
  routineRest (name : Name) (role : Role) : ReadsAs (.function name) (Parser.routineRest n name role)
  block : Reads (Parser.block n) fun l i ts _ body j =>
    ∃ us c, ts = us ++ [c] ∧ c.is .rightBrace ∧ Derives (.declarations l) us i body j
  members : Reads (Parser.members n) fun _ i ts _ ms j =>
    ∃ us c, ts = us ++ [c] ∧ c.is .rightBrace ∧ Derives .members us i ms j
  declaration : Reads (Parser.declaration n) fun l i ts _ t j => Derives (.declaration l) ts i t j
  statement : Reads (Parser.statement n) fun l i ts rest t j =>
    Derives (.statement l) ts i t j ∧ (endsOpen t = true → Misses (·.isKeyword .else) rest)
  condition (k : Keyword) : Reads (Parser.condition n k) fun _ i ts _ e j =>
    ∃ o us c, ts = o :: us ++ [c] ∧ o.is .leftParen ∧ c.is .rightParen ∧ Derives .expression us i e j

variable {n : Nat}

theorem commas_sound (ih : Sound n) (left : Expr) : ReadsAs (.commas left) (Parser.commaTail (n + 1) left) :=
  .take? (fun _ hc => ih.assignment.bind fun _ => (ih.commas _).imp fun d2 _ _ d1 => .comma hc d1 d2)
    (reads_pure .noComma)

theorem ternary_sound (ih : Sound n) : ReadsAs .ternary (Parser.ternary (n + 1)) := by
  refine (ih.operand (some .or)).bind fun e => .accept (fun q hq => ?_) (reads_pure fun _ _ d => ?_)
  · refine ih.ternary.bind fun yes => .expect fun c hc => ih.ternary.map fun d3 _ _ d2 _ _ d1 => ?_
    simpa using Derives.ternary d1 hq d2 hc d3
  · simpa using Derives.plainTernary d

theorem operand_sound (ih : Sound n) (l : Option Level) :
    ReadsAs (.operand l) (Parser.operand (n + 1) (levels l)) := by
  cases l with
  | none => exact ih.unary.imp .unaryOperand
  | some l =>
    rw [levels_some]
    exact (ih.operand (tighter l)).bind fun left => (ih.operands l left).imp fun d2 _ _ d1 => .operand d1 d2

theorem operands_sound (ih : Sound n) (l : Level) (left : Expr) :
    ReadsAs (.operands l left) (Parser.operandTail (n + 1) l (levels (tighter l)) left) := by
  refine .take? (fun o ho => (ih.operand _).bind fun right => ?_) (reads_pure .noOperator)
  rw [node_eq_joined]
  exact (ih.operands l _).imp fun d2 _ _ d1 => .operator (has_iff.1 ho) d1 d2

theorem assignment_sound (ih : Sound n) : ReadsAs .assignment (Parser.assignment (n + 1)) := by
  refine ih.ternary.bind fun target => .take? (fun o ho => ih.assignment.bind fun value => ?_)
    (.takeAs? (fun o r hr => ?_) (reads_pure fun _ _ d => ?_))
  · cases target with
    | «variable» id name =>
      refine .freshId fun k => reads_pure fun hk _ _ d2 _ _ d1 => ?_
      obtain ⟨t, rfl, ht, rfl, rfl, rfl⟩ := call_variable (call_of_ternary d1 rfl)
      simpa [hk] using Derives.assignName ht ho d2
    | get object name =>
      refine reads_pure fun _ _ d2 _ _ d1 => ?_
      obtain ⟨vs, d, t, rfl, hd, ht, rfl, d3⟩ := call_get (call_of_ternary d1 rfl)
      simpa using Derives.assignProperty d3 hd ht ho d2
    | _ => exact .note (reads_pure trivial)
  · obtain ⟨q, hq, rfl⟩ := Option.map_eq_some_iff.1 hr
    obtain ⟨p, hp, ho⟩ := compoundOperator?_eq_some.1 hq
    refine ih.assignment.bind fun value => .updateTarget? (fun id name k he => ?_) (fun object name he => ?_) reads_fail
    · refine reads_pure fun hk _ _ d2 _ _ d1 => ?_
      obtain ⟨t, rfl, ht, rfl, rfl, rfl⟩ := call_variable (call_of_ternary (he ▸ d1) rfl)
      simpa [hk, updated] using Derives.updateName ht hp ho d2
    · refine reads_pure fun _ _ d2 _ _ d1 => ?_
      obtain ⟨vs, d, t, rfl, hd, ht, rfl, d3⟩ := call_get (call_of_ternary (he ▸ d1) rfl)
      simpa using Derives.updateProperty d3 hd ht hp ho d2
  · simpa using Derives.plainAssignment d

theorem suffixed_sound (ih : Sound n) : ReadsAs .suffixed (Parser.suffixed (n + 1)) := by
  refine ih.call.bind fun target => .take? (fun o ho => ?_) (reads_pure fun _ _ d => ?_)
  · obtain ⟨q, hq⟩ := Option.isSome_iff_exists.1 ho
    obtain ⟨p, hp, ho⟩ := stepOperator?_eq_some.1 hq
    cases target with
    | «variable» id name =>
      refine .freshId fun k => reads_pure fun hk _ _ d => ?_
      obtain ⟨t, rfl, ht, rfl, rfl, rfl⟩ := call_variable d
      simpa [hk] using Derives.suffixed ht hp ho
    | _ => exact reads_fail
  · simpa using Derives.plainSuffixed d

theorem unary_sound (ih : Sound n) : ReadsAs .unary (Parser.unary (n + 1)) := by
  refine .take? (fun o ho => ih.unary.map (.unary (by simpa using ho)))
    (.takeAs? (fun o r hr => ?_) (ih.suffixed.imp fun d => .plainUnary (.plainPrefixed d)))
  obtain ⟨q, hq, rfl⟩ := Option.map_eq_some_iff.1 hr
  obtain ⟨p, hp, ho⟩ := stepOperator?_eq_some.1 hq
  refine ih.suffixed.bind fun target => .updateTarget? (fun id name k he => ?_) (fun object name he => ?_) reads_fail
  · refine reads_pure fun hk _ _ d => ?_
    obtain ⟨t, rfl, ht, rfl, rfl, rfl⟩ := call_variable (call_of_suffixed (he ▸ d) rfl)
    simpa [hk, updated, one] using Derives.plainUnary (.stepName hp ho ht)
  · refine reads_pure fun _ _ d => ?_
    obtain ⟨vs, d, t, rfl, hd, ht, rfl, d'⟩ := call_get (call_of_suffixed (he ▸ d) rfl)
    simpa [one] using Derives.plainUnary (.stepProperty hp ho d' hd ht)

theorem calls_sound (ih : Sound n) (callee : Expr) : ReadsAs (.calls callee) (Parser.callTail (n + 1) callee) := by
  refine .accept (fun o ho => ?_) (.accept (fun o ho => ?_) (.accept (fun o ho => ?_) (reads_pure .noCall)))
  · have close (es : List Expr) : Reads (do
        let c ← Parser.expect .rightParen .argumentEnd
        Parser.callTail n (.call callee es c.line)) fun _ j us _ e k =>
          ∀ i ts, Derives .arguments ts i es j → Derives (.calls callee) (o :: (ts ++ us)) i e k :=
      .expect fun c hc => (ih.calls _).imp fun d2 _ _ d1 => .invoke ho d1 hc d2
    refine .still (fun _ => ⟨_, rfl⟩) fun _ => .ite ((close []).imp fun d => d _ [] .noArgument) ?_
    exact (ih.arguments 0).bind fun es => (close es).imp fun d _ _ ⟨d1, few⟩ => d _ _ (.someArguments d1 (by omega))
  · exact .expectName fun t ht => (ih.calls _).imp fun d => .property ho ht d
  · exact ih.expression.bind fun _ => .expect fun c hc => (ih.calls _).imp fun d2 _ _ d1 => .index ho d1 hc d2

theorem arguments_sound (ih : Sound n) (count : Nat) :
    Reads (Parser.arguments (n + 1) count) fun _ i ts _ es j =>
      Derives .values ts i es j ∧ count + es.length ≤ 255 := by
  have tail : Reads (do
      let e ← Parser.assignment n
      if ← Parser.accept .comma then return e :: (← Parser.arguments n (count + 1)) else return [e])
      fun _ i ts _ es j => Derives .values ts i es j ∧ (count + 1 ≤ 255 → count + es.length ≤ 255) := by
    refine ih.assignment.bind fun e => .accept (fun c hc => ?_) (reads_pure fun _ _ d => ?_)
    · refine (ih.arguments (count + 1)).map fun ⟨d2, few⟩ _ _ d1 => ⟨.moreValues d1 hc d2, fun _ => ?_⟩
      rw [List.length_cons]
      omega
    · rw [List.append_nil]
      exact ⟨.oneValue d, id⟩
  exact tail.limit.imp fun ⟨few, d, le⟩ => ⟨d, le few⟩

theorem parameters_sound (n count : Nat) :
    Reads (Parser.parameters n count) fun _ i ts _ ns j =>
      Derives .names ts i ns i ∧ j = i ∧ count + ns.length ≤ 255 := by
  induction n generalizing count with
  | zero => exact fun _ _ _ h => nomatch h
  | succ n ih =>
    have tail : Reads (do
        let name ← Parser.expectName .parameterName
        if ← Parser.accept .comma then return name :: (← Parser.parameters n (count + 1)) else return [name])
        fun _ i ts _ ns j => Derives .names ts i ns i ∧ j = i ∧ (count + 1 ≤ 255 → count + ns.length ≤ 255) := by
      refine .expectName fun t ht => .accept (fun c hc => ?_) (reads_pure ⟨.oneName ht, rfl, id⟩)
      refine (ih (count + 1)).map fun ⟨d, same, few⟩ => ⟨.moreNames ht hc d, same, fun _ => ?_⟩
      rw [List.length_cons]
      omega
    exact tail.limit.imp fun ⟨few, d, same, le⟩ => ⟨d, same, le few⟩

theorem literal_sound {t : Token} {l : Literal} {i : NodeId} (h : Parser.literal? t = some l) :
    Derives .primary [t] i (.literal l) i := by
  unfold Parser.literal? at h
  split at h <;> cases h
  · next hk => exact .falseLiteral (by simp [Token.isKeyword, hk])
  · next hk => exact .trueLiteral (by simp [Token.isKeyword, hk])
  · next hk => exact .nullLiteral (by simp [Token.isKeyword, hk])
  · next hk => exact .numberLiteral hk
  · next hk => exact .textLiteral hk

theorem primary_sound (ih : Sound n) : ReadsAs .primary (Parser.primary (n + 1)) := by
  refine .takeAs? (fun t l hl => reads_pure (literal_sound hl)) (.take? (fun t ht => ?_) (.take? (fun t ht => ?_)
    (.accept (fun o ho => ?_) (.take? (fun c hc => ?_) ?_))))
  · exact .freshId fun k => reads_pure fun hk => hk ▸ .thisWord ht
  · exact .freshId fun k => reads_pure fun hk => hk ▸ .name (of_decide_eq_true ht)
  · exact ih.expression.bind fun _ => .expect fun c hc => reads_pure fun _ _ d => .group ho d hc
  · exact (ih.routineRest _ _).map (.lambda hc)
  · exact .still (fun _ => ⟨_, rfl⟩) fun _ => reads_fail

theorem routineRest_sound (ih : Sound n) (name : Name) (role : Role) :
    ReadsAs (.function name) (Parser.routineRest (n + 1) name role) := by
  refine .expect fun o ho => .still (fun _ => ⟨_, rfl⟩) fun _ => ?_
  have close (ps : List Name) : Reads (do
      let _ ← Parser.expect .rightParen .parameterEnd
      let _ ← Parser.expect .leftBrace (.routineBody role)
      return (⟨name, ps, ← Parser.withLoopDepth (fun _ => 0) (Parser.block n)⟩ : Routine)) fun _ j us _ r k =>
        ∀ ts, Derives .parameters ts j ps j → Derives (.function name) (o :: (ts ++ us)) j r k := by
    refine .expect fun c hc => .expect fun p hp => (ih.block.withLoopDepth fun _ => rfl).map ?_
    rintro _ _ _ _ body k ⟨us, q, rfl, hq, d2⟩ ts d1
    exact .function ho d1 hc (.block hp d2 hq)
  refine .ite ((close []).imp fun d => d [] .noParameter) ((parameters_sound n 0).bind fun ps => (close ps).imp ?_)
  rintro _ _ _ _ r k d2 i ts ⟨d1, rfl, few⟩
  exact d2 ts (.someParameters d1 (by omega))

theorem block_sound (ih : Sound n) :
    Reads (Parser.block (n + 1)) fun l i ts _ body j =>
      ∃ us c, ts = us ++ [c] ∧ c.is .rightBrace ∧ Derives (.declarations l) us i body j := by
  refine .still (fun _ => ⟨_, rfl⟩) fun _ => .still (fun _ => ⟨_, rfl⟩) fun _ => .ite ?_ ?_
  · exact .expect fun c hc => reads_pure ⟨[], c, rfl, hc, .noDeclaration⟩
  · refine ih.declaration.bind fun t => ih.block.map ?_
    rintro _ _ _ _ body k ⟨us, c, rfl, hc, d2⟩ i ts d1
    exact ⟨ts ++ us, c, by simp, hc, .moreDeclarations d1 d2⟩

theorem members_sound (ih : Sound n) :
    Reads (Parser.members (n + 1)) fun _ i ts _ ms j =>
      ∃ us c, ts = us ++ [c] ∧ c.is .rightBrace ∧ Derives .members us i ms j := by
  refine .still (fun _ => ⟨_, rfl⟩) fun _ => .still (fun _ => ⟨_, rfl⟩) fun _ => .ite ?_
    (.acceptKeyword (fun o ho => (ih.routine _).bind fun r => ih.members.map ?_)
      ((ih.routine _).bind fun r => ih.members.map ?_))
  · exact .expect fun c hc => reads_pure ⟨[], c, rfl, hc, .noMember⟩
  · rintro _ _ _ _ ms k ⟨us, c, rfl, hc, d2⟩ i ts d1
    exact ⟨o :: ts ++ us, c, by simp, hc, .oneStatic ho d1 d2⟩
  · rintro _ _ _ _ ms k ⟨us, c, rfl, hc, d2⟩ i ts d1
    exact ⟨ts ++ us, c, by simp, hc, .oneMethod d1 d2⟩

theorem declaration_sound (ih : Sound n) :
    Reads (Parser.declaration (n + 1)) fun l i ts _ t j => Derives (.declaration l) ts i t j := by
  refine .acceptKeyword (fun c hc => .expectName fun x hx => ?_) (.acceptNamedFunction (fun c hc => ?_)
    (.acceptKeyword (fun c hc => .expectName fun x hx => ?_) (ih.statement.imp fun ⟨d, _⟩ => .statement d)))
  · have close (base : Option Expr) : Reads (do
        let _ ← Parser.expect .leftBrace .classBody
        let members ← Parser.members n
        return Stmt.class ⟨ofToken x, base, members.1, members.2⟩) fun _ i ts _ t j =>
          ∃ o us e ms, ts = o :: us ++ [e] ∧ o.is .leftBrace ∧ e.is .rightBrace ∧ Derives .members us i ms j ∧
            t = .class ⟨ofToken x, base, ms.1, ms.2⟩ := by
      refine .expect fun o ho => ih.members.map ?_
      rintro _ _ _ _ ms j ⟨us, e, rfl, he, d⟩
      exact ⟨o, us, e, ms, rfl, ho, he, d, rfl⟩
    refine .accept (fun q hq => ih.call.map_bind fun base => (close (some base)).imp ?_) ((close none).imp ?_)
    · rintro _ _ _ _ _ _ ⟨o, us, e, ms, rfl, ho, he, d2, rfl⟩ i ts d1
      simpa using Derives.derivedClass hc hx hq d1 ho d2 he
    · rintro _ _ _ _ _ _ ⟨o, us, e, ms, rfl, ho, he, d, rfl⟩
      exact .plainClass hc hx ho d he
  · exact (ih.routine _).map (.functionDeclaration hc)
  · refine .accept (fun o ho => ?_) (.expect fun e he => reads_pure (.plainVariable hc hx he))
    exact ih.expression.map_bind fun _ => .expect fun e he => reads_pure fun _ _ d => .initialVariable hc hx ho d he

theorem loopControl_sound (t : Token) (k : Keyword) :
    Reads (Parser.loopControl t k) fun l i ts _ _ j => l = true ∧ j = i ∧ ∃ c, ts = [c] ∧ c.is .semicolon := by
  have close : Reads (do let _ ← Parser.expect .semicolon (.loopControlEnd k)) fun _ i ts _ _ j =>
      j = i ∧ ∃ c, ts = [c] ∧ c.is .semicolon :=
    .expect fun c hc => reads_pure ⟨rfl, c, rfl, hc⟩
  intro s a s' h clean
  obtain ⟨d, u, hd, hk⟩ := bind_eq_ok.1 h
  obtain ⟨rfl, rfl⟩ := loopDepth_eq_ok.1 hd
  by_cases out : u.loopDepth = 0
  · rw [if_pos out] at hk
    obtain ⟨-, -, -, -, -, never⟩ :=
      Reads.note (G := fun _ _ _ _ _ _ => False) (close.imp fun _ => trivial) _ _ _ hk clean
    exact never.elim
  · rw [if_neg out] at hk
    obtain ⟨ts, rest, j, hs, rfl, d⟩ := close _ _ _ hk clean
    exact ⟨ts, rest, j, hs, rfl, decide_eq_true out, d⟩

theorem statement_sound (ih : Sound n) :
    Reads (Parser.statement (n + 1)) fun l i ts rest t j =>
      Derives (.statement l) ts i t j ∧ (endsOpen t = true → Misses (·.isKeyword .else) rest) := by
  have shut {t : Stmt} {rest : List Token} (h : endsOpen t = false) :
      endsOpen t = true → Misses (·.isKeyword .else) rest :=
    fun h' => absurd (h.symm.trans h') Bool.false_ne_true
  refine .acceptKeyword (fun c hc => ?_) (.acceptKeyword (fun c hc => ?_) (.take? (fun c hc => ?_)
    (.take? (fun c hc => ?_) (.take? (fun c hc => ?_) (.accept (fun o ho => ?_)
      (.acceptKeyword (fun c hc => ?_) ?_))))))
  · refine (ih.condition _).bind fun e => ih.statement.bind fun yes => .acceptKeyword_misses (fun d hd => ?_) ?_
    · refine ih.statement.map_bind fun no => reads_pure ?_
      rintro l m rest k vs ⟨d3, opened⟩ j us ⟨d2, taken⟩ i _ ⟨o, ts, p, rfl, ho, hp, d1⟩
      -- an open branch would have taken the `else` for itself
      have closed : endsOpen yes = false := by
        rw [Bool.eq_false_iff]
        intro hy
        have missed := Parser.misses_cons.1 (taken hy)
        rw [hd] at missed
        cases missed
      exact ⟨by simpa using Derives.ifElse hc ho d1 hp d2 closed hd d3,
        fun h => opened (by simpa [endsOpen, branchOpen] using h)⟩
    · refine (reads_pure ?_ : Reads (pure (Stmt.conditional e yes none)) _)
      rintro l k rest missed j us ⟨d2, -⟩ i _ ⟨o, ts, p, rfl, ho, hp, d1⟩
      exact ⟨by simpa using Derives.ifThen hc ho d1 hp d2, fun _ => missed⟩
  · refine (ih.condition _).bind fun e => (ih.statement.withLoopDepth (b := true) fun _ => by simp).map ?_
    rintro l j us rest body k ⟨d2, opened⟩ i _ ⟨o, ts, p, rfl, ho, hp, d1⟩
    exact ⟨by simpa using Derives.while hc ho d1 hp d2, fun h => opened (by simpa [endsOpen] using h)⟩
  · refine .still (fun _ => ⟨_, rfl⟩) fun _ => .ite ?_ ?_
    · exact .expect fun e he => reads_pure ⟨.returnNull hc he, shut rfl⟩
    · exact ih.expression.map_bind fun _ => .expect fun e he => reads_pure fun _ _ d => ⟨.returnValue hc d he, shut rfl⟩
  · refine (loopControl_sound _ _).map ?_
    rintro _ i _ _ _ _ ⟨rfl, rfl, e, rfl, he⟩
    exact ⟨.break hc he, shut rfl⟩
  · refine (loopControl_sound _ _).map ?_
    rintro _ i _ _ _ _ ⟨rfl, rfl, e, rfl, he⟩
    exact ⟨.continue hc he, shut rfl⟩
  · refine ih.block.map ?_
    rintro l i _ _ body j ⟨us, c, rfl, hc, d⟩
    exact ⟨.blockStatement (.block ho d hc), shut rfl⟩
  · exact ih.expression.bind fun _ => .expect fun e he => reads_pure fun _ _ d => ⟨.print hc d he, shut rfl⟩
  · exact ih.expression.bind fun _ => .expect fun e he => reads_pure fun _ _ d => ⟨.expressionStatement d he, shut rfl⟩

/-- With no budget nothing is accepted, and every unit of it keeps the parser sound. -/
theorem sound (n : Nat) : Sound n := by
  induction n with
  | zero =>
    constructor
    all_goals intros
    all_goals intro s a s' h clean
    all_goals cases h
  | succ n ih =>
    exact {
      expression := ih.assignment.bind fun left => (ih.commas left).imp fun d2 _ _ d1 => .expression d1 d2
      commas := commas_sound ih
      assignment := assignment_sound ih
      ternary := ternary_sound ih
      operand := operand_sound ih
      operands := operands_sound ih
      unary := unary_sound ih
      suffixed := suffixed_sound ih
      call := ih.primary.bind fun e => (ih.calls e).imp fun d2 _ _ d1 => .call d1 d2
      calls := calls_sound ih
      arguments := arguments_sound ih
      primary := primary_sound ih
      routine := fun _ => .expectName fun _ ht => (ih.routineRest _ _).imp (.method ht)
      routineRest := routineRest_sound ih
      block := block_sound ih
      members := members_sound ih
      declaration := declaration_sound ih
      statement := statement_sound ih
      condition := fun _ => .expect fun o ho => ih.expression.bind fun _ => .expect fun c hc =>
        reads_pure fun _ ts d => ⟨o, ts, c, rfl, ho, hc, d⟩ }

/-- A recovered fault has been noted. -/
theorem declaration?_sound (n : Nat) :
    Reads (Parser.declaration? n) fun l i ts _ t? j => ∃ t, t? = some t ∧ Derives (.declaration l) ts i t j := by
  intro s t? s' h clean
  unfold Parser.declaration? at h
  split at h
  · next t x hx =>
    cases h
    obtain ⟨ts, rest, j, hs, rfl, d⟩ := (sound n).declaration _ _ _ hx clean
    exact ⟨ts, rest, j, hs, rfl, t, rfl, d⟩
  · next e x hx =>
    obtain ⟨_, y, h5, k5⟩ := bind_eq_ok.1 h
    obtain ⟨_, z, h6, k6⟩ := bind_eq_ok.1 k5
    obtain ⟨rfl, rfl⟩ := pure_eq_ok.1 k6
    obtain rfl := note_eq_ok.1 h5
    unfold Parser.recover at h6
    split at h6 <;> cases h6 <;> simp at clean
  · cases h

/-- A program is read to the end. -/
theorem program_sound (n : Nat) {s s' : State} {program : List Stmt}
    (h : Parser.program n s = .ok program s') (clean : s'.noted = []) :
    ∃ j, s' = { s with rest := [], nextId := j } ∧ Derives (.declarations (inLoop s)) s.rest s.nextId program j := by
  induction n generalizing s program with
  | zero => cases h
  | succ n ih =>
    obtain ⟨b, u, h1, k1⟩ := bind_eq_ok.1 h
    obtain ⟨rfl, rfl⟩ := atEnd_eq_ok.1 h1
    split at k1
    · next ended =>
      obtain ⟨rfl, rfl⟩ := pure_eq_ok.1 k1
      have ended := List.isEmpty_iff.1 ended
      refine ⟨u.nextId, by rw [← ended], ?_⟩
      rw [ended]
      exact .noDeclaration
    · obtain ⟨r, v, h2, k2⟩ := bind_eq_ok.1 k1
      obtain ⟨program, w, h3, k3⟩ := bind_eq_ok.1 k2
      obtain ⟨rfl, rfl⟩ := pure_eq_ok.1 k3
      obtain ⟨j, rfl, d2⟩ := ih h3
      obtain ⟨ts, rest, i, hs, rfl, t, rfl, d1⟩ := declaration?_sound n _ _ _ h2 clean
      refine ⟨j, rfl, ?_⟩
      rw [hs]
      exact .moreDeclarations d1 d2

theorem wholeExpression_sound (n : Nat) {s s' : State} {e : Expr}
    (h : Parser.wholeExpression n s = .ok e s') (clean : s'.noted = []) :
    WholeExpression s.rest s.nextId e s'.nextId := by
  obtain ⟨e, u, h1, k1⟩ := bind_eq_ok.1 h
  obtain ⟨b, v, h2, k2⟩ := bind_eq_ok.1 k1
  obtain ⟨b', w, h3, k3⟩ := bind_eq_ok.1 k2
  obtain ⟨rfl, rfl⟩ := atEnd_eq_ok.1 h3
  split at k3
  · obtain ⟨place, x, h4, k4⟩ := bind_eq_ok.1 k3
    obtain ⟨_, y, h5, k5⟩ := bind_eq_ok.1 k4
    obtain ⟨rfl, rfl⟩ := pure_eq_ok.1 k5
    obtain rfl := note_eq_ok.1 h5
    simp at clean
  · next ended =>
    obtain ⟨rfl, rfl⟩ := pure_eq_ok.1 k3
    have ended : w.rest = [] := by simpa using ended
    rcases accept_eq_ok.1 h2 with ⟨rfl, c, rest, hu, hc, rfl⟩ | ⟨rfl, rfl, -⟩
    · obtain ⟨ts, rest', j, hs, rfl, d⟩ := (sound n).expression _ _ _ h1 clean
      dsimp only at ended hu
      subst ended hu
      exact .inr ⟨ts, c, hs, hc, d⟩
    · obtain ⟨ts, rest', j, hs, rfl, d⟩ := (sound n).expression _ _ _ h1 clean
      dsimp only at ended
      subst ended
      rw [List.append_nil] at hs
      rw [hs]
      exact .inl d

end Scriptlet.Grammar
