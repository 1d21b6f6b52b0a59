import Scriptlet.Proofs.Grammar

/-!
What the elementary parsers do: when they succeed, with which result, and what they leave. `Takes` composes them: it
follows one list of tokens through a parser.
-/
namespace Scriptlet.Parser

variable {α β : Type} {s s' : State}

theorem bind_eq_ok {p : Parser α} {f : α → Parser β} {b : β} :
    (p >>= f) s = .ok b s' ↔ ∃ a u, p s = .ok a u ∧ f a u = .ok b s' := by
  change andThen p f s = _ ↔ _
  unfold andThen
  cases h : p s with
  | ok a u =>
    constructor
    · intro hf
      exact ⟨a, u, rfl, hf⟩
    · rintro ⟨a', u', he, hf⟩
      cases he
      exact hf
  | error e u => simp
  | exhausted => simp

theorem bind_of_ok {p : Parser α} {f : α → Parser β} {a : α} (h : p s = .ok a s') :
    (p >>= f) s = f a s' := by
  change andThen p f s = _
  simp [andThen, h]

theorem pure_eq_ok {a b : α} : (pure a : Parser α) s = .ok b s' ↔ a = b ∧ s = s' := by
  change done a s = _ ↔ _
  simp [done]

theorem map_eq_ok {f : α → β} {p : Parser α} {b : β} :
    (f <$> p) s = .ok b s' ↔ ∃ a, p s = .ok a s' ∧ f a = b := by
  change (p >>= fun a => pure (f a)) s = _ ↔ _
  simp only [bind_eq_ok, pure_eq_ok]
  constructor
  · rintro ⟨a, u, h, rfl, rfl⟩
    exact ⟨a, h, rfl⟩
  · rintro ⟨a, h, rfl⟩
    exact ⟨a, s', h, rfl, rfl⟩

theorem fail_ne_ok {place : Place} {fault : Fault} {a : α} : (fail place fault : Parser α) s ≠ .ok a s' := by
  simp [fail]

/-- The first token, if there is one, does not pass the test. -/
def Misses (test : Token → Bool) (ts : List Token) : Prop := ∀ t ∈ ts.head?, test t = false

theorem misses_nil (test : Token → Bool) : Misses test [] := by simp [Misses]

theorem misses_cons {test : Token → Bool} {t : Token} {ts : List Token} :
    Misses test (t :: ts) ↔ test t = false := by
  simp [Misses]

theorem takeAs?_eq_ok {f : Token → Option α} {r : Option α} :
    takeAs? f s = .ok r s' ↔
      (∃ t rest a, s.rest = t :: rest ∧ f t = some a ∧ r = some a ∧ s' = { s with rest }) ∨
      (r = none ∧ s' = s ∧ ∀ t ∈ s.rest.head?, f t = none) := by
  unfold takeAs?
  split
  · next h => simp [h, eq_comm]
  · next t rest h =>
    split
    · next a ha =>
      simp only [h, Result.ok.injEq, List.cons.injEq, List.head?_cons, Option.mem_some_iff]
      constructor
      · rintro ⟨rfl, rfl⟩
        exact .inl ⟨t, rest, a, ⟨rfl, rfl⟩, ha, rfl, rfl⟩
      · rintro (⟨t', rest', a', ⟨rfl, rfl⟩, ha', rfl, rfl⟩ | ⟨-, -, hn⟩)
        · exact ⟨ha.symm.trans ha', rfl⟩
        · rw [hn t rfl] at ha
          cases ha
    · next ha => simp [h, ha, eq_comm]

theorem take?_eq_ok {test : Token → Bool} {r : Option Token} :
    take? test s = .ok r s' ↔
      (∃ t rest, s.rest = t :: rest ∧ test t ∧ r = some t ∧ s' = { s with rest }) ∨
      (r = none ∧ s' = s ∧ Misses test s.rest) := by
  simp only [take?, takeAs?_eq_ok, Option.guard_eq_some_iff, Misses]
  constructor
  · rintro (⟨t, rest, a, h, ⟨rfl, ht⟩, rfl, rfl⟩ | ⟨rfl, rfl, h⟩)
    · exact .inl ⟨t, rest, h, ht, rfl, rfl⟩
    · exact .inr ⟨rfl, rfl, fun t ht => by simpa [Option.guard] using h t ht⟩
  · rintro (⟨t, rest, h, ht, rfl, rfl⟩ | ⟨rfl, rfl, h⟩)
    · exact .inl ⟨t, rest, t, h, ⟨rfl, ht⟩, rfl, rfl⟩
    · exact .inr ⟨rfl, rfl, fun t ht => by simpa [Option.guard] using h t ht⟩

/-- Taking a token for its own sake tells only whether it was there. -/
theorem isSome_take?_eq_ok {test : Token → Bool} {b : Bool} :
    (do return (← take? test).isSome : Parser Bool) s = .ok b s' ↔
      (b = true ∧ ∃ t rest, s.rest = t :: rest ∧ test t ∧ s' = { s with rest }) ∨
      (b = false ∧ s' = s ∧ Misses test s.rest) := by
  simp only [bind_eq_ok, pure_eq_ok, take?_eq_ok]
  constructor
  · rintro ⟨r, u, ⟨t, rest, h, ht, rfl, rfl⟩ | ⟨rfl, rfl, h⟩, rfl, rfl⟩
    · exact .inl ⟨rfl, t, rest, h, ht, rfl⟩
    · exact .inr ⟨rfl, rfl, h⟩
  · rintro (⟨rfl, t, rest, h, ht, rfl⟩ | ⟨rfl, rfl, h⟩)
    · exact ⟨some t, _, .inl ⟨t, rest, h, ht, rfl, rfl⟩, rfl, rfl⟩
    · exact ⟨none, _, .inr ⟨rfl, rfl, h⟩, rfl, rfl⟩

theorem accept_eq_ok {p : Punct} {b : Bool} :
    accept p s = .ok b s' ↔
      (b = true ∧ ∃ t rest, s.rest = t :: rest ∧ t.is p ∧ s' = { s with rest }) ∨
      (b = false ∧ s' = s ∧ Misses (·.is p) s.rest) :=
  isSome_take?_eq_ok

theorem acceptKeyword_eq_ok {k : Keyword} {b : Bool} :
    acceptKeyword k s = .ok b s' ↔
      (b = true ∧ ∃ t rest, s.rest = t :: rest ∧ t.isKeyword k ∧ s' = { s with rest }) ∨
      (b = false ∧ s' = s ∧ Misses (·.isKeyword k) s.rest) :=
  isSome_take?_eq_ok

theorem expect_eq_ok {p : Punct} {fault : Fault} {t : Token} :
    expect p fault s = .ok t s' ↔ ∃ rest, s.rest = t :: rest ∧ t.is p ∧ s' = { s with rest } := by
  simp only [expect, bind_eq_ok, accept?, take?_eq_ok]
  constructor
  · rintro ⟨r, u, ⟨t', rest, h, ht, rfl, rfl⟩ | ⟨rfl, rfl, -⟩, hf⟩
    · obtain ⟨rfl, rfl⟩ := pure_eq_ok.1 hf
      exact ⟨rest, h, ht, rfl⟩
    · obtain ⟨a, u, -, hf⟩ := bind_eq_ok.1 hf
      exact absurd hf fail_ne_ok
  · rintro ⟨rest, h, ht, rfl⟩
    exact ⟨some t, _, .inl ⟨t, rest, h, ht, rfl, rfl⟩, pure_eq_ok.2 ⟨rfl, rfl⟩⟩

theorem expectName_eq_ok {fault : Fault} {name : Name} :
    expectName fault s = .ok name s' ↔
      ∃ t rest, s.rest = t :: rest ∧ t.kind = .identifier ∧ name = Name.ofToken t ∧ s' = { s with rest } := by
  simp only [expectName, bind_eq_ok, take?_eq_ok, decide_eq_true_eq]
  constructor
  · rintro ⟨r, u, ⟨t, rest, h, ht, rfl, rfl⟩ | ⟨rfl, rfl, -⟩, hf⟩
    · obtain ⟨rfl, rfl⟩ := pure_eq_ok.1 hf
      exact ⟨t, rest, h, ht, rfl, rfl⟩
    · obtain ⟨a, u, -, hf⟩ := bind_eq_ok.1 hf
      exact absurd hf fail_ne_ok
  · rintro ⟨t, rest, h, ht, rfl, rfl⟩
    exact ⟨some t, _, .inl ⟨t, rest, h, ht, rfl, rfl⟩, pure_eq_ok.2 ⟨rfl, rfl⟩⟩

theorem atEnd_eq_ok {b : Bool} : atEnd s = .ok b s' ↔ b = s.rest.isEmpty ∧ s' = s := by
  simp [atEnd, eq_comm]

theorem loopDepth_eq_ok {d : Nat} : loopDepth s = .ok d s' ↔ d = s.loopDepth ∧ s' = s := by
  simp [loopDepth, eq_comm]

theorem freshId_eq_ok {id : NodeId} :
    freshId s = .ok id s' ↔ id = s.nextId ∧ s' = { s with nextId := s.nextId + 1 } := by
  simp [freshId, eq_comm]

theorem note_eq_ok {place : Place} {fault : Fault} {a : Unit} :
    note place fault s = .ok a s' ↔ s' = { s with noted := s.noted ++ [⟨place, fault⟩] } := by
  simp [note, eq_comm]

theorem withLoopDepth_eq_ok {change : Nat → Nat} {p : Parser α} {a : α} :
    withLoopDepth change p s = .ok a s' ↔
      ∃ u, p { s with loopDepth := change s.loopDepth } = .ok a u ∧ s' = { u with loopDepth := s.loopDepth } := by
  unfold withLoopDepth
  cases h : p { s with loopDepth := change s.loopDepth } with
  | ok b u =>
    constructor
    · intro he
      cases he
      exact ⟨u, rfl, rfl⟩
    · rintro ⟨u', he, rfl⟩
      cases he
      rfl
  | error e u => simp
  | exhausted => simp

theorem acceptNamedFunction_eq_ok {b : Bool} :
    acceptNamedFunction s = .ok b s' ↔
      (b = true ∧ ∃ t u rest, s.rest = t :: u :: rest ∧ t.isKeyword .fun ∧ u.kind = .identifier ∧
        s' = { s with rest := u :: rest }) ∨
      (b = false ∧ s' = s ∧
        ∀ t u rest, s.rest = t :: u :: rest → t.isKeyword .fun → u.kind ≠ .identifier) := by
  unfold acceptNamedFunction
  split
  · next t u rest h => grind
  · next h => grind

theorem updateTarget?_eq_ok {target : Expr} {op : Token} {value : Expr} {r : Option Expr} :
    updateTarget? target op value s = .ok r s' ↔
      (∃ id name, target = .variable id name ∧
        r = some (.assign s.nextId name (.binary (.variable id name) op value)) ∧
        s' = { s with nextId := s.nextId + 1 }) ∨
      (∃ object name, target = .get object name ∧ r = some (.update object name op value) ∧ s' = s) ∨
      ((∀ id name, target ≠ .variable id name) ∧ (∀ object name, target ≠ .get object name) ∧
        r = none ∧ s' = s) := by
  unfold updateTarget?
  split
  · simp only [bind_eq_ok, pure_eq_ok, freshId_eq_ok]
    grind
  · simp only [pure_eq_ok]
    grind
  · simp only [pure_eq_ok]
    grind

section Takes

variable {p : Parser α} {f : α → Parser β} {depth : Nat} {t : Token} {ts us rest : List Token}
  {i j k : NodeId} {a : α} {b : β}

/-- Before any `rest`, the parser takes the tokens `ts` and the numbers from `i` to `j`, and gives `a`. -/
def Takes (p : Parser α) (depth : Nat) (ts rest : List Token) (i : NodeId) (a : α) (j : NodeId) : Prop :=
  ∀ line noted, p ⟨ts ++ rest, line, i, depth, noted⟩ = .ok a ⟨rest, line, j, depth, noted⟩

theorem Takes.bind (h : Takes p depth ts (us ++ rest) i a j) (hf : Takes (f a) depth us rest j b k) :
    Takes (p >>= f) depth (ts ++ us) rest i b k := by
  intro line noted
  rw [List.append_assoc, bind_of_ok (h line noted)]
  exact hf line noted

theorem Takes.cons (h : Takes p depth [t] (us ++ rest) i a j) (hf : Takes (f a) depth us rest j b k) :
    Takes (p >>= f) depth (t :: us) rest i b k :=
  Takes.bind h hf

theorem Takes.none (h : Takes p depth [] (us ++ rest) i a j) (hf : Takes (f a) depth us rest j b k) :
    Takes (p >>= f) depth us rest i b k :=
  Takes.bind h hf

theorem Takes.last (h : Takes p depth ts rest i a j) (hf : Takes (f a) depth [] rest j b k) :
    Takes (p >>= f) depth ts rest i b k := by
  rw [← List.append_nil ts]
  exact Takes.bind h hf

theorem takes_pure : Takes (pure a) depth [] rest i a i := fun _ _ => rfl

theorem Takes.map {g : α → β} (h : Takes p depth ts rest i a j) : Takes (g <$> p) depth ts rest i (g a) j := by
  change Takes (p >>= fun x => pure (g x)) depth ts rest i (g a) j
  exact h.last takes_pure

theorem takes_freshId : Takes freshId depth [] rest i i (i + 1) := fun _ _ => rfl

theorem takes_takeAs? {g : Token → Option α} (h : g t = some a) :
    Takes (takeAs? g) depth [t] rest i (some a) i := by
  intro line noted
  simp [takeAs?, h]

theorem misses_takeAs? {g : Token → Option α} (h : Misses (fun t => (g t).isSome) rest) :
    Takes (takeAs? g) depth [] rest i none i := by
  intro line noted
  cases rest with
  | nil => rfl
  | cons t rest =>
    have ht : g t = Option.none := by simpa using misses_cons.1 h
    simp [takeAs?, ht]

theorem takes_take? {test : Token → Bool} (h : test t = true) : Takes (take? test) depth [t] rest i (some t) i :=
  takes_takeAs? (by simp [Option.guard, h])

theorem misses_take? {test : Token → Bool} (h : Misses test rest) : Takes (take? test) depth [] rest i none i :=
  misses_takeAs? fun t ht => by simp [Option.guard, h t ht]

theorem takes_takeOperator? {plain? : Token → Option Punct} {q : Punct} (h : plain? t = some q) :
    Takes (takeOperator? plain?) depth [t] rest i (some (t, q)) i :=
  takes_takeAs? (by simp [h])

theorem misses_takeOperator? {plain? : Token → Option Punct} (h : Misses (fun t => (plain? t).isSome) rest) :
    Takes (takeOperator? plain?) depth [] rest i none i :=
  misses_takeAs? fun t ht => by simpa using h t ht

theorem takes_accept {q : Punct} (h : t.is q) : Takes (accept q) depth [t] rest i true i :=
  (takes_take? h).last takes_pure

theorem misses_accept {q : Punct} (h : Misses (·.is q) rest) : Takes (accept q) depth [] rest i false i :=
  (misses_take? h).none takes_pure

theorem takes_acceptKeyword {q : Keyword} (h : t.isKeyword q) : Takes (acceptKeyword q) depth [t] rest i true i :=
  (takes_take? h).last takes_pure

theorem misses_acceptKeyword {q : Keyword} (h : Misses (·.isKeyword q) rest) :
    Takes (acceptKeyword q) depth [] rest i false i :=
  (misses_take? h).none takes_pure

theorem takes_expect {q : Punct} {fault : Fault} (h : t.is q) : Takes (expect q fault) depth [t] rest i t i :=
  (takes_take? h).last takes_pure

theorem takes_expectName {fault : Fault} (h : t.kind = .identifier) :
    Takes (expectName fault) depth [t] rest i (Name.ofToken t) i :=
  (takes_take? (by simpa using h)).last takes_pure

theorem takes_next {q : Punct} (h : t.is q) : Takes (next q) depth [] (t :: rest) i true i := by
  intro line noted
  simp [next, h]

theorem misses_next {q : Punct} (h : Misses (·.is q) rest) : Takes (next q) depth [] rest i false i := by
  intro line noted
  cases rest with
  | nil => rfl
  | cons t rest =>
    have ht := misses_cons.1 h
    simp [next, ht]

theorem takes_atEnd : Takes atEnd depth [] rest i rest.isEmpty i := fun _ _ => rfl

theorem takes_acceptNamedFunction {u : Token} (ht : t.isKeyword .fun) (hu : u.kind = .identifier) :
    Takes acceptNamedFunction depth [t] (u :: rest) i true i := by
  intro line noted
  simp [acceptNamedFunction, ht, hu]

theorem misses_acceptNamedFunction (h : ∀ t u vs, rest = t :: u :: vs → t.isKeyword .fun → u.kind ≠ .identifier) :
    Takes acceptNamedFunction depth [] rest i false i :=
  fun _ _ => acceptNamedFunction_eq_ok.2 (.inr ⟨rfl, rfl, h⟩)

theorem takes_loopControl {c : Token} {q : Keyword} (hd : depth ≠ 0) (h : c.is .semicolon) :
    Takes (loopControl t q) depth [c] rest i () i := by
  refine .none (a := depth) (fun _ _ => rfl) ?_
  dsimp only
  rw [if_neg hd]
  exact .cons (takes_expect h) takes_pure

theorem takes_withLoopDepth {change : Nat → Nat} (h : Takes p (change depth) ts rest i a j) :
    Takes (withLoopDepth change p) depth ts rest i a j := by
  intro line noted
  simp [withLoopDepth, h line noted]

end Takes

end Scriptlet.Parser
