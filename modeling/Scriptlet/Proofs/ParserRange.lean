import Scriptlet.Proofs.ParserBudget
import Scriptlet.Proofs.ParserRecipes

/-!
The parsers read a list of tokens by index. A `Reader` stands at an index and keeps account of every look at a token;
to ask for an index that is out of range ends it. Every recipe is also one for a reader, and the reader does what the
parser does: it never asks for an index out of range, never goes beyond the first end token, and on the top level every
round takes it further.
-/
namespace Scriptlet.Parser

/-- The list that is read. Its last token is an end token, which is added if need be. -/
def closed (tokens : List Token) : List Token :=
  if tokens.getLast?.any (·.kind = .eof) then tokens else tokens ++ [.eof ((tokens.getLast?.map Token.line).getD 1)]

/-- The index of the first end token. -/
def firstEnd (ts : List Token) : Nat := ts.findIdx (·.kind = .eof)

/-- A look at a token: where the reader stands, and the index that it asks for. -/
structure Look where
  current : Nat
  index : Nat

structure Reader where
  current : Nat
  nextId : NodeId
  loopDepth : Nat
  noted : List Error
  looks : List Look

/-- The reader has looked at an index. -/
def Reader.looked (r : Reader) (index : Nat) : Reader := { r with looks := ⟨r.current, index⟩ :: r.looks }

/-- The reader one token further. -/
def Reader.forward (r : Reader) : Reader := { r with current := r.current + 1 }

def Reader.start (base : NodeId) : Reader := ⟨0, base, 0, [], []⟩

inductive Reply (α : Type) where
  | ok (value : α) (reader : Reader)
  | error (error : Error) (reader : Reader)
  | exhausted
  | outOfRange (look : Look)

/-- A parser that reads by index. -/
def Reading (α : Type) := List Token → Reader → Reply α

namespace Reading

variable {α β : Type}

def andThen (m : Reading α) (f : α → Reading β) : Reading β := fun ts r =>
  match m ts r with
  | .ok a r => f a ts r
  | .error e r => .error e r
  | .exhausted => .exhausted
  | .outOfRange l => .outOfRange l

instance : Monad Reading where
  pure a := fun _ r => .ok a r
  bind := andThen

def exhausted : Reading α := fun _ _ => .exhausted

def fail (place : Place) (fault : Fault) : Reading α := fun _ r => .error ⟨place, fault⟩ r

def update (f : Reader → Reader) : Reading Unit := fun _ r => .ok () (f r)

def look (index : Nat → Nat) : Reading Token := fun ts r =>
  match ts[index r.current]? with
  | some t => .ok t (r.looked (index r.current))
  | none => .outOfRange ⟨r.current, index r.current⟩

def peek : Reading Token := look id

def previous : Reading Token := look (· - 1)

/-- Goes on by one token, unless it is at the end, and gives the token before the place where it then stands. -/
def advance : Reading Token := do
  if (← peek).kind ≠ .eof then update Reader.forward
  previous

def takeAs? (f : Token → Option α) : Reading (Option α) := do
  let t ← peek
  if t.kind = .eof then return none
  match f t with
  | some a =>
    let _ ← advance
    return some a
  | none => return none

def namedFunction : Reading Bool := do
  if (← peek).isKeyword .fun then
    if (← look (· + 1)).kind = .identifier then
      let _ ← advance
      return true
  return false

/-- Skips up to a statement boundary, at most `n` tokens. -/
def skip : Nat → Reading Unit
  | 0 => exhausted
  | n + 1 => do
    if (← peek).kind = .eof then return ()
    if (← previous).is .semicolon then return ()
    if startsStatement (← peek) then return ()
    let _ ← advance
    skip n

def recover : Reading Unit := fun ts => (do let _ ← advance; skip ts.length : Reading Unit) ts

def withLoopDepth (change : Nat → Nat) (m : Reading α) : Reading α := fun ts r =>
  match m ts { r with loopDepth := change r.loopDepth } with
  | .ok a r' => .ok a { r' with loopDepth := r.loopDepth }
  | .error e r' => .error e { r' with loopDepth := r.loopDepth }
  | .exhausted => .exhausted
  | .outOfRange l => .outOfRange l

def note (e : Error) : Reading Unit := update fun r => { r with noted := r.noted ++ [e] }

def recovering (m : Reading α) : Reading (Option α) := fun ts r =>
  match m ts r with
  | .ok a r => .ok (some a) r
  | .error e r => (do note e; recover; return none : Reading (Option α)) ts r
  | .exhausted => .exhausted
  | .outOfRange l => .outOfRange l

end Reading

open Reading in
/-- What a recipe makes of a reader. -/
def Recipe.reading {α : Type} {p q : Parser α} : Recipe p q → Reading α
  | .done a => pure a
  | .fail spot fault => Reading.fail spot fault
  | .exhausted _ => Reading.exhausted
  | .bind first later => do (later (← first.reading)).reading
  | @Recipe.ite _ _ _ _ _ c _ yes no => if c then yes.reading else no.reading
  | .takeAs? f => Reading.takeAs? f
  | .next p => return (← peek).is p
  | .atEnd => return (← peek).kind = .eof
  | .place => return (← peek).place
  | .namedFunction => Reading.namedFunction
  | .freshId => fun _ r => .ok r.nextId { r with nextId := r.nextId + 1 }
  | .loopDepth => fun _ r => .ok r.loopDepth r
  | .note spot fault => Reading.note ⟨spot, fault⟩
  | .withLoopDepth change r => r.reading.withLoopDepth change
  | .recovering r => r.reading.recovering

section Enacts

variable {α β : Type} {ts : List Token} {r : Reader}

def lineOfEnd (ts : List Token) : Nat := ((ts.find? (·.kind = .eof)).map Token.line).getD 1

/-- What a parser sees where a reader stands. -/
def Reader.state (ts : List Token) (r : Reader) : State :=
  ⟨(ts.take (firstEnd ts)).drop r.current, lineOfEnd ts, r.nextId, r.loopDepth, r.noted⟩

/-- The reader stands at most at the first end token, as it always did, and has only asked for indices in range. -/
structure Reader.Within (ts : List Token) (r : Reader) : Prop where
  current : r.current ≤ firstEnd ts
  looks : ∀ l ∈ r.looks, l.current ≤ firstEnd ts ∧ l.index < ts.length

/-- The reply is that of a parser, and the reader is still within the tokens. -/
inductive Reply.Follows (ts : List Token) : Reply α → Result α → Prop where
  | ok {a : α} {r : Reader} : r.Within ts → Follows ts (.ok a r) (.ok a (r.state ts))
  | error {e : Error} {r : Reader} : r.Within ts → Follows ts (.error e r) (.error e (r.state ts))
  | exhausted : Follows ts .exhausted .exhausted

/-- The reader does what the parser does. -/
def Enacts (ts : List Token) (m : Reading α) (p : Parser α) : Prop :=
  ∀ r : Reader, r.Within ts → (m ts r).Follows ts (p (r.state ts))

theorem Enacts.bind {m : Reading α} {p : Parser α} {f : α → Reading β} {g : α → Parser β} (first : Enacts ts m p)
    (later : ∀ a, Enacts ts (f a) (g a)) : Enacts ts (m >>= f) (p >>= g) := by
  intro r within
  have before := first r within
  change (Reading.andThen m f ts r).Follows ts (andThen p g (r.state ts))
  unfold Reading.andThen andThen
  generalize m ts r = x at before ⊢
  generalize p (r.state ts) = y at before ⊢
  cases before with
  | ok within => exact later _ _ within
  | error within => exact .error within
  | exhausted => exact .exhausted

theorem Enacts.ite {m m' : Reading α} {p p' : Parser α} {c : Prop} [Decidable c] (yes : Enacts ts m p)
    (no : Enacts ts m' p') : Enacts ts (if c then m else m') (if c then p else p') := by
  split
  · exact yes
  · exact no

theorem Enacts.withLoopDepth {m : Reading α} {p : Parser α} (change : Nat → Nat) (inner : Enacts ts m p) :
    Enacts ts (m.withLoopDepth change) (withLoopDepth change p) := by
  intro r within
  have inside := inner { r with loopDepth := change r.loopDepth } ⟨within.current, within.looks⟩
  unfold Reading.withLoopDepth Parser.withLoopDepth
  have same : Reader.state ts { r with loopDepth := change r.loopDepth } =
      { r.state ts with loopDepth := change (r.state ts).loopDepth } := rfl
  rw [same] at inside
  generalize m ts { r with loopDepth := change r.loopDepth } = x at inside ⊢
  generalize p { r.state ts with loopDepth := change (r.state ts).loopDepth } = y at inside ⊢
  cases inside with
  | @ok a r' within => exact @Reply.Follows.ok _ _ _ { r' with loopDepth := r.loopDepth } ⟨within.current, within.looks⟩
  | @error e r' within =>
    exact @Reply.Follows.error _ _ _ { r' with loopDepth := r.loopDepth } ⟨within.current, within.looks⟩
  | exhausted => exact .exhausted

end Enacts

section Looks

variable {α : Type} {ts : List Token} {r : Reader} {t : Token}

theorem Reply.Follows.bind_ok {β : Type} {m : Reading α} {f : α → Reading β} {a : α} {r' : Reader} {y : Result β}
    (h : m ts r = .ok a r') (later : (f a ts r').Follows ts y) : ((m >>= f) ts r).Follows ts y := by
  change (Reading.andThen m f ts r).Follows ts y
  simpa only [Reading.andThen, h] using later

theorem Reader.Within.looked (within : r.Within ts) {index : Nat} (lt : index < ts.length) :
    (r.looked index).Within ts :=
  ⟨within.current, List.forall_mem_cons.2 ⟨⟨within.current, lt⟩, within.looks⟩⟩

theorem Reply.Follows.of_state {a : α} {s : State} (within : r.Within ts) (h : r.state ts = s) :
    Reply.Follows ts (.ok a r) (.ok a s) :=
  h ▸ .ok within

theorem Reply.Follows.exists_ok {x : Reply α} {a : α} {s : State} (h : x.Follows ts (.ok a s)) :
    ∃ r, x = .ok a r ∧ r.Within ts ∧ r.state ts = s := by
  cases h with
  | ok within => exact ⟨_, rfl, within, rfl⟩

theorem look_eq {index : Nat → Nat} (h : ts[index r.current]? = some t) :
    Reading.look index ts r = .ok t (r.looked (index r.current)) := by
  simp only [Reading.look, h]

theorem peek_eq (h : ts[r.current]? = some t) : Reading.peek ts r = .ok t (r.looked r.current) := look_eq h

theorem previous_eq (h : ts[r.current - 1]? = some t) : Reading.previous ts r = .ok t (r.looked (r.current - 1)) :=
  look_eq h

variable (has : firstEnd ts < ts.length)

include has

/-- At the first end token nothing is left. -/
theorem at_end (h : r.current = firstEnd ts) :
    ∃ e, ts[r.current]? = some e ∧ e.kind = .eof ∧ e.line = lineOfEnd ts ∧ (r.state ts).rest = [] := by
  have found : ts[firstEnd ts].kind = .eof := of_decide_eq_true (List.findIdx_getElem (w := has))
  refine ⟨ts[firstEnd ts], ?_, found, ?_, ?_⟩
  · rw [h, List.getElem?_eq_getElem has]
  · rw [lineOfEnd, List.find?_eq_getElem?_findIdx]
    change _ = (ts[firstEnd ts]?.map Token.line).getD 1
    rw [List.getElem?_eq_getElem has]
    rfl
  · simp only [Reader.state, h]
    simp

/-- Before it the next token is the one at the reader's index. -/
theorem before_end (h : r.current < firstEnd ts) :
    ∃ t, ts[r.current]? = some t ∧ t.kind ≠ .eof ∧ (r.state ts).rest = t :: (r.forward.state ts).rest := by
  have lt : r.current < ts.length := Nat.lt_trans h has
  have other := List.not_of_lt_findIdx h
  refine ⟨ts[r.current], List.getElem?_eq_getElem lt, by simpa using other, ?_⟩
  simp only [Reader.state, Reader.forward]
  rw [List.drop_eq_getElem_cons (by rw [List.length_take]; omega), List.getElem_take]

/-- A reader looks at the token where it stands before it does anything else. -/
theorem Enacts.peek {f : Token → Reading α} {p : Parser α}
    (ended : ∀ (e : Token) (r : Reader), r.Within ts → e.kind = .eof → e.line = lineOfEnd ts → (r.state ts).rest = [] →
      (f e ts r).Follows ts (p (r.state ts)))
    (more : ∀ (t : Token) (r : Reader), r.Within ts → r.current < firstEnd ts → ts[r.current]? = some t →
      t.kind ≠ .eof → (r.state ts).rest = t :: (r.forward.state ts).rest → (f t ts r).Follows ts (p (r.state ts))) :
    Enacts ts (Reading.peek >>= f) p := by
  intro r within
  have looked := within.looked (Nat.lt_of_le_of_lt within.current has)
  rcases Nat.eq_or_lt_of_le within.current with h | h
  · obtain ⟨e, he, kind, line, rest⟩ := at_end has h
    exact .bind_ok (peek_eq he) (ended e _ looked kind line rest)
  · obtain ⟨t, ht, kind, rest⟩ := before_end has h
    exact .bind_ok (peek_eq ht) (more t _ looked h ht kind rest)

/-- Before the end a reader goes on by one token, and looks back at it. -/
theorem advance_forward (within : r.Within ts) (lt : r.current < firstEnd ts) (ht : ts[r.current]? = some t)
    (kind : t.kind ≠ .eof) :
    ∃ r', Reading.advance ts r = .ok t r' ∧ r'.Within ts ∧ r'.current = r.current + 1 ∧
      r'.state ts = r.forward.state ts := by
  have inside : r.current < ts.length := Nat.lt_trans lt has
  refine ⟨((r.looked r.current).forward).looked r.current, ?_, ?_, rfl, rfl⟩
  · simp only [Reading.advance, bind, Reading.andThen, peek_eq ht, if_pos kind]
    exact previous_eq (r := (r.looked r.current).forward) ht
  · have forward : (r.looked r.current).forward.Within ts := ⟨lt, (within.looked inside).looks⟩
    exact forward.looked inside

theorem advance_at_end (within : r.Within ts) (h : r.current = firstEnd ts) :
    ∃ t r', Reading.advance ts r = .ok t r' ∧ r'.Within ts ∧ r'.current = r.current ∧ r'.state ts = r.state ts := by
  obtain ⟨e, he, kind, -, -⟩ := at_end has h
  have inside : r.current - 1 < ts.length := by omega
  refine ⟨ts[r.current - 1], (r.looked r.current).looked (r.current - 1), ?_, ?_, rfl, rfl⟩
  · simp only [Reading.advance, bind, Reading.andThen, peek_eq he, if_neg (not_not_intro kind)]
    exact previous_eq (r := r.looked r.current) (List.getElem?_eq_getElem inside)
  · exact (within.looked (by omega)).looked inside

theorem enacts_takeAs? (f : Token → Option α) : Enacts ts (Reading.takeAs? f) (takeAs? f) := by
  refine .peek has (fun e r within kind line rest => ?_) fun t r within lt ht kind rest => ?_
  · simp only [kind, takeAs?, rest, if_true]
    exact .ok within
  · obtain ⟨r', hr, within', -, state⟩ := advance_forward has within lt ht kind
    simp only [kind, takeAs?, rest, if_false]
    cases f t with
    | some a =>
      exact .bind_ok hr (.of_state within' state)
    | none => exact .ok within

theorem enacts_next (p : Punct) : Enacts ts (do return (← Reading.peek).is p) (next p) := by
  refine .peek has (fun e r within kind line rest => ?_) fun t r within lt ht kind rest => ?_
  · have other : e.is p = false := by simp [Token.is, kind]
    simp only [next, rest, other]
    exact .ok within
  · simp only [next, rest, List.head?_cons, Option.any_some]
    exact .ok within

theorem enacts_atEnd : Enacts ts (do return decide ((← Reading.peek).kind = .eof)) atEnd := by
  refine .peek has (fun e r within kind line rest => ?_) fun t r within lt ht kind rest => ?_
  · simp only [atEnd, rest, kind]
    exact .ok within
  · simp only [atEnd, rest, kind]
    exact .ok within

theorem enacts_place : Enacts ts (do return (← Reading.peek).place) place := by
  refine .peek has (fun e r within kind line rest => ?_) fun t r within lt ht kind rest => ?_
  · have here : e.place = ⟨lineOfEnd ts, none⟩ := by simp [Token.place, kind, line]
    simp only [Parser.place, State.place, rest, here]
    exact .ok within
  · simp only [Parser.place, State.place, rest]
    exact .ok within

theorem enacts_namedFunction : Enacts ts Reading.namedFunction acceptNamedFunction := by
  refine .peek has (fun e r within kind line rest => ?_) fun t r within lt ht kind rest => ?_
  · have other : e.isKeyword .fun = false := by simp [Token.isKeyword, kind]
    simp only [acceptNamedFunction, rest, other]
    exact .ok within
  by_cases word : t.isKeyword .fun = true
  · rw [if_pos word]
    -- The token after `fun` is the end token at the latest.
    have looked : (r.looked (r.current + 1)).Within ts := within.looked (Nat.lt_of_le_of_lt lt has)
    rcases Nat.eq_or_lt_of_le lt with h | h
    · obtain ⟨e, he, ended, -, last⟩ := at_end has (r := r.forward) h
      refine .bind_ok (look_eq he) ?_
      rw [last] at rest
      simp only [acceptNamedFunction, rest, ended, reduceCtorEq, if_false]
      exact .ok looked
    · obtain ⟨u, hu, -, after⟩ := before_end has (r := r.forward) h
      refine .bind_ok (look_eq hu) ?_
      rw [after] at rest
      simp only [acceptNamedFunction, rest, word, Bool.true_and, decide_eq_true_eq]
      by_cases name : u.kind = .identifier
      · obtain ⟨r', hr, within', -, state⟩ := advance_forward has looked lt ht kind
        rw [if_pos name, if_pos name, ← after]
        exact .bind_ok hr (.of_state within' state)
      · rw [if_neg name, if_neg name]
        exact .ok looked
  · rw [if_neg word]
    rw [Bool.not_eq_true] at word
    have missed : acceptNamedFunction (r.state ts) = .ok false (r.state ts) := by
      unfold acceptNamedFunction
      rw [rest]
      split
      · next h =>
        rw [← (List.cons.inj h).1, word]
        rfl
      · rfl
    rw [missed]
    exact .ok within

/-- Skipping comes to the next statement boundary. -/
theorem skip_follows (n : Nat) {r : Reader} {last : Token} (within : r.Within ts) (enough : firstEnd ts < r.current + n)
    (hl : ts[r.current - 1]? = some last) :
    (Reading.skip n ts r).Follows ts (.ok () { r.state ts with rest := boundary last (r.state ts).rest }) := by
  induction n generalizing r last with
  | zero => exact absurd within.current (Nat.not_le_of_lt enough)
  | succ n ih =>
    have first := within.looked (Nat.lt_of_le_of_lt within.current has)
    rcases Nat.eq_or_lt_of_le within.current with h | h
    · obtain ⟨e, he, kind, -, rest⟩ := at_end has h
      refine .bind_ok (peek_eq he) ?_
      rw [if_pos kind, rest, boundary, ← rest]
      exact .ok first
    · obtain ⟨t, ht, kind, rest⟩ := before_end has h
      have second := first.looked (Nat.lt_of_le_of_lt (Nat.sub_le r.current 1) (Nat.lt_trans h has))
      have third := second.looked (Nat.lt_trans h has)
      refine .bind_ok (peek_eq ht) ?_
      rw [if_neg kind]
      refine .bind_ok (previous_eq hl) ?_
      rw [rest, boundary]
      by_cases close : last.is .semicolon = true
      · rw [if_pos close, if_pos (by simp [close]), ← rest]
        exact .ok second
      rw [if_neg close]
      refine .bind_ok (peek_eq ht) ?_
      by_cases start : startsStatement t = true
      · rw [if_pos start, if_pos (by simp [start]), ← rest]
        exact .ok third
      rw [if_neg start, if_neg (by simp [close, start])]
      obtain ⟨r', hr, within', current, state⟩ := advance_forward has third h ht kind
      have one_less : firstEnd ts < r'.current + n := by
        rw [current]
        show _ < r.current + 1 + n
        omega
      have further := ih within' one_less (by rw [current]; exact ht)
      rw [state] at further
      exact .bind_ok hr further

theorem recover_follows {r : Reader} (within : r.Within ts) :
    (Reading.recover ts r).Follows ts (.ok () { r.state ts with rest := skipped (r.state ts).rest }) := by
  rcases Nat.eq_or_lt_of_le within.current with h | h
  · obtain ⟨e, he, kind, -, rest⟩ := at_end has h
    obtain ⟨t, r', hr, within', current, state⟩ := advance_at_end has within h
    have inside : r'.current - 1 < ts.length := by omega
    have further := skip_follows has ts.length within' (by omega) (List.getElem?_eq_getElem inside)
    rw [state, rest, boundary] at further
    rw [rest, skipped]
    exact .bind_ok hr further
  · obtain ⟨t, ht, kind, rest⟩ := before_end has h
    obtain ⟨r', hr, within', current, state⟩ := advance_forward has within h ht kind
    have further := skip_follows has ts.length within' (by omega) (by rw [current]; exact ht)
    rw [state] at further
    rw [rest, skipped]
    exact .bind_ok hr further

theorem Enacts.recovering {n : Nat} {m : Reading Stmt} (inner : Enacts ts m (declaration n)) :
    Enacts ts m.recovering (declaration? n) := by
  intro r within
  have inside := inner r within
  rw [declaration?_eq]
  unfold Reading.recovering
  generalize m ts r = x at inside ⊢
  generalize declaration n (r.state ts) = y at inside ⊢
  cases inside with
  | ok within => exact .ok within
  | @error e r' within =>
    have noted : Reader.Within ts { r' with noted := r'.noted ++ [e] } := ⟨within.current, within.looks⟩
    obtain ⟨r'', hr, within', state⟩ := (recover_follows has noted).exists_ok
    exact .bind_ok (r := r') (m := Reading.note e) rfl (.bind_ok hr (.of_state within' state))
  | exhausted => exact .exhausted

/-- Every recipe is one for a reader. -/
theorem Recipe.enacts {p q : Parser α} (recipe : Recipe p q) : Enacts ts recipe.reading p := by
  induction recipe with
  | done a | loopDepth => exact fun r within => .ok within
  | fail spot fault => exact fun r within => .error within
  | exhausted q => exact fun r within => .exhausted
  | bind _ _ first later => exact first.bind later
  | ite c _ _ yes no => exact yes.ite no
  | takeAs? f => exact enacts_takeAs? has f
  | next p => exact enacts_next has p
  | atEnd => exact enacts_atEnd has
  | place => exact enacts_place has
  | namedFunction => exact enacts_namedFunction has
  | freshId =>
    exact fun r within => @Reply.Follows.ok _ _ _ { r with nextId := r.nextId + 1 } ⟨within.current, within.looks⟩
  | note spot fault =>
    exact fun r within => @Reply.Follows.ok _ _ _ { r with noted := r.noted ++ [⟨spot, fault⟩] }
      ⟨within.current, within.looks⟩
  | withLoopDepth change _ inner => exact inner.withLoopDepth change
  | recovering _ inner => exact inner.recovering has

end Looks

section Closed

variable (tokens : List Token)

theorem firstEnd_lt_closed : firstEnd (closed tokens) < (closed tokens).length := by
  refine List.findIdx_lt_length_of_exists ?_
  unfold closed
  split
  · next last =>
    obtain ⟨e, he, kind⟩ := (Option.any_eq_true _ _).1 last
    exact ⟨e, List.mem_of_getLast? he, kind⟩
  · exact ⟨_, List.mem_append_right _ (List.mem_singleton_self _), rfl⟩

theorem take_firstEnd (ts : List Token) : ts.take (firstEnd ts) = ts.takeWhile (·.kind ≠ .eof) := by
  have other : (fun t : Token => !decide (t.kind ≠ .eof)) = fun t => decide (t.kind = .eof) := by
    funext t
    simp
  rw [List.takeWhile_eq_take_findIdx_not, other, firstEnd]

theorem takeWhile_closed : (closed tokens).takeWhile (·.kind ≠ .eof) = tokens.takeWhile (·.kind ≠ .eof) := by
  unfold closed
  split
  · rfl
  · rw [List.takeWhile_append]
    split
    · next all => simpa [Token.eof] using ((List.takeWhile_prefix _).eq_of_length all).symm
    · rfl

/-- A list without an end token ends on the line of its last token. -/
theorem lineOfEnd_closed (base : NodeId) : lineOfEnd (closed tokens) = (State.start tokens base).endLine := by
  unfold State.start lineOfEnd
  dsimp only
  cases found : tokens.find? (·.kind = .eof) with
  | some e =>
    have same : (closed tokens).find? (·.kind = .eof) = some e := by
      unfold closed
      split
      · exact found
      · rw [List.find?_append, found, Option.some_or]
    rw [same]
    rfl
  | none =>
    have open_ended : closed tokens = tokens ++ [.eof ((tokens.getLast?.map Token.line).getD 1)] := by
      refine if_neg fun last => ?_
      obtain ⟨e, he, kind⟩ := (Option.any_eq_true _ _).1 last
      exact absurd kind (List.find?_eq_none.1 found e (List.mem_of_getLast? he))
    rw [open_ended, List.find?_append, found]
    cases tokens.getLast? <;> rfl

/-- A reader starts where a parser starts. -/
theorem state_start (base : NodeId) : (Reader.start base).state (closed tokens) = .start tokens base := by
  rw [Reader.state, take_firstEnd, takeWhile_closed, lineOfEnd_closed tokens base]
  rfl

theorem within_start (base : NodeId) : (Reader.start base).Within (closed tokens) := ⟨Nat.zero_le _, nofun⟩

end Closed

section Runs

variable {α : Type}

def Reply.reader? : Reply α → Option Reader
  | .ok _ r | .error _ r => some r
  | .exhausted | .outOfRange _ => none

/-- A tree or all faults, as a parser gives them. -/
def Reply.outcome? : Reply α → Option (Outcome α)
  | .ok a r => some ⟨if r.noted.isEmpty then .ok a else .error r.noted, r.nextId⟩
  | .error e r => some ⟨.error (r.noted ++ [e]), r.nextId⟩
  | .exhausted | .outOfRange _ => none

/-- From the start, and with any budget from that of the tokens on, the reading comes to an end with the outcome, and
the reader has stayed within the tokens. -/
def ReadsWithin (m : Nat → Reading α) (tokens : List Token) (base : NodeId) (outcome : Outcome α) : Prop :=
  ∀ n, budget tokens ≤ n → ∃ r : Reader, (m n (closed tokens) (.start base)).reader? = some r ∧
    (m n (closed tokens) (.start base)).outcome? = some outcome ∧ r.Within (closed tokens)

theorem readsWithin_run {p : Nat → Parser α} (recipe : (n : Nat) → Recipe (p n) (p (n + 1)))
    (ends : ∀ n m, 24 * m + 20 ≤ n → Ends m 0 (p n)) (tokens : List Token) (base : NodeId) :
    ReadsWithin (fun n => (recipe n).reading) tokens base (run p tokens base) := by
  intro n le
  have few : (State.start tokens base).rest.length ≤ tokens.length := (List.takeWhile_sublist _).length_le
  have ended := ends (budget tokens) tokens.length (by unfold budget; omega) (.start tokens base) few
  have follows := (recipe n).enacts (firstEnd_lt_closed tokens) _ (within_start tokens base)
  have finished := ended.ne_exhausted
  rw [state_start, answer_of_larger recipe finished le] at follows
  unfold run
  dsimp only
  generalize (recipe n).reading (closed tokens) (.start base) = x at follows ⊢
  generalize p (budget tokens) (.start tokens base) = y at follows finished ⊢
  cases follows with
  | ok within => exact ⟨_, rfl, rfl, within⟩
  | error within => exact ⟨_, rfl, rfl, within⟩
  | exhausted => exact absurd rfl finished

/-- One round of the top level: a declaration, or what is skipped in its place. -/
def round (n : Nat) : Reading (Option Stmt) := (Recipe.recovering (recipes n).declaration).reading

theorem length_rest {ts : List Token} (has : firstEnd ts < ts.length) (r : Reader) :
    (r.state ts).rest.length = firstEnd ts - r.current := by
  rw [Reader.state, List.length_drop, List.length_take, Nat.min_eq_left (Nat.le_of_lt has)]

/-- A round takes the reader further, and loops are counted back. -/
theorem round_forward {ts : List Token} (has : firstEnd ts < ts.length) {n : Nat} {r : Reader} (within : r.Within ts)
    (lt : r.current < firstEnd ts) (enough : 24 * (firstEnd ts - r.current) + 19 ≤ n) :
    ∃ x r', round n ts r = .ok x r' ∧ r'.Within ts ∧ r.current < r'.current ∧ r'.loopDepth = r.loopDepth := by
  have left := length_rest has r
  have ended :=
    ends_declaration? (n := n) (m := (r.state ts).rest.length) (by omega) (by omega) (r.state ts) (Nat.le_refl _)
  have kept := (Recipe.recovering (recipes n).declaration).precedes (r.state ts)
  have follows := (Recipe.recovering (recipes n).declaration).enacts has r within
  obtain ⟨x, t, ht⟩ := declaration?_ok ended.ne_exhausted
  rw [ht] at ended kept follows
  obtain ⟨r', hr, within', rfl⟩ := follows.exists_ok
  refine ⟨x, r', hr, within', ?_, kept.loopDepth⟩
  have left' := length_rest has r'
  have taken : (r'.state ts).rest.length + 1 ≤ (r.state ts).rest.length := ended
  omega

/-- The readers at the head of the top level's loop, each with the budget that is left. -/
inductive LoopHead (tokens : List Token) (base : NodeId) : Nat → Reader → Prop where
  | start : LoopHead tokens base (budget tokens) (.start base)
  | again {n : Nat} {r r₁ r₂ : Reader} {x : Option Stmt} : LoopHead tokens base (n + 1) r →
      Recipe.atEnd.reading (closed tokens) r = .ok false r₁ → round n (closed tokens) r₁ = .ok x r₂ →
      LoopHead tokens base n r₂

section AtEnd

variable {ts : List Token} (has : firstEnd ts < ts.length) {r : Reader}
include has

theorem atEnd_before (lt : r.current < firstEnd ts) : Recipe.atEnd.reading ts r = .ok false (r.looked r.current) := by
  obtain ⟨t, ht, kind, -⟩ := before_end has lt
  simp only [Recipe.reading, bind, Reading.andThen, peek_eq ht, kind]
  rfl

/-- Only before the end a reader is told that it is not at the end. -/
theorem before_of_atEnd {r₁ : Reader} (within : r.Within ts) (h : Recipe.atEnd.reading ts r = .ok false r₁) :
    r.current < firstEnd ts ∧ r₁ = r.looked r.current := by
  rcases Nat.eq_or_lt_of_le within.current with ended | lt
  · obtain ⟨e, he, kind, -⟩ := at_end has ended
    simp only [Recipe.reading, bind, Reading.andThen, peek_eq he, kind] at h
    cases h
  · rw [atEnd_before has lt] at h
    cases h
    exact ⟨lt, rfl⟩

end AtEnd

/-- At the head of the loop no loop is open, the reader is within the tokens, and the budget suffices for the rest. -/
theorem LoopHead.invariant {tokens : List Token} {base : NodeId} {n : Nat} {r : Reader}
    (head : LoopHead tokens base n r) :
    r.loopDepth = 0 ∧ r.Within (closed tokens) ∧ 24 * (firstEnd (closed tokens) - r.current) + 20 ≤ n := by
  have has := firstEnd_lt_closed tokens
  induction head with
  | start =>
    refine ⟨rfl, within_start tokens base, ?_⟩
    have left := length_rest has (.start base)
    have few : (State.start tokens base).rest.length ≤ tokens.length := (List.takeWhile_sublist _).length_le
    rw [state_start] at left
    unfold budget
    omega
  | @again n r r₁ r₂ x _ ended hr ih =>
    obtain ⟨depth, within, enough⟩ := ih
    obtain ⟨lt, rfl⟩ := before_of_atEnd has within ended
    have looked := within.looked (Nat.lt_trans lt has)
    have one_less : 24 * (firstEnd (closed tokens) - r.current) + 19 ≤ n := by omega
    obtain ⟨_, _, hr', within', further, kept⟩ := round_forward has looked lt one_less
    rw [hr] at hr'
    cases hr'
    exact ⟨kept.trans depth, within', by change r.current < r₂.current at further; omega⟩

end Runs

/-- For any list of tokens the parsers come to an end, and read by index they never ask for a token out of range nor go
beyond the first end token. Every round of the top level's loop goes on by at least one token and leaves no loop open;
and a list that is rejected has at least one fault. -/
theorem parser_stays_in_range (tokens : List Token) (base : NodeId) :
    firstEnd (closed tokens) < (closed tokens).length ∧
    ReadsWithin (fun n => (Recipe.program n).reading) tokens base (parse tokens base) ∧
    ReadsWithin (fun n => (Recipe.wholeExpression n).reading) tokens base (parseExpression tokens base) ∧
    (∀ n, (Recipe.program (n + 1)).reading = do
      if ← Recipe.atEnd.reading then return []
      else do
        let x ← round n
        return x.toList ++ (← (Recipe.program n).reading)) ∧
    (∀ n r, LoopHead tokens base n r → r.loopDepth = 0 ∧ r.current ≤ firstEnd (closed tokens) ∧
      (r.current < firstEnd (closed tokens) → ∃ m r₁ x r₂, n = m + 1 ∧
        Recipe.atEnd.reading (closed tokens) r = .ok false r₁ ∧ round m (closed tokens) r₁ = .ok x r₂ ∧
        r.current < r₂.current ∧ r₂.loopDepth = 0)) ∧
    (parse tokens base).result ≠ .error [] ∧ (parseExpression tokens base).result ≠ .error [] := by
  have has := firstEnd_lt_closed tokens
  refine ⟨has, readsWithin_run Recipe.program (fun _ _ h => ends_program h) tokens base,
    readsWithin_run Recipe.wholeExpression (fun _ _ h => ends_wholeExpression (by omega)) tokens base, fun n => rfl, ?_,
    parse_result_ne tokens base, parseExpression_result_ne tokens base⟩
  intro n r head
  obtain ⟨depth, within, enough⟩ := head.invariant
  refine ⟨depth, within.current, fun lt => ?_⟩
  obtain ⟨m, rfl⟩ : ∃ m, n = m + 1 := ⟨n - 1, by omega⟩
  have one_less : 24 * (firstEnd (closed tokens) - r.current) + 19 ≤ m := by omega
  obtain ⟨x, r₂, hr, -, further, kept⟩ := round_forward has (within.looked (Nat.lt_trans lt has)) lt one_less
  exact ⟨m, _, x, r₂, rfl, atEnd_before has lt, hr, further, kept.trans depth⟩

end Scriptlet.Parser
