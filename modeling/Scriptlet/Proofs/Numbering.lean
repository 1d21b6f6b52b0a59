import Scriptlet.Proofs.ParserExact
import Scriptlet.Proofs.Parts

/-!
What the grammar says about the trees that it derives: no number is given to two nodes, all of them come from the
range of the derivation, every part has the shape that the analysis of names relies on, and `break` and `continue` stand
in loops only.
-/
namespace Scriptlet

/-- What there is around a part to transfer control to: a loop, and a routine to return from. -/
structure Room where
  loop : Bool
  routine : Bool
deriving DecidableEq

namespace Room

instance : LE Room := ⟨fun room room' => room.loop ≤ room'.loop ∧ room.routine ≤ room'.routine⟩

/-- The top level, where no text that passes its analysis returns. -/
def outside : Room := ⟨false, false⟩

/-- The body of a routine. -/
def body : Room := ⟨false, true⟩

def inLoop (room : Room) : Room := { room with loop := true }

theorem inLoop_le {room room' : Room} (h : room ≤ room') : room.inLoop ≤ room'.inLoop := ⟨Bool.le_refl _, h.2⟩

end Room

namespace Part

/-- The room that a part leaves to its children. -/
def inner (room : Room) : Part → Room
  | .routine _ _ => .body
  | .stmt (.loop _ _) => room.inLoop
  | _ => room

/-- A transfer of control has something to go to. -/
def Obeys (room : Room) : Part → Prop
  | .stmt (.break _) | .stmt (.continue _) => room.loop = true
  | .stmt (.return _ _) => room.routine = true
  | _ => True

inductive Contained : Room → Part → Prop
  | intro {room : Room} {p : Part} : p.Obeys room → (∀ q ∈ p.children, Contained (p.inner room) q) → Contained room p

theorem Contained.obeys {room : Room} {p : Part} : Contained room p → p.Obeys room
  | .intro h _ => h

theorem Contained.child {room : Room} {p q : Part} : Contained room p → q ∈ p.children → Contained (p.inner room) q
  | .intro _ h, hq => h q hq

theorem Obeys.mono {room room' : Room} {p : Part} (h : p.Obeys room) (le : room ≤ room') : p.Obeys room' := by
  unfold Obeys at *
  split
  · exact le.1 h
  · exact le.1 h
  · exact le.2 h
  · trivial

theorem inner_mono {room room' : Room} (le : room ≤ room') (p : Part) : p.inner room ≤ p.inner room' := by
  unfold inner
  split
  · exact ⟨Bool.le_refl _, Bool.le_refl _⟩
  · exact Room.inLoop_le le
  · exact le

/-- For what a routine contains it does not matter what it is used for, and where it stands. -/
theorem Contained.routine {room room' : Room} {kind kind' : RoutineKind} {r : Routine}
    (h : (Part.routine kind r).Contained room) : (Part.routine kind' r).Contained room' :=
  .intro trivial fun _ hq => h.child hq

theorem Contained.body {room : Room} {kind : RoutineKind} {r : Routine} (h : (Part.routine kind r).Contained room) :
    (Part.stmts r.body).Contained .body :=
  h.child (.head _)

/-- Control is transferred to what there is around, and every part is tidy if `S` holds. -/
inductive Formed (S : Prop) : Room → Part → Prop
  | intro {room : Room} {p : Part} : p.Obeys room → (S → p.Tidy) → (∀ q ∈ p.children, Formed S (p.inner room) q) →
      Formed S room p

theorem Formed.contained {S : Prop} {room : Room} {p : Part} (h : p.Formed S room) : p.Contained room := by
  induction h with
  | intro obeys _ _ ih => exact .intro obeys ih

theorem Formed.shaped {room : Room} {p : Part} (h : p.Formed True room) : p.Shaped := by
  induction h with
  | intro _ tidy _ ih => exact .intro (tidy trivial) ih

theorem Formed.mono {S : Prop} {room room' : Room} {p : Part} (h : p.Formed S room) (le : room ≤ room') :
    p.Formed S room' := by
  induction h generalizing room' with
  | @intro room p obeys tidy _ ih => exact .intro (obeys.mono le) tidy fun q hq => ih q hq (inner_mono le p)

/-- It does not matter what a routine is used for, and where it stands. -/
theorem Formed.routine {S : Prop} {room room' : Room} {kind kind' : RoutineKind} {r : Routine} :
    (Part.routine kind r).Formed S room → (Part.routine kind' r).Formed S room'
  | .intro _ tidy below => .intro trivial tidy below

def AllFormed (S : Prop) (room : Room) (ps : List Part) : Prop := ∀ p ∈ ps, p.Formed S room

section AllFormed

variable {S : Prop} {room room' : Room} {p : Part} {ps qs : List Part}

theorem allFormed_nil : AllFormed S room [] := by simp [AllFormed]

theorem AllFormed.append (hp : AllFormed S room ps) (hq : AllFormed S room qs) : AllFormed S room (ps ++ qs) :=
  List.forall_mem_append.2 ⟨hp, hq⟩

theorem AllFormed.cons (hp : p.Formed S room) (h : AllFormed S room ps) : AllFormed S room (p :: ps) :=
  List.forall_mem_cons.2 ⟨hp, h⟩

theorem AllFormed.one (h : AllFormed S room [p]) : p.Formed S room := h p (.head _)

theorem AllFormed.mono (h : AllFormed S room ps) (le : room ≤ room') : AllFormed S room' ps :=
  fun p hp => (h p hp).mono le

theorem allFormed_one (obeys : p.Obeys room) (tidy : S → p.Tidy) (h : AllFormed S (p.inner room) p.children) :
    AllFormed S room [p] :=
  List.forall_mem_singleton.2 (.intro obeys tidy h)

theorem allFormed_expr {e : Expr} (tidy : (Part.expr e).Tidy) (h : AllFormed S room (exprChildren e)) :
    AllFormed S room [.expr e] :=
  allFormed_one trivial (fun _ => tidy) h

end AllFormed

end Part

namespace Grammar

open Scriptlet.Parser (Level)
open Scriptlet.Parser.Name (ofToken)
open Scriptlet.Part (idsOf)

/-- Numbers from `a` on and below `b`, none of them twice. -/
structure Fresh (a : Nat) (ids : List Nat) (b : Nat) : Prop where
  le : a ≤ b
  nodup : ids.Nodup
  from_le : ∀ id ∈ ids, a ≤ id
  lt : ∀ id ∈ ids, id < b

section Fresh

variable {a b c id : Nat} {l m : List Nat}

theorem fresh_nil (h : a ≤ b) : Fresh a [] b := ⟨h, .nil, by simp, by simp⟩

theorem fresh_one (ha : a ≤ id) (hb : id < b) : Fresh a [id] b :=
  ⟨by omega, by simp, by simpa using ha, by simpa using hb⟩

theorem Fresh.append (hl : Fresh a l b) (hm : Fresh b m c) : Fresh a (l ++ m) c := by
  have hab := hl.le
  have hbc := hm.le
  refine ⟨by omega, ?_, ?_, ?_⟩
  · refine List.nodup_append.2 ⟨hl.nodup, hm.nodup, fun x hx y hy => ?_⟩
    have := hl.lt x hx
    have := hm.from_le y hy
    omega
  · intro id h
    rcases List.mem_append.1 h with h | h
    · exact hl.from_le id h
    · have := hm.from_le id h
      omega
  · intro id h
    rcases List.mem_append.1 h with h | h
    · have := hl.lt id h
      omega
    · exact hm.lt id h

theorem Fresh.perm (h : Fresh a l b) (hp : l.Perm m) : Fresh a m b :=
  ⟨h.le, hp.nodup_iff.1 h.nodup, fun id hm => h.from_le id (hp.mem_iff.2 hm), fun id hm => h.lt id (hp.mem_iff.2 hm)⟩

end Fresh

/-- The parts that the tree of a symbol holds. -/
@[simp]
def Symbol.parts : (k : Symbol) → k.Tree → List Part
  | .declarations _, ss => [.stmts ss]
  | .block _, ss => [.stmts ss]
  | .declaration _, s => [.stmt s]
  | .statement _, s => [.stmt s]
  | .members, (ms, ss) => Part.statics ss ++ Part.methods ms
  | .method, r => [.routine .function r]
  | .function _, r => [.routine .function r]
  | .parameters, _ => []
  | .names, _ => []
  | .arguments, es => es.map .expr
  | .values, es => es.map .expr
  | .expression, e => [.expr e]
  | .commas _, e => [.expr e]
  | .assignment, e => [.expr e]
  | .ternary, e => [.expr e]
  | .operand _, e => [.expr e]
  | .operands _ _, e => [.expr e]
  | .unary, e => [.expr e]
  | .prefixed, e => [.expr e]
  | .suffixed, e => [.expr e]
  | .call, e => [.expr e]
  | .calls _, e => [.expr e]
  | .primary, e => [.expr e]

/-- The part that a repetition starts from. -/
@[simp]
def Symbol.seed : Symbol → List Part
  | .commas e => [.expr e]
  | .operands _ e => [.expr e]
  | .calls e => [.expr e]
  | _ => []

/-- From `i` to `j` a list of numbers has become another, with numbers from that range only. -/
structure Adds (i : Nat) (l m : List Nat) (j : Nat) : Prop where
  le : i ≤ j
  fresh : ∀ a, Fresh a l i → Fresh a m j

section Adds

variable {i j k id : Nat} {l m n : List Nat}

theorem adds_refl (i : Nat) (l : List Nat) : Adds i l l i := ⟨Nat.le_refl i, fun _ h => h⟩

theorem Adds.trans (h : Adds i l m j) (h' : Adds j m n k) : Adds i l n k :=
  ⟨Nat.le_trans h.le h'.le, fun a ha => h'.fresh a (h.fresh a ha)⟩

/-- What starts from nothing adds to anything. -/
theorem Adds.after (h : Adds i [] m j) (l : List Nat) : Adds i l (l ++ m) j :=
  ⟨h.le, fun _ ha => ha.append (h.fresh i (fresh_nil (Nat.le_refl i)))⟩

theorem Adds.append (h : Adds i [] l j) (h' : Adds j [] m k) : Adds i [] (l ++ m) k :=
  h.trans (h'.after l)

theorem Adds.perm (h : Adds i l m j) (hp : m.Perm n) : Adds i l n j :=
  ⟨h.le, fun a ha => (h.fresh a ha).perm hp⟩

theorem adds_one (hi : i ≤ id) (hj : id < j) : Adds i [] [id] j :=
  ⟨by omega, fun _ ha => fresh_one (Nat.le_trans ha.le hi) hj⟩

theorem adds_skip (h : i ≤ j) : Adds i l l j :=
  ⟨h, fun _ ha => ⟨Nat.le_trans ha.le h, ha.nodup, ha.from_le, fun id hm => Nat.lt_of_lt_of_le (ha.lt id hm) h⟩⟩

theorem adds_next (i : Nat) : Adds i [] [i] (i + 1) := adds_one (Nat.le_refl i) (Nat.lt_succ_self i)

end Adds

theorem ids_joined (l : Level) (left right : Expr) (op : Token) :
    (Part.expr (joined l left op right)).ids = (Part.expr left).ids ++ (Part.expr right).ids := by
  cases l <;> simp [joined, Part.ids_expr]

theorem Derives.adds {k : Symbol} {ts : List Token} {i j : NodeId} {t : k.Tree} (d : Derives k ts i t j) :
    Adds i (idsOf k.seed) (idsOf (k.parts t)) j := by
  induction d with
  | noDeclaration | plainVariable | returnNull | «break» | «continue» | noArgument | numberLiteral | textLiteral
  | trueLiteral | falseLiteral | nullLiteral => simpa using adds_refl _ []
  | noMember => simpa [Part.statics, Part.methods] using adds_refl _ []
  | noParameter | someParameters | oneName | moreNames | noComma | noOperator | noCall => exact adds_refl _ _
  | statement _ ih | block _ _ _ ih | plainAssignment _ ih | plainTernary _ ih | unaryOperand _ ih | plainUnary _ ih
  | plainPrefixed _ ih | plainSuffixed _ ih | someArguments _ _ ih | oneValue _ ih => exact ih
  | plainClass _ _ _ _ _ ih | method _ _ ih | function _ _ _ _ _ ih | functionDeclaration _ _ ih
  | initialVariable _ _ _ _ _ ih | returnValue _ _ _ ih | blockStatement _ ih | print _ _ _ ih | expressionStatement _ _ ih
  | unary _ _ ih | property _ _ _ ih | group _ _ _ ih | lambda _ _ ih => simpa using ih
  | moreDeclarations _ _ ih1 ih2 | derivedClass _ _ _ _ _ _ _ ih1 ih2 | ifThen _ _ _ _ _ ih1 ih2
  | «while» _ _ _ _ _ ih1 ih2 | updateProperty _ _ _ _ _ _ ih1 ih2 | moreValues _ _ _ ih1 ih2 =>
    simpa using ih1.append ih2
  | ifElse _ _ _ _ _ _ _ _ ih1 ih2 ih3 | ternary _ _ _ _ _ ih1 ih2 ih3 => simpa using (ih1.append ih2).append ih3
  | expression _ _ ih1 ih2 | operand _ _ ih1 ih2 | call _ _ ih1 ih2 => exact ih1.trans ih2
  | comma _ _ _ ih1 ih2 | invoke _ _ _ _ ih1 ih2 | index _ _ _ _ ih1 ih2 => exact (ih1.after _).trans (by simpa using ih2)
  | oneMethod _ _ ih1 ih2 =>
    exact (ih1.append ih2).perm (by simpa [Part.methods] using List.perm_append_comm_assoc ..)
  | oneStatic _ _ _ ih1 ih2 => simpa [Part.statics] using ih1.append ih2
  | assignName _ _ _ ih =>
    have value := (adds_skip (Nat.le_succ _)).trans ih
    exact (value.append (adds_next _)).perm (by simp)
  | assignProperty _ _ _ _ _ ih1 ih2 => exact (ih1.append ih2).perm (by simpa using List.perm_append_comm)
  | updateName _ _ _ _ ih =>
    refine (((adds_next _).append ih).append (adds_next _)).perm ?_
    simp only [Symbol.parts, updated, Part.idsOf_cons, Part.idsOf_nil, Part.ids_expr, List.append_nil]
    exact List.perm_append_singleton ..
  | operator _ _ _ ih1 ih2 => exact (ih1.after _).trans (by simpa [ids_joined] using ih2)
  | stepName =>
    refine ((adds_next _).append (adds_next _)).perm ?_
    simpa [updated, one] using List.Perm.swap ..
  | stepProperty _ _ _ _ _ ih => simpa [one] using ih
  | suffixed | thisWord | name => simpa using adds_one (by omega) (by omega)

/-- No identifier is spelled like the word for the receiver. -/
def Spelled (ts : List Token) : Prop := ∀ t ∈ ts, t.kind = .identifier → t.lexeme ≠ "this"

theorem spelled_append {ts us : List Token} : Spelled (ts ++ us) ↔ Spelled ts ∧ Spelled us := by
  simp only [Spelled, List.mem_append, or_imp, forall_and]

theorem spelled_cons {t : Token} {ts : List Token} :
    Spelled (t :: ts) ↔ (t.kind = .identifier → t.lexeme ≠ "this") ∧ Spelled ts := by
  simp only [Spelled, List.mem_cons, or_imp, forall_and, forall_eq]

def SpelledIf (S : Prop) (ts : List Token) : Prop := S → Spelled ts

theorem spelledIf_append {S : Prop} {ts us : List Token} :
    SpelledIf S (ts ++ us) ↔ SpelledIf S ts ∧ SpelledIf S us := by
  simp only [SpelledIf, spelled_append, imp_and]

theorem spelledIf_cons {S : Prop} {t : Token} {ts : List Token} :
    SpelledIf S (t :: ts) ↔ (S → t.kind = .identifier → t.lexeme ≠ "this") ∧ SpelledIf S ts := by
  simp only [SpelledIf, spelled_cons, imp_and]

/-- A statement that is no declaration declares nothing. -/
theorem declared?_of_statement {l : Bool} {ts : List Token} {i j : NodeId} {s : Stmt}
    (d : Derives (.statement l) ts i s j) : Part.declared? s = none := by
  cases d <;> rfl

theorem names_ne_this {ts : List Token} {i j : NodeId} {ps : List Name} (d : Derives .names ts i ps j)
    (hts : Spelled ts) : ∀ name ∈ ps, name.text ≠ "this" := by
  cases d with
  | oneName h => simpa [ofToken] using (spelled_cons.1 hts).1 h
  | moreNames h _ d =>
    rw [spelled_cons, spelled_cons] at hts
    rw [List.forall_mem_cons]
    exact ⟨hts.1 h, names_ne_this d hts.2.2⟩
termination_by ts.length

theorem method_name_ne_this {ts : List Token} {i j : NodeId} {r : Routine} (d : Derives .method ts i r j)
    (hts : Spelled ts) : r.name.text ≠ "this" := by
  cases d with
  | method hn d =>
    cases d
    exact (spelled_cons.1 hts).1 hn

/-- The room around what a symbol derives; the grammar says nothing of returns. -/
def Symbol.room : Symbol → Room
  | .declarations l | .declaration l | .statement l | .block l => ⟨l, true⟩
  | _ => .body

theorem body_le (l : Bool) : Room.body ≤ ⟨l, true⟩ := ⟨Bool.false_le _, Bool.le_refl _⟩

open Scriptlet.Part in
theorem Derives.formed {S : Prop} {k : Symbol} {ts : List Token} {i j : NodeId} {t : k.Tree} (d : Derives k ts i t j)
    (hts : SpelledIf S ts) (hk : AllFormed S .body k.seed) : AllFormed S k.room (k.parts t) := by
  induction d with
  | noDeclaration => exact allFormed_one trivial (fun _ => trivial) allFormed_nil
  | moreDeclarations _ _ ih1 ih2 =>
    rw [spelledIf_append] at hts
    exact allFormed_one trivial (fun _ => trivial) ((ih1 hts.1 allFormed_nil).append (ih2 hts.2 allFormed_nil))
  | plainClass _ hn _ _ _ ih | initialVariable _ hn _ _ _ ih =>
    simp only [spelledIf_append, spelledIf_cons] at hts
    refine allFormed_one trivial ?_ ((ih hts.1.2.2.2 allFormed_nil).mono (body_le _))
    rintro h name ⟨⟩
    exact hts.1.2.1 h hn
  | derivedClass _ hn _ _ _ _ _ ih1 ih2 =>
    simp only [spelledIf_append, spelledIf_cons] at hts
    have both := (ih1 hts.1.1.2.2.2 allFormed_nil).append (ih2 hts.1.2.2 allFormed_nil)
    refine allFormed_one trivial ?_ (both.mono (body_le _))
    rintro h name ⟨⟩
    exact hts.1.1.2.1 h hn
  | noMember => exact allFormed_nil
  | oneMethod _ _ ih1 ih2 =>
    rw [spelledIf_append] at hts
    have others := List.forall_mem_append.1 (ih2 hts.2 allFormed_nil)
    exact AllFormed.append others.1 (.cons (ih1 hts.1 allFormed_nil).one.routine others.2)
  | oneStatic _ _ _ ih1 ih2 =>
    simp only [spelledIf_append, spelledIf_cons] at hts
    exact .cons (ih1 hts.1.2 allFormed_nil).one.routine (ih2 hts.2 allFormed_nil)
  | method _ _ ih =>
    rw [spelledIf_cons] at hts
    exact ih hts.2 hk
  | function _ d _ _ _ ih =>
    simp only [spelledIf_append, spelledIf_cons] at hts
    refine allFormed_one trivial (fun h => ?_) (ih hts.2.2 allFormed_nil)
    cases d with
    | noParameter => simp [Tidy]
    | someParameters d _ => exact names_ne_this d (hts.1.2 h)
  | noParameter | someParameters | oneName | moreNames | noArgument => exact allFormed_nil
  | functionDeclaration _ d ih =>
    rw [spelledIf_cons] at hts
    refine allFormed_one trivial ?_ ((ih hts.2 allFormed_nil).mono (body_le _))
    rintro h name ⟨⟩
    exact method_name_ne_this d (hts.2 h)
  | plainVariable _ hn _ =>
    simp only [spelledIf_cons] at hts
    refine allFormed_one trivial ?_ allFormed_nil
    rintro h name ⟨⟩
    exact hts.2.1 h hn
  | statement _ ih | plainAssignment _ ih | plainTernary _ ih | unaryOperand _ ih | plainUnary _ ih | plainPrefixed _ ih
  | plainSuffixed _ ih | someArguments _ _ ih | oneValue _ ih => exact ih hts hk
  | ifThen _ _ _ _ d ih1 ih2 =>
    simp only [spelledIf_append, spelledIf_cons] at hts
    refine allFormed_one trivial (fun _ => ⟨declared?_of_statement d, by simp⟩) ?_
    exact ((ih1 hts.1.2.2 allFormed_nil).mono (body_le _)).append (ih2 hts.2.2 allFormed_nil)
  | ifElse _ _ _ _ d1 _ _ d2 ih1 ih2 ih3 =>
    simp only [spelledIf_append, spelledIf_cons] at hts
    refine allFormed_one trivial (fun _ => ⟨declared?_of_statement d1, by simpa using declared?_of_statement d2⟩) ?_
    exact ((ih1 hts.1.1.2.2 allFormed_nil).mono (body_le _)).append
      ((ih2 hts.1.2.2 allFormed_nil).append (ih3 hts.2.2 allFormed_nil))
  | «while» _ _ _ _ d ih1 ih2 =>
    simp only [spelledIf_append, spelledIf_cons] at hts
    refine allFormed_one trivial (fun _ => declared?_of_statement d) ?_
    exact ((ih1 hts.1.2.2 allFormed_nil).mono (body_le _)).append (ih2 hts.2.2 allFormed_nil)
  | returnNull | «break» | «continue» => exact allFormed_one rfl (fun _ => by simp [Tidy, declared?]) allFormed_nil
  | returnValue _ _ _ ih =>
    simp only [spelledIf_append, spelledIf_cons] at hts
    exact allFormed_one rfl (fun _ => by simp [Tidy, declared?]) ((ih hts.1.2 allFormed_nil).mono (body_le _))
  | blockStatement _ ih => exact allFormed_one trivial (fun _ => by simp [Tidy, declared?]) (ih hts allFormed_nil)
  | print _ _ _ ih =>
    simp only [spelledIf_append, spelledIf_cons] at hts
    exact allFormed_one trivial (fun _ => by simp [Tidy, declared?]) ((ih hts.1.2 allFormed_nil).mono (body_le _))
  | expressionStatement _ _ ih =>
    rw [spelledIf_append] at hts
    exact allFormed_one trivial (fun _ => by simp [Tidy, declared?]) ((ih hts.1 allFormed_nil).mono (body_le _))
  | block _ _ _ ih =>
    simp only [spelledIf_append, spelledIf_cons] at hts
    exact ih hts.1.2 hk
  | expression _ _ ih1 ih2 | operand _ _ ih1 ih2 | call _ _ ih1 ih2 =>
    rw [spelledIf_append] at hts
    exact ih2 hts.2 (ih1 hts.1 hk)
  | noComma | noOperator | noCall => exact hk
  | comma _ _ _ ih1 ih2 =>
    simp only [spelledIf_append, spelledIf_cons] at hts
    exact ih2 hts.2 (allFormed_expr trivial (hk.append (ih1 hts.1.2 allFormed_nil)))
  | assignName hn _ _ ih =>
    simp only [spelledIf_cons] at hts
    exact allFormed_one trivial (hts.1 · hn) (ih hts.2.2 hk)
  | assignProperty _ _ _ _ _ ih1 ih2 =>
    simp only [spelledIf_append, spelledIf_cons] at hts
    exact allFormed_expr trivial ((ih2 hts.2.2.2.2 hk).append (ih1 hts.1 hk))
  | updateName hn _ _ _ ih =>
    simp only [spelledIf_cons] at hts
    have current (id : NodeId) (name : Name) : AllFormed S .body [.expr (.variable id name)] :=
      allFormed_expr trivial allFormed_nil
    exact allFormed_one trivial (hts.1 · hn) (allFormed_expr trivial ((current _ _).append (ih hts.2.2 hk)))
  | updateProperty _ _ _ _ _ _ ih1 ih2 =>
    simp only [spelledIf_append, spelledIf_cons] at hts
    exact allFormed_expr trivial ((ih1 hts.1 hk).append (ih2 hts.2.2.2.2 hk))
  | ternary _ _ _ _ _ ih1 ih2 ih3 =>
    simp only [spelledIf_append, spelledIf_cons] at hts
    exact allFormed_expr trivial ((ih1 hts.1.1 hk).append ((ih2 hts.1.2.2 hk).append (ih3 hts.2.2 hk)))
  | operator _ _ _ ih1 ih2 =>
    simp only [spelledIf_append, spelledIf_cons] at hts
    have both := hk.append (ih1 hts.1.2 allFormed_nil)
    refine ih2 hts.2 ?_
    unfold joined
    split
    · exact allFormed_expr trivial both
    · exact allFormed_expr trivial both
  | unary _ _ ih =>
    rw [spelledIf_cons] at hts
    exact allFormed_expr trivial (ih hts.2 hk)
  | stepName _ _ hn =>
    simp only [spelledIf_cons] at hts
    have step : AllFormed S .body [.expr one] := allFormed_expr trivial allFormed_nil
    refine allFormed_one trivial (hts.2.1 · hn) (allFormed_expr trivial (.cons ?_ step))
    exact (allFormed_expr (e := .variable _ _) trivial allFormed_nil).one
  | stepProperty _ _ _ _ _ ih =>
    simp only [spelledIf_append, spelledIf_cons] at hts
    exact allFormed_expr trivial ((ih hts.1.2 hk).append (allFormed_expr trivial allFormed_nil))
  | suffixed hn _ _ => exact allFormed_one trivial ((spelledIf_cons.1 hts).1 · hn) allFormed_nil
  | invoke _ _ _ _ ih1 ih2 | index _ _ _ _ ih1 ih2 =>
    simp only [spelledIf_append, spelledIf_cons] at hts
    exact ih2 hts.2.2 (allFormed_expr trivial (hk.append (ih1 hts.1.2 allFormed_nil)))
  | property _ _ _ ih =>
    simp only [spelledIf_cons] at hts
    exact ih hts.2.2 (allFormed_expr trivial hk)
  | moreValues _ _ _ ih1 ih2 =>
    simp only [spelledIf_append, spelledIf_cons] at hts
    exact (ih1 hts.1 hk).append (ih2 hts.2.2 hk)
  | numberLiteral | textLiteral | trueLiteral | falseLiteral | nullLiteral | thisWord | name =>
    exact allFormed_expr trivial allFormed_nil
  | group _ _ _ ih =>
    simp only [spelledIf_append, spelledIf_cons] at hts
    exact allFormed_expr trivial (ih hts.1.2 hk)
  | lambda _ _ ih =>
    rw [spelledIf_cons] at hts
    exact allFormed_expr trivial (.cons (ih hts.2 hk).one.routine allFormed_nil)

end Grammar

end Scriptlet
