import Scriptlet.Proofs.Operations

/-!
Node numbers over the life of a session. Every tree that is read numbers its nodes from where the one before has
stopped, whether or not the text then passes its analysis and its run, so no two nodes ever share a number; and what
the analysis of a tree has recorded for its numbers is final.
-/
namespace Scriptlet

/-- A text that the parser has made a tree of: the number that it started with, the first one that it left, and what
was recorded when the analysis of the tree was over. -/
structure Reading where
  part : Part
  base : NodeId
  next : NodeId
  distances : Distances

namespace Session

/-- What the parser makes of tokens, whatever kind of text they are. -/
def outline (form : Form) (tokens : List Token) (base : NodeId) : Parser.Outcome Part :=
  match form with
  | .program =>
    let outcome := Parser.parse tokens base
    ⟨outcome.result.map .stmts, outcome.nextId⟩
  | .expression =>
    let outcome := Parser.parseExpression tokens base
    ⟨outcome.result.map .expr, outcome.nextId⟩

/-- The tree that an operation reads. A text gets to the parser if no errors are open and it has no stray characters. -/
def reading? (s : Session) : Operation → Option Reading
  | .submit form source =>
    if s.reporter.blocked || !(Item.faults (Token.scan source)).isEmpty then none
    else match outline form (tokensOf source) s.nextId with
      | ⟨.ok part, next⟩ => some ⟨part, s.nextId, next, (s.check form source).1.world.distances⟩
      | ⟨.error _, _⟩ => none
  | _ => none

/-- All trees that a sequence of operations reads, in the order of time. -/
def readings (host : Host) (s : Session) : List (Operation × Nat) → List Reading
  | [] => []
  | (op, limit) :: ops => (s.reading? op).toList ++ readings host (s.operate host limit op).1 ops

theorem operate_numbers (host : Host) (limit : Nat) (s : Session) (op : Operation) :
    Nat.le s.nextId (s.operate host limit op).1.nextId ∧
      ∀ id, Nat.lt id s.nextId → (s.operate host limit op).1.world.distances.get? id = s.world.distances.get? id := by
  by_cases h : ∃ form source, op = .submit form source
  · obtain ⟨form, source, rfl⟩ := h
    have skips := skips_submit host limit s form source
    obtain ⟨le, kept⟩ := check_numbers s form source
    refine ⟨Nat.le_trans le skips.next, fun id lt => ?_⟩
    rw [skips.distances, kept id lt]
  · have skips := skips_operate host limit s fun form source he => h ⟨form, source, he⟩
    exact ⟨skips.next, fun id _ => by rw [skips.distances]⟩

end Session

namespace Reading

/-- The session is past the numbers of the tree, and has recorded for them what it had at the end of the analysis. -/
structure Settled (r : Reading) (s : Session) : Prop where
  next : Nat.le r.next s.nextId
  distances : ∀ id, r.base ≤ id → Nat.lt id r.next → s.world.distances.get? id = r.distances.get? id

theorem Settled.operate {r : Reading} {s : Session} (h : r.Settled s) (host : Host) (limit : Nat) (op : Operation) :
    r.Settled (s.operate host limit op).1 := by
  obtain ⟨le, kept⟩ := s.operate_numbers host limit op
  refine ⟨Nat.le_trans h.next le, fun id from_le lt => ?_⟩
  rw [kept id (Nat.lt_of_lt_of_le lt h.next), h.distances id from_le lt]

theorem Settled.after {r : Reading} {s : Session} (h : r.Settled s) (host : Host) (ops : List (Operation × Nat)) :
    r.Settled (s.after host ops) := by
  induction ops generalizing s with
  | nil => exact h
  | cons op ops ih => exact ih (h.operate host op.2 op.1)

end Reading

namespace Session

variable {s : Session} {r : Reading}

theorem readable_outline {form : Form} {source : String} {base next : NodeId} {part : Part}
    (h : outline form (tokensOf source) base = ⟨.ok part, next⟩) : Readable base part next := by
  cases form with
  | program =>
    obtain ⟨result, rfl⟩ := Parser.Outcome.mk.inj h
    cases hr : (Parser.parse (tokensOf source) base).result with
    | error es =>
      rw [hr] at result
      cases result
    | ok program =>
      rw [hr] at result
      cases result
      exact readable_program hr
  | expression =>
    obtain ⟨result, rfl⟩ := Parser.Outcome.mk.inj h
    cases hr : (Parser.parseExpression (tokensOf source) base).result with
    | error es =>
      rw [hr] at result
      cases result
    | ok e =>
      rw [hr] at result
      cases result
      exact readable_expression hr

/-- Without open errors and stray characters, the later stages decide. -/
theorem load_of_ready {source : String} (form : Form) (clear : s.reporter.blocked = false)
    (scanned : Item.faults (Token.scan source) = []) : s.check form source = s.load form (tokensOf source) := by
  rw [check, scan, scanned, clear]
  rfl

theorem nextId_load (s : Session) (form : Form) (tokens : List Token) :
    (s.load form tokens).1.nextId = (outline form tokens s.nextId).nextId := by
  cases form with
  | program =>
    rw [load_program]
    exact (process_cases (Prod.eta _)).1
  | expression =>
    rw [load_expression]
    exact (process_cases (Prod.eta _)).1

/-- A program that is read has recorded what its analysis has. -/
theorem reading?_program {source : String} {program : List Stmt} {next : NodeId} (clear : s.reporter.blocked = false)
    (scanned : Item.faults (Token.scan source) = [])
    (parsed : Parser.parse (tokensOf source) s.nextId = ⟨.ok program, next⟩) :
    s.reading? (.submit .program source) =
      some ⟨.stmts program, s.nextId, next, (Scope.resolve program s.world.distances).distances⟩ := by
  have recorded : (s.check .program source).1.world.distances = (Scope.resolve program s.world.distances).distances := by
    rw [load_of_ready .program clear scanned, load_program, parsed]
    simp only [process, Session.parsed, resolved]
    cases (Scope.resolve program s.world.distances).result <;> rfl
  simp [reading?, clear, scanned, outline, parsed, recorded, Except.map]

/-- A tree is read with numbers that start where the session is, and settled right away. -/
theorem reading_cases {op : Operation} (h : s.reading? op = some r) :
    r.base = s.nextId ∧ Readable r.base r.part r.next ∧ ∀ host limit, r.Settled (s.operate host limit op).1 := by
  cases op with
  | submit form source =>
    simp only [reading?] at h
    split at h
    · cases h
    · next ready =>
      split at h
      · next part next parsed =>
        cases h
        refine ⟨rfl, readable_outline parsed, fun host limit => ?_⟩
        have skips := skips_submit host limit s form source
        have next : (s.check form source).1.nextId = next := by
          obtain ⟨clear, scanned⟩ : s.reporter.blocked = false ∧ Item.faults (Token.scan source) = [] := by
            simpa using ready
          rw [load_of_ready form clear scanned, nextId_load, parsed]
        exact ⟨Nat.le_trans (Nat.le_of_eq next.symm) skips.next, fun id _ _ => by rw [skips.distances]⟩
      · cases h
  | _ => cases h

/-- What is read later has later numbers, and settles as well. -/
theorem readings_cases {host : Host} {ops : List (Operation × Nat)} (h : r ∈ s.readings host ops) :
    s.nextId ≤ r.base ∧ Readable r.base r.part r.next ∧ r.Settled (s.after host ops) := by
  induction ops generalizing s with
  | nil => cases h
  | cons op ops ih =>
    rcases List.mem_append.1 h with h | h
    · obtain ⟨base, readable, settled⟩ := reading_cases (Option.mem_toList.1 h)
      exact ⟨Nat.le_of_eq base.symm, readable, (settled host op.2).after host ops⟩
    · obtain ⟨le, readable, settled⟩ := ih h
      exact ⟨Nat.le_trans (s.operate_numbers host op.2 op.1).1 le, readable, settled⟩

theorem pairwise_readings (host : Host) (s : Session) (ops : List (Operation × Nat)) :
    (s.readings host ops).Pairwise fun r r' => r.part.ids.Disjoint r'.part.ids := by
  induction ops generalizing s with
  | nil => exact .nil
  | cons op ops ih =>
    refine List.pairwise_append.2 ⟨?_, ih _, fun r hr r' hr' id hid hid' => ?_⟩
    · cases s.reading? op.1 with
      | none => exact .nil
      | some r => exact List.pairwise_singleton _ r
    · obtain ⟨-, readable, settled⟩ := reading_cases (Option.mem_toList.1 hr)
      obtain ⟨le, readable', -⟩ := readings_cases hr'
      have below : Nat.lt id r'.base :=
        Nat.lt_of_lt_of_le (readable.fresh.lt id hid) (Nat.le_trans (settled host op.2).next le)
      exact Nat.lt_irrefl id (Nat.lt_of_lt_of_le below (readable'.fresh.from_le id hid'))

/-- Over any sequence of operations, each tree numbers its nodes apart from each other, within the range that its
parser has given out, and apart from those of every other tree; and what is recorded for that range stays what it was
at the end of the tree's analysis. -/
theorem node_numbers_never_collide (host : Host) (s : Session) (ops : List (Operation × Nat)) :
    (∀ r ∈ s.readings host ops, r.part.ids.Nodup ∧ (∀ id ∈ r.part.ids, r.base ≤ id ∧ id < r.next) ∧
      ∀ id, r.base ≤ id → id < r.next → (s.after host ops).world.distances.get? id = r.distances.get? id) ∧
    (s.readings host ops).Pairwise fun r r' => r.part.ids.Disjoint r'.part.ids := by
  refine ⟨fun r hr => ?_, pairwise_readings host s ops⟩
  obtain ⟨-, readable, settled⟩ := readings_cases hr
  exact ⟨readable.fresh.nodup, fun id hid => ⟨readable.fresh.from_le id hid, readable.fresh.lt id hid⟩,
    settled.distances⟩

/-- A text that its analysis refuses once it has recorded a distance. -/
def refusedText : String := "\x7b var a = 'one'; print a; \x7d return;"

def refusedProgram : List Stmt :=
  [.block [.var ⟨"a", 1⟩ (some (.literal (.text "one"))), .print (.variable 0 ⟨"a", 1⟩)], .return 1 none]

/-- Whatever is done after that, its tree keeps the distance of its node to itself. -/
theorem node_numbers_never_collide_refusedText :
    ∃ r, (withConsole ⟨#[], [], true, .zero⟩).reading? (.submit .program refusedText) = some r ∧ r.part.ids = [0] ∧
      ∀ host ops, ((withConsole ⟨#[], [], true, .zero⟩).after host ((.submit .program refusedText, 0) :: ops)
        ).world.distances.get? 0 = some 0 := by
  have parsed : Parser.parse (tokensOf refusedText) 0 = ⟨.ok refusedProgram, 1⟩ := by cbv
  have distance : (Scope.resolve refusedProgram .empty).distances.get? 0 = some 0 := by cbv
  have reading : (withConsole ⟨#[], [], true, .zero⟩).reading? (.submit .program refusedText) =
      some ⟨.stmts refusedProgram, 0, 1, (Scope.resolve refusedProgram .empty).distances⟩ :=
    reading?_program rfl (by cbv) parsed
  refine ⟨_, reading, by simp [refusedProgram, Part.ids_stmt, Part.ids_expr], fun host ops => ?_⟩
  obtain ⟨each, -⟩ := node_numbers_never_collide host (withConsole ⟨#[], [], true, .zero⟩)
    ((.submit .program refusedText, 0) :: ops)
  obtain ⟨-, -, kept⟩ := each _ (List.mem_append_left _ (Option.mem_toList.2 reading))
  rw [kept 0 (by decide) (by decide), distance]

end Session

end Scriptlet
