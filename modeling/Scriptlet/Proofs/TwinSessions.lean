import Scriptlet.Proofs.AlignedLife
import Scriptlet.Proofs.AnalysisRenumber
import Scriptlet.Proofs.Operations
import Scriptlet.Proofs.TwinSteps

/-!
Sessions of which one has given out more numbers than the other. They hold the same code but for its numbers; so a host
that does the same to both gets the same answers, and sees the same lines printed and reported.
-/
namespace Scriptlet

open Machine

section Self

variable {R : Recasting} {t : Trace} {s : Store}

/-- No frame is marked. -/
def Marks.none : Marks := fun _ => false

theorem marked_of_fits {hidden : List String} {f : Ref .frame} {rs : List Scope.Region} {nss : List (List String)}
    (layout : Layout t s) (fits : Fits t s.frames hidden f rs nss) : Marked .none s.frames f (rs.map fun _ => false) := by
  induction rs generalizing hidden f nss with
  | nil =>
    cases nss with
    | nil =>
      obtain rfl : f = Store.globals := fits
      exact .outermost layout.room layout.outermost rfl
    | cons ns nss => cases fits
  | cons r rs ih =>
    cases nss with
    | nil => cases fits
    | cons ns nss =>
      obtain ⟨-, -, -, p, enclosing, outer⟩ := fits
      exact .inner enclosing (ih outer)

theorem recast_self {p : Part} {bs : List Bool} (unmarked : ∀ b ∈ bs, b = false)
    (numbers : ∀ id ∈ p.ids, R.number id = id) : Recast R bs p p := by
  have recast := recast_renumber (f := id) (R := R) unmarked fun i hi => (numbers i hi).symm
  rwa [Relabeling.part_renumber_id] at recast

/-- What a session has read before keeps its numbers, so it corresponds to itself. -/
theorem Store.Twin.self (layout : Layout t s) {d : Distances} {next : NodeId} (recorded : Recorded t d next)
    (numbers : ∀ id, id < next → R.number id = id) : s.Twin R .none s := by
  have unmarked (rs : List Scope.Region) : ∀ b ∈ rs.map fun _ => false, b = false := by simp
  have known {site : Scope.Site} (visited : Visited t site) : ∀ id ∈ site.part.ids, R.number id = id := by
    intro id hid
    obtain ⟨root, accepted, visits⟩ := visited
    exact numbers id (recorded.below root accepted id (visits.ids_subset hid))
  refine ⟨⟨rfl, fun _ => rfl, fun _ _ => rfl⟩, .outermost layout.room layout.outermost rfl, .refl s,
    fun r c c' hc hc' => ?_, fun r c c' hc hc' => ?_⟩
  · obtain rfl : c = c' := by simpa using hc.symm.trans hc'
    obtain ⟨kind, site, visited, part, fits⟩ := layout.closed r c hc
    have ids := known visited
    rw [part] at ids
    exact ⟨rfl, rfl, _, marked_of_fits layout fits, (recast_self (unmarked _) ids).routine_kind⟩
  · obtain rfl : c = c' := by simpa using hc.symm.trans hc'
    refine ⟨rfl, fun name m m' hm hm' => ?_⟩
    obtain rfl : m = m' := by simpa using hm.symm.trans hm'
    obtain ⟨site, kind, rs, nss, visited, part, -, -, fits⟩ := layout.unbound r c name m hc hm
    have ids := known visited
    rw [part] at ids
    have recast := recast_self (List.forall_mem_cons.2 ⟨rfl, unmarked rs⟩) ids
    exact ⟨rfl, rfl, _, marked_of_fits layout fits, recast.routine_kind⟩

end Self

section Addresses

variable {R : Recasting} {χ : Marks} {s s' : Store}

/-- The same end of the same way through two stores. -/
inductive Address.Twin {α : Type} (R : Recasting) : Except Fault (α × Store) → Except Fault (α × Store) → Prop
  | found {χ : Marks} {s s' : Store} (a : α) : s.Twin R χ s' → Twin R (.ok (a, s)) (.ok (a, s'))
  | lost (fault : Fault) : Twin R (.error fault) (.error fault)

namespace Address

variable (h : s.Twin R χ s')
include h

theorem member?_twin (container : Option Value) (name : String) :
    member? s container name = none ∧ member? s' container name = none ∨
      ∃ v t t' χ', member? s container name = some (v, t) ∧ member? s' container name = some (v, t') ∧ t.Twin R χ' t' := by
  cases container with
  | none =>
    have globals := h.looks.globals name
    cases hv : s.frames.fetch Store.globals name with
    | none =>
      rw [hv] at globals
      exact .inl ⟨by simp [member?, hv], by simp [member?, globals]⟩
    | some v =>
      rw [hv] at globals
      exact .inr ⟨v, s, s', χ, by simp [member?, hv], by simp [member?, globals], h⟩
  | some c =>
    obtain ⟨hp, hp'⟩ | ⟨p, p', hp, hp', twin⟩ := rel_cases (h.member? c name)
    · exact .inl ⟨by simp [member?, hp], by simp [member?, hp']⟩
    · obtain ⟨value, χ', -, stores⟩ := h.realize twin
      refine .inr ⟨(s.realize p).1, (s.realize p).2, (s'.realize p').2, χ', by simp [member?, hp], ?_, stores⟩
      rw [← value]
      simp [member?, hp']

theorem follow_twin (container : Option Value) (seen names : List String) :
    Twin R (follow s container seen names) (follow s' container seen names) := by
  induction names generalizing s s' χ container seen with
  | nil => exact .found container h
  | cons name names ih =>
    obtain ⟨hm, hm'⟩ | ⟨v, t, t', χ', hm, hm', twin⟩ := member?_twin h container name
    · simp only [follow, hm, hm']
      exact .lost _
    · simp only [follow, hm, hm']
      exact ih twin (some v) _

theorem walk_twin (address : String) :
    (∃ fault, walk s address = .error fault ∧ walk s' address = .error fault) ∨
      ∃ container last t t' χ', walk s address = .ok (container, last, t) ∧ walk s' address = .ok (container, last, t') ∧
        t.Twin R χ' t' := by
  unfold walk
  cases split address with
  | error fault => exact .inl ⟨fault, rfl, rfl⟩
  | ok path =>
    obtain ⟨names, last⟩ := path
    have followed := follow_twin h none [] names
    simp only [bind, Except.bind]
    generalize follow s none [] names = r, follow s' none [] names = r' at followed ⊢
    cases followed with
    | lost fault => exact .inl ⟨fault, rfl, rfl⟩
    | found container twin => exact .inr ⟨container, last, _, _, _, rfl, rfl, twin⟩

theorem read_twin (address : String) : Twin R (read s address) (read s' address) := by
  obtain ⟨fault, hw, hw'⟩ | ⟨container, last, t, t', χ', hw, hw', twin⟩ := walk_twin h address
  · simp only [read, hw, hw']
    exact .lost fault
  · simp only [read, hw, hw', bind, Except.bind]
    obtain ⟨hm, hm'⟩ | ⟨v, t, t', χ', hm, hm', twin⟩ := member?_twin twin container last
    · simp only [hm, hm']
      exact .lost _
    · simp only [hm, hm']
      exact .found v twin

theorem write_twin (address : String) (value : Value) :
    (∃ fault, write s address value = .error fault ∧ write s' address value = .error fault) ∨
      ∃ t t' χ', write s address value = .ok t ∧ write s' address value = .ok t' ∧ t.Twin R χ' t' := by
  obtain ⟨fault, hw, hw'⟩ | ⟨container, last, t, t', χ', hw, hw', twin⟩ := walk_twin h address
  · simp only [write, hw, hw']
    exact .inl ⟨fault, rfl, rfl⟩
  · simp only [write, hw, hw', bind, Except.bind]
    cases container with
    | none =>
      have globals := twin.looks.globals last
      simp only [pure, Except.pure, Frames.assign, Frames.owner?_globals_eq, globals]
      cases t.frames.fetch Store.globals last with
      | none => exact .inl ⟨_, rfl, rfl⟩
      | some v =>
        have defined := twin.define Store.globals last value
        rw [twin.unmarked] at defined
        exact .inr ⟨_, _, χ', rfl, rfl, defined⟩
    | some v =>
      cases v with
      | «instance» r =>
        have looks := twin.looks.setField r last value
        obtain ⟨twin, -⟩ := twin.kept (.setField t r last value) (.setField t' r last value) looks
        exact .inr ⟨_, _, χ', rfl, rfl, twin⟩
      | _ => exact .inl ⟨_, rfl, rfl⟩

end Address

end Addresses

/-- Two reporters that had reported `ls` and `ls'` when they began to report the same. -/
structure Reporter.Twin (ls ls' : List String) (r r' : Reporter) : Prop where
  lines : ∃ new, r.lines.toList = ls ++ new ∧ r'.lines.toList = ls' ++ new
  hadError : r'.hadError = r.hadError
  hadRuntimeError : r'.hadRuntimeError = r.hadRuntimeError

namespace Reporter.Twin

variable {ls ls' : List String} {r r' : Reporter} (h : r.Twin ls ls' r')
include h

theorem push (line : String) :
    ∃ new, (r.lines.push line).toList = ls ++ new ∧ (r'.lines.push line).toList = ls' ++ new := by
  obtain ⟨new, first, second⟩ := h.lines
  exact ⟨new ++ [line], by simp [first], by simp [second]⟩

theorem errors (es : List Error) : (r.errors es).Twin ls ls' (r'.errors es) := by
  induction es generalizing r r' with
  | nil => exact h
  | cons e es ih =>
    have one : (r.error e).Twin ls ls' (r'.error e) :=
      ⟨h.push e.display, by simp only [error, h.hadError], by simp only [error, h.hadRuntimeError]⟩
    exact ih one

theorem warnings (ws : List Warning) : (r.warnings ws).Twin ls ls' (r'.warnings ws) := by
  induction ws generalizing r r' with
  | nil => exact h
  | cons w ws ih =>
    have one : (r.warning w).Twin ls ls' (r'.warning w) := ⟨h.push w.display, h.hadError, h.hadRuntimeError⟩
    exact ih one

theorem reset : r.reset.Twin ls ls' r'.reset := ⟨h.lines, rfl, rfl⟩

/-- What has been reported since is the same. -/
theorem reported {q q' : Reporter} (h' : q.Twin ls ls' q') :
    q'.lines.toList.drop r'.lines.size = q.lines.toList.drop r.lines.size := by
  obtain ⟨before, hr, hr'⟩ := h.lines
  obtain ⟨after, hq, hq'⟩ := h'.lines
  simp only [← Array.length_toList, hr, hr', hq, hq', List.length_append, List.drop_length_add_append]

theorem blocked : r'.blocked = r.blocked := by
  simp only [Reporter.blocked, h.hadError, h.hadRuntimeError]

end Reporter.Twin

/-- From `base` on numbers are higher by `k`; names are as they were. -/
def Recasting.skip (base : NodeId) (k : Nat) : Recasting where
  number id := if id < base then id else id + k
  distance? _ := none
  old := ""
  new := ""
  old_ne := by decide
  new_ne := by decide

/-- The second session has given out `k` more numbers when the first one was at `base`. -/
structure Session.Twin (base : NodeId) (k : Nat) (ls ls' : List String) (s s' : Session) : Prop where
  world : ∃ χ, WorldTwin (.skip base k) χ s.world s'.world
  next : s'.nextId = s.nextId + k
  above : base ≤ s.nextId
  reporter : s.reporter.Twin ls ls' s'.reporter

namespace Session

variable {host : Host} {base : NodeId} {k : Nat} {ls ls' : List String} {s s' : Session}

theorem number_injective (base k : Nat) : Function.Injective (Recasting.skip base k).number := by
  intro (i : Nat) (j : Nat) (h : (if i < base then i else i + k) = if j < base then j else j + k)
  change (i : Nat) = j
  split at h <;> split at h <;> omega

/-- Distances that are the same at the new numbers. -/
def Moved (base : NodeId) (k : Nat) (d d' : Distances) : Prop :=
  ∀ id, d'.get? ((Recasting.skip base k).number id) = d.get? id

theorem Moved.insert {d d' : Distances} (h : Moved base k d d') {i : NodeId} (hi : base ≤ i) (n : Nat) :
    Moved base k (d.insert i n) (d'.insert (i + k) n) := by
  intro id
  have number : (Recasting.skip base k).number i = i + k := if_neg (Nat.not_lt.2 hi)
  simp only [← number, Distances.get?_insert, h id, (number_injective base k).eq_iff]

/-- Nothing is recorded for numbers that have not been given out. -/
theorem Moved.of_unset {d d' : Distances} (kept : ∀ id, id < base → d'.get? id = d.get? id)
    (unset : ∀ id, base ≤ id → d.get? id = none) (unset' : ∀ id, base + k ≤ id → d'.get? id = none) : Moved base k d d' := by
  intro id
  simp only [Recasting.skip]
  split
  · next lt => exact kept id lt
  · next ge =>
    have ge : base ≤ id := Nat.not_lt.1 ge
    rw [unset id ge, unset' _ (Nat.add_le_add_right ge k)]

theorem Moved.fits {d d' : Distances} (h : Moved base k d d') : (Recasting.skip base k).Fits d d' := ⟨h, .inl rfl⟩

/-- A new part, with numbers higher by `k`. -/
theorem recast_higher {p : Part} (above : ∀ id ∈ p.ids, base ≤ id) :
    Recast (.skip base k) [] p ((Parser.higher k).part p) := by
  refine recast_renumber (fun b hb => by cases hb) fun id hid => ?_
  exact (if_neg (Nat.not_lt.2 (above id hid))).symm

section Reports

variable (h : Twin base k ls ls' s s')
include h

theorem Twin.fail {α : Type} (e : Error) (es : List Error) :
    Twin base k ls ls' (s.fail (α := α) e es).1 (s'.fail (α := α) e es).1 :=
  ⟨h.world, h.next, h.above, h.reporter.errors (e :: es)⟩

/-- The same is reported of both, and code that has passed corresponds. -/
inductive Checked (base : NodeId) (k : Nat) (ls ls' : List String) :
    Session × Except Error Control → Session × Except Error Control → Prop
  | refused {s s' : Session} (e : Error) : Twin base k ls ls' s s' → Checked base k ls ls' (s, .error e) (s', .error e)
  | passed {s s' : Session} {c c' : Control} : Twin base k ls ls' s s' →
      State.Twin (.skip base k) (s.start c) (s'.start c') → Checked base k ls ls' (s, .ok c) (s', .ok c')

/-- Work that corresponds, at its start. -/
theorem Twin.start {c c' : Control}
    (control : ∀ χ fs, Marked χ fs Store.globals [] → c.Twin (.skip base k) χ fs Store.globals c') :
    State.Twin (.skip base k) (s.start c) (s'.start c') := by
  obtain ⟨χ, world⟩ := h.world
  exact ⟨χ, ⟨world, rfl, trivial⟩, control χ s.store.frames world.store.outermost⟩

/-- After the text has been parsed, from numbers that are higher by `k` in the second session. -/
theorem Twin.process {α : Type} (part : α → Part) {outcome : Parser.Outcome α} {g : α → α}
    {analyse : α → Distances → Scope.Report} {control : α → Control} (above : base ≤ outcome.nextId)
    (parts : ∀ tree, part (g tree) = (Parser.higher k).part (part tree))
    (report : ∀ tree d, analyse tree d = .of (Scope.analysis (part tree)) d)
    (ids : ∀ tree, outcome.result = .ok tree → ∀ id ∈ (part tree).ids, base ≤ id)
    (code : ∀ tree χ fs, outcome.result = .ok tree → Marked χ fs Store.globals [] →
      (control tree).Twin (.skip base k) χ fs Store.globals (control (g tree))) :
    Checked base k ls ls' (s.process outcome analyse control) (s'.process (outcome.raise k g) analyse control) := by
  obtain ⟨result, next⟩ := outcome
  have advanced : Twin base k ls ls' { s with nextId := next } { s' with nextId := next + k } :=
    ⟨h.world, rfl, above, h.reporter⟩
  rcases result with (_ | ⟨e, es⟩) | tree
  · exact .refused .pending advanced
  · exact .refused (.ofParse e) (advanced.fail (α := Unit) (.ofParse e) (es.map .ofParse))
  · obtain ⟨χ, world⟩ := h.world
    have moved : Moved base k s.world.distances s'.world.distances := world.fits.number
    obtain ⟨result, warnings, distances⟩ := Scope.report_renumber (D := Moved base k) (part tree)
      (fun i hi d d' n hd => hd.insert (ids tree rfl i hi) n) moved
    rw [← parts, ← report, ← report] at result warnings distances
    have resolved : Twin base k ls ls'
        { s with
          nextId := next
          world := { s.world with distances := (analyse tree s.world.distances).distances }
          reporter := s.reporter.warnings ((analyse tree s.world.distances).warnings.map .ofScope) }
        { s' with
          nextId := next + k
          world := { s'.world with distances := (analyse (g tree) s'.world.distances).distances }
          reporter := s'.reporter.warnings ((analyse (g tree) s'.world.distances).warnings.map .ofScope) } := by
      refine ⟨⟨χ, world.store, world.console, distances.fits⟩, rfl, above, ?_⟩
      rw [warnings]
      exact h.reporter.warnings _
    simp only [Session.process, Session.parsed, Parser.Outcome.raise, Except.map, Session.resolved, result]
    cases (analyse tree s.world.distances).result with
    | error e => exact .refused _ (resolved.fail (α := Unit) (.ofResolve e) [])
    | ok u => exact .passed resolved (resolved.start fun χ fs marked => code tree χ fs rfl marked)

theorem Twin.load (form : Form) (source : String) :
    Checked base k ls ls' (s.load form (tokensOf source)) (s'.load form (tokensOf source)) := by
  cases form with
  | program =>
    rw [load_program, load_program, h.next, Parser.parse_raise]
    have ids (tree : List Stmt) (parsed : (Parser.parse (tokensOf source) s.nextId).result = .ok tree) :
        ∀ id ∈ (Part.stmts tree).ids, base ≤ id :=
      fun id hid => Nat.le_trans h.above ((readable_program parsed).fresh.from_le id hid)
    have parts (tree : List Stmt) : Part.stmts ((Parser.higher k).stmts tree) = (Parser.higher k).part (.stmts tree) := by
      rw [Relabeling.stmts_eq_map]
      rfl
    refine h.process .stmts (Nat.le_trans h.above (Parser.le_nextId_parse _ _)) parts (fun _ _ => rfl) ids ?_
    intro tree χ fs parsed marked
    refine .program ⟨[], marked, ?_⟩
    rw [parts]
    exact recast_higher (ids tree parsed)
  | expression =>
    rw [load_expression, load_expression, h.next, Parser.parseExpression_raise]
    have ids (tree : Expr) (parsed : (Parser.parseExpression (tokensOf source) s.nextId).result = .ok tree) :
        ∀ id ∈ (Part.expr tree).ids, base ≤ id :=
      fun id hid => Nat.le_trans h.above ((readable_expression parsed).fresh.from_le id hid)
    have above := Nat.le_trans h.above (Parser.le_nextId_parseExpression (tokensOf source) s.nextId)
    refine h.process .expr above (fun _ => rfl) (fun _ _ => rfl) ids ?_
    intro tree χ fs parsed marked
    exact .evaluate ⟨[], marked, recast_higher (ids tree parsed)⟩

theorem Twin.check (form : Form) (source : String) :
    Checked base k ls ls' (s.check form source) (s'.check form source) := by
  unfold Session.check
  rw [h.reporter.blocked]
  cases s.reporter.blocked with
  | true => exact .refused .pending h
  | false =>
    simp only [Bool.false_eq_true, if_false, Session.scan]
    cases (Item.faults (Token.scan source)).map fun item => Error.ofLex item.1 item.2 with
    | nil => exact h.load form source
    | cons e es => exact .refused e (h.fail (α := Unit) e es)

end Reports

section Operations

variable (lawful : host.Lawful) (oblivious : host.Oblivious) (h : Twin base k ls ls' s s')
include h

theorem Twin.withWorld {χ : Marks} {world world' : World}
    (twin : WorldTwin (.skip base k) χ world world') : Twin base k ls ls' { s with world } { s' with world := world' } :=
  ⟨⟨χ, twin⟩, h.next, h.above, h.reporter⟩

theorem Twin.withStore {χ : Marks} {store store' : Store}
    (twin : store.Twin (.skip base k) χ store') : Twin base k ls ls' (s.withStore store) (s'.withStore store') := by
  obtain ⟨_, world⟩ := h.world
  exact h.withWorld ⟨twin, world.console, world.fits⟩

/-- Code outside of the session does the same to both stores. -/
theorem Twin.alter {store store' : Store} (kept : s.store.Kept store)
    (kept' : s'.store.Kept store') (looks : s.store.LooksLike s'.store → store.LooksLike store') :
    Twin base k ls ls' (s.withStore store) (s'.withStore store') := by
  obtain ⟨χ, world⟩ := h.world
  obtain ⟨twin, -⟩ := world.store.kept kept kept' (looks world.store.looks)
  exact h.withStore twin

/-- The same answers, and sessions that correspond. -/
structure Answers {α : Type} (base : NodeId) (k : Nat) (ls ls' : List String) (a a' : Session × α) : Prop where
  result : a'.2 = a.2
  session : Twin base k ls ls' a.1 a'.1

theorem Twin.get (address : String) : Answers base k ls ls' (s.get address) (s'.get address) := by
  obtain ⟨χ, world⟩ := h.world
  have read := Address.read_twin world.store address
  unfold Session.get
  change Address.Twin _ (Address.read s.store address) (Address.read s'.store address) at read
  revert read
  generalize Address.read s.store address = r
  generalize Address.read s'.store address = r'
  intro read
  cases read with
  | found v twin => exact ⟨rfl, h.withStore twin⟩
  | lost fault => exact ⟨rfl, h⟩

theorem Twin.set (address : String) (value : Value) :
    Answers base k ls ls' (s.set address value) (s'.set address value) := by
  obtain ⟨χ, world⟩ := h.world
  unfold Session.set
  obtain ⟨fault, hw, hw'⟩ | ⟨t, t', χ', hw, hw', twin⟩ := Address.write_twin world.store address value
  · change Address.write s.store address value = _ at hw
    change Address.write s'.store address value = _ at hw'
    rw [hw, hw']
    exact ⟨rfl, h⟩
  · change Address.write s.store address value = _ at hw
    change Address.write s'.store address value = _ at hw'
    rw [hw, hw']
    exact ⟨rfl, h.withStore twin⟩

theorem Twin.aim (target : Target) : Answers base k ls ls' (s.aim target) (s'.aim target) := by
  cases target with
  | address address => exact h.get address
  | value v => exact ⟨rfl, h⟩

include lawful oblivious

/-- Work that corresponds ends in the same way, or in neither session. -/
theorem Twin.settle {c c' : Control} (start : State.Twin (.skip base k) (s.start c) (s'.start c')) (n : Nat) :
    Answers base k ls ls' (settle (s.perform host n c) (s.underway host n c))
      (settle (s'.perform host n c') (s'.underway host n c')) := by
  have ran := run_twin lawful oblivious start n
  unfold Session.perform Session.underway
  generalize run host n (s.start c) = m at ran ⊢
  generalize run host n (s'.start c') = m' at ran ⊢
  have ends := outcome?_twin ran
  obtain ⟨χ, base, -⟩ := ran
  have after := h.withWorld base.world
  unfold Session.finish
  obtain ⟨ho, ho'⟩ | ⟨o, o', ho, ho', twin⟩ := rel_cases ends
  · rw [ho, ho']
    exact ⟨rfl, after⟩
  · rw [ho, ho']
    cases twin with
    | value v => exact ⟨rfl, after⟩
    | flow flow => exact ⟨rfl, after⟩
    | failure failure =>
      obtain rfl := Failure.Twin.eq failure
      exact ⟨rfl, after.fail (α := Value) _ []⟩

/-- A value is called, from the outside. -/
theorem Twin.invoke (callee : Value) (arguments : List Value) (n : Nat) :
    Answers base k ls ls'
      (Session.settle (s.call host n callee arguments) (s.underway host n (.invoke callee arguments .host)))
      (Session.settle (s'.call host n callee arguments) (s'.underway host n (.invoke callee arguments .host))) :=
  h.settle lawful oblivious (h.start fun _ _ _ => .invoke callee arguments .host) n

theorem Twin.create (value : Value) (arguments : List Value) (n : Nat) :
    Answers base k ls ls'
      (Session.settle (s.create host n value arguments) (s.underway host n (.invoke value arguments .host)))
      (Session.settle (s'.create host n value arguments) (s'.underway host n (.invoke value arguments .host))) := by
  have display : s'.store.display = s.store.display := by
    obtain ⟨χ, world⟩ := h.world
    exact world.store.looks.display
  cases value with
  | «class» r => exact h.invoke lawful oblivious (.class r) arguments n
  | _ =>
    simp only [Session.create, Session.settle, display]
    exact ⟨rfl, h⟩

/-- Whatever the host asks for, it gets the same from both sessions. -/
theorem Twin.operate (n : Nat) (op : Operation) :
    Answers base k ls ls' (s.operate host n op) (s'.operate host n op) := by
  cases op with
  | submit form source =>
    have checked := h.check form source
    unfold Session.operate Session.submit
    dsimp only
    revert checked
    generalize s.check form source = r
    generalize s'.check form source = r'
    intro checked
    cases checked with
    | refused e twin => exact ⟨rfl, twin⟩
    | passed twin start => exact twin.settle lawful oblivious start n
  | call target arguments =>
    have aimed := h.aim target
    unfold Session.operate
    dsimp only
    revert aimed
    rcases s.aim target with ⟨t, r⟩
    rcases s'.aim target with ⟨t', r'⟩
    rintro ⟨result, twin⟩
    obtain rfl : r' = r := result
    cases r' with
    | error e => exact ⟨rfl, twin⟩
    | ok callee => exact twin.invoke lawful oblivious callee arguments n
  | create target arguments =>
    have aimed := h.aim target
    unfold Session.operate
    dsimp only
    revert aimed
    rcases s.aim target with ⟨t, r⟩
    rcases s'.aim target with ⟨t', r'⟩
    rintro ⟨result, twin⟩
    obtain rfl : r' = r := result
    cases r' with
    | error e => exact ⟨rfl, twin⟩
    | ok v => exact twin.create lawful oblivious v arguments n
  | get address =>
    obtain ⟨result, twin⟩ := h.get address
    exact ⟨congrArg some result, twin⟩
  | set address value =>
    obtain ⟨result, twin⟩ := h.set address value
    exact ⟨congrArg (fun r : Except Error Unit => some (r.map fun _ => Value.null)) result, twin⟩
  | define name value =>
    exact ⟨rfl, h.alter (.defineGlobal _ name value) (.defineGlobal _ name value) fun looks => looks.defineGlobal name value⟩
  | native name arity behaviour =>
    exact ⟨rfl, h.alter (.defineNative _ name arity behaviour) (.defineNative _ name arity behaviour) fun looks =>
      looks.defineNative name arity behaviour⟩
  | nativeClass name arity statics initializer =>
    exact ⟨rfl, h.alter (.defineNativeClass _ name arity statics initializer)
      (.defineNativeClass _ name arity statics initializer) fun looks =>
        looks.defineNativeClass name arity statics initializer⟩
  | reset => exact ⟨rfl, h.world, h.next, h.above, h.reporter.reset⟩

end Operations

end Session

end Scriptlet
