import Scriptlet.Proofs.AnalysisAccord
import Scriptlet.Proofs.Followed
import Scriptlet.Proofs.GrammarShift
import Scriptlet.Proofs.ResolvedNames
import Scriptlet.Proofs.UnlinedSteps

/-!
Texts that are run one after the other. If each of two texts passes all checks by itself, it makes no difference whether
they are run as one text or as two: the console shows the same lines, and the same globals are left behind, also if one
of them fails; for then the second text is refused, as the rest of the longer text is not run.
-/
namespace Scriptlet.Session

open Machine

variable {host : Host} {s : Session} {source : String}

/-- A text that passes every check by itself. -/
def Acceptable (source : String) : Prop :=
  Item.faults (Token.scan source) = [] ∧ ∃ program next, Parser.parse (tokensOf source) 0 = ⟨.ok program, next⟩ ∧
    (Scope.resolve program .empty).result = .ok ()

/-- The session after texts have been run one after the other, each to its end. -/
def Ends (host : Host) : Session → List String → Session → Prop
  | s, [], s' => s' = s
  | s, source :: sources, s' =>
    ∃ limit between result, s.submit host limit .program source = some (between, result) ∧ Ends host between sources s'

/-- What the console shows at some moment while texts are run one after the other. -/
def Shows (host : Host) : Session → List String → Console → Prop
  | s, [], console => console = s.world.console
  | s, source :: sources, console =>
    (∃ s' control n, s.check .program source = (s', .ok control) ∧ console = (run host n (s'.start control)).console) ∨
      ∃ limit between result, s.submit host limit .program source = some (between, result) ∧
        Shows host between sources console

/-- Sessions that one who looks at the console, the globals and what they refer to cannot tell apart, but for lines. -/
structure SameUpToLines (s s' : Session) : Prop where
  console : s.world.console = s'.world.console
  globals : ∀ name, s.store.frames.fetch Store.globals name = s'.store.frames.fetch Store.globals name
  store : s.store.unlined = s'.store.unlined
  blocked : s.reporter.blocked = s'.reporter.blocked

theorem SameUpToLines.symm {s s' : Session} (h : SameUpToLines s s') : SameUpToLines s' s :=
  ⟨h.console.symm, fun name => (h.globals name).symm, h.store.symm, h.blocked.symm⟩

/-- Two ways to hand over texts that make no difference: where one comes to an end the other does, with sessions that
are the same up to lines, and all along the console shows the same. -/
structure SameCourse (host : Host) (s : Session) (sources sources' : List String) : Prop where
  ends : ∀ u, Ends host s sources u → ∃ u', Ends host s sources' u' ∧ SameUpToLines u u'
  ended : ∀ u', Ends host s sources' u' → ∃ u, Ends host s sources u ∧ SameUpToLines u u'
  shows : ∀ console, Shows host s sources console ↔ Shows host s sources' console

theorem blocked_warnings (r : Reporter) (ws : List Warning) : (r.warnings ws).blocked = r.blocked := by
  induction ws generalizing r with
  | nil => rfl
  | cons w ws ih => exact ih (r.warning w)

/-- The session takes the text, whose program is then run in the second session. -/
structure Takes (s : Session) (source : String) (program : List Stmt) (s' : Session) : Prop where
  scanned : Item.faults (Token.scan source) = []
  parsed : Parser.parse (tokensOf source) s.nextId = ⟨.ok program, s'.nextId⟩
  resolved : (Scope.resolve program s.world.distances).result = .ok ()
  check : s.check .program source = (s', .ok (.program program))
  world : s'.world = { s.world with distances := (Scope.resolve program s.world.distances).distances }
  clear : s'.reporter.blocked = false

/-- The machine after `n` steps of the program that has been taken. -/
abbrev Takes.state {program : List Stmt} {s' : Session} (_ : Takes s source program s') (host : Host) (n : Nat) : State :=
  run host n (s'.start (.program program))

theorem exists_takes (clear : s.reporter.blocked = false) (scanned : Item.faults (Token.scan source) = [])
    {program : List Stmt} {next : NodeId} (parsed : Parser.parse (tokensOf source) s.nextId = ⟨.ok program, next⟩)
    (resolved : (Scope.resolve program s.world.distances).result = .ok ()) :
    ∃ s', Takes s source program s' ∧ s'.nextId = next := by
  obtain ⟨s', check, world, rfl, reporter⟩ := check_program_ok clear scanned parsed resolved
  refine ⟨s', ⟨scanned, parsed, resolved, check, world, ?_⟩, rfl⟩
  rw [reporter, blocked_warnings, clear]

/-- A text that passes by itself passes in every session that takes texts. -/
theorem Acceptable.takes (h : Acceptable source) (clear : s.reporter.blocked = false) :
    ∃ program s', Takes s source program s' := by
  obtain ⟨scanned, program, next, parsed, resolved⟩ := h
  obtain ⟨s', takes, -⟩ := exists_takes clear scanned (Grammar.parse_move parsed s.nextId)
    (Scope.resolve_relabel (.shift s.nextId 0) resolved s.world.distances)
  exact ⟨_, s', takes⟩

theorem distances_run (n : Nat) (m : State) : (run host n m).distances = m.distances := by
  induction n with
  | zero => rfl
  | succ n ih => rw [run_step, distances_step, ih]

section Takes

variable {first second : String} {program program' : List Stmt} {s1 s2 u : Session}

/-- Whether a text is taken, and what becomes of its names, depends on the session only in part. -/
theorem Takes.again (h : Takes s1 second program s2) (next : u.nextId = s1.nextId)
    (distances : u.world.distances = s1.world.distances) (clear : u.reporter.blocked = false) :
    ∃ u', Takes u second program u' ∧ u'.world = { u.world with distances := s2.world.distances } := by
  have parsed := h.parsed
  have resolved := h.resolved
  rw [← next] at parsed
  rw [← distances] at resolved
  obtain ⟨u', takes, -⟩ := exists_takes clear h.scanned parsed resolved
  refine ⟨u', takes, ?_⟩
  rw [takes.world, h.world, distances]

/-- The text of both, when the second is taken right after the first. -/
theorem Takes.seam (h : Takes s first program s1) (h' : Takes s1 second program' s2)
    (clear : s.reporter.blocked = false) (comment : Token.endsInComment first = false) :
    ∃ s12, Takes s (first ++ "\n" ++ second)
        (program ++ program'.map (Relabeling.shift 0 (Token.newlines first.toList + 1)).stmt) s12 ∧
      s12.world = { s.world with distances := s2.world.distances } := by
  have scanned := (Token.scan_seam h.scanned h'.scanned comment 0).1
  have parsed := Grammar.parse_seam h.scanned h'.scanned comment h.parsed h'.parsed
  have middle : (Scope.resolve program s.world.distances).distances = s1.world.distances := by rw [h.world]
  obtain ⟨result, distances⟩ := Scope.resolve_append h.resolved
    (program'.map (Relabeling.shift 0 (Token.newlines first.toList + 1)).stmt)
  rw [middle] at result distances
  have resolved := result.2 (Scope.resolve_relabel _ h'.resolved _)
  obtain ⟨s12, takes, -⟩ := exists_takes clear scanned parsed resolved
  refine ⟨s12, takes, ?_⟩
  rw [takes.world, distances, Scope.distances_resolve_lines (fun _ => rfl), h'.world]

/-- While the first text runs, only nodes come up that have the same distance once the second is analysed. -/
theorem Takes.seen (lawful : host.Lawful) (reachable : s.Reachable host) (h : Takes s first program s1)
    (h' : Takes s1 second program' s2) (n : Nat) (id : NodeId) (x : String)
    (node : (run host n (s1.start (.program program))).node? = some (id, x)) :
    (run host n (s1.start (.program program))).Agrees s2.world.distances id := by
  obtain ⟨t, life⟩ := reachable
  obtain ⟨t', running⟩ := (life.accept h.check).run n
  obtain ⟨aligned, recorded⟩ := running.aligned lawful
  obtain ⟨site, ⟨root, accepted, visits⟩, hn, -⟩ := aligned.site node
  have below := recorded.below root accepted id (visits.ids_subset (Part.mem_ids_of_node? hn))
  have readable : Readable s1.nextId (.stmts program') _ := readable_program (by rw [h'.parsed])
  have outside : id ∉ (Part.stmts program').ids := fun hid =>
    Nat.lt_irrefl id (Nat.lt_of_lt_of_le below (readable.fresh.from_le id hid))
  have kept := Scope.keeps_analysis (.stmts program') outside (Scope.outside s1.world.distances)
  rw [State.Agrees, distances_run, h'.world]
  exact kept

end Takes

/-- The machine has halted with a failure. -/
def failed (m : State) : Bool :=
  match m.outcome? with
  | some (.failure _) => true
  | _ => false

theorem failed_unlined (m : State) : failed m.unlined = failed m := by
  unfold failed
  rw [outcome?_unlined]
  rcases m.outcome? with _ | o
  · rfl
  · cases o <;> rfl

theorem finish_facts {m : State} {s' : Session} {result : Except Error Value} (h : s.finish m = some (s', result)) :
    m.outcome?.isSome = true ∧ s'.world = m.toWorld ∧ s'.nextId = s.nextId ∧
      s'.reporter.blocked = (s.reporter.blocked || failed m) := by
  unfold Session.finish at h
  unfold failed
  cases ho : m.outcome? with
  | none =>
    rw [ho] at h
    cases h
  | some o =>
    rw [ho] at h
    cases o with
    | value v | flow f =>
      cases h
      exact ⟨rfl, rfl, rfl, by simp⟩
    | failure e =>
      cases h
      refine ⟨rfl, rfl, rfl, ?_⟩
      cases e <;> simp [Reporter.errors, Reporter.error, Reporter.blocked, Error.ofFailure, Error.isRuntime]

theorem finish_of_halted {m : State} (s : Session) (h : m.outcome?.isSome = true) :
    ∃ s' result, s.finish m = some (s', result) := by
  unfold Session.finish
  obtain ⟨o, ho⟩ := Option.isSome_iff_exists.1 h
  rw [ho]
  cases o <;> exact ⟨_, _, rfl⟩

/-- Machines that look the same leave sessions that look the same. -/
theorem finish_alike {s s' : Session} {m m' : State} (console : m.console = m'.console)
    (store : m.store.unlined = m'.store.unlined) (outcome : m.unlined.outcome? = m'.unlined.outcome?)
    (blocked : s.reporter.blocked = s'.reporter.blocked) {u : Session} {result : Except Error Value}
    (h : s.finish m = some (u, result)) : ∃ u' result', s'.finish m' = some (u', result') ∧ SameUpToLines u u' := by
  obtain ⟨halted, world, -, reported⟩ := finish_facts h
  have alike : failed m = failed m' := by
    rw [← failed_unlined m, ← failed_unlined m', failed, outcome]
    rfl
  have halted' : m'.outcome?.isSome = true := by
    have same := congrArg Option.isSome outcome
    rw [outcome?_unlined, outcome?_unlined, Option.isSome_map, Option.isSome_map] at same
    rw [← same, halted]
  obtain ⟨u', result', finished⟩ := finish_of_halted s' halted'
  obtain ⟨-, world', -, reported'⟩ := finish_facts finished
  have frames := congrArg Store.frames store
  refine ⟨u', result', finished, ⟨?_, fun name => ?_, ?_, ?_⟩⟩
  · rw [world, world']
    exact console
  · have same : u.store.frames = u'.store.frames := by
      rw [Session.store, Session.store, world, world']
      exact frames
    rw [same]
  · rw [Session.store, Session.store, world, world']
    exact store
  · rw [reported, reported', blocked, alike]

section Texts

variable {sources : List String} {program : List Stmt} {s1 u : Session} {console : Console}

theorem ends_cons (h : Takes s source program s1) :
    Ends host s (source :: sources) u ↔ ∃ n between result,
      s1.finish (h.state host n) = some (between, result) ∧ Ends host between sources u := by
  simp only [Ends, submit, h.check, perform]

theorem shows_cons (h : Takes s source program s1) :
    Shows host s (source :: sources) console ↔ (∃ n, console = (h.state host n).console) ∨
      ∃ n between result, s1.finish (h.state host n) = some (between, result) ∧ Shows host between sources console := by
  simp only [Shows, submit, h.check, perform]
  constructor
  · rintro (⟨_, _, n, he, shown⟩ | later)
    · cases he
      exact .inl ⟨n, shown⟩
    · exact .inr later
  · rintro (⟨n, shown⟩ | later)
    · exact .inl ⟨s1, _, n, rfl, shown⟩
    · exact .inr later

/-- A session with open errors takes no text. -/
theorem check_blocked (h : s.reporter.blocked = true) (source : String) :
    s.check .program source = (s, .error .pending) := by
  rw [check, if_pos h]

theorem ends_blocked (h : s.reporter.blocked = true) : Ends host s [source] u ↔ u = s := by
  simp only [Ends, submit, check_blocked h]
  constructor
  · rintro ⟨_, _, _, he, ended⟩
    cases he
    exact ended
  · rintro rfl
    exact ⟨0, u, _, rfl, rfl⟩

theorem shows_blocked (h : s.reporter.blocked = true) : Shows host s [source] console ↔ console = s.world.console := by
  simp only [Shows, submit, check_blocked h]
  constructor
  · rintro (⟨_, _, _, he, -⟩ | ⟨_, _, _, he, shown⟩)
    · cases he
    · cases he
      exact shown
  · intro shown
    exact .inr ⟨0, s, _, rfl, shown⟩

end Texts

section Seam

variable {first second whole : String} {program program' q : List Stmt} {d : Distances} {s1 s2 s12 : Session}

/-- The first text does not come to its end: it fails, or goes on for ever. -/
theorem sameCourse_unfinished (h : Takes s first program s1) (h12 : Takes s whole (program ++ q) s12)
    (start : s12.start (.program (program ++ q)) = (s1.start (.program program)).followed q d)
    (never : ∀ n, run host n ((s1.start (.program program)).followed q d) = (h.state host n).followed q d ∧
      (Within (h.state host n) ∨ OnTop (h.state host n))) :
    SameCourse host s [first, second] [whole] := by
  have clear : s1.reporter.blocked = s12.reporter.blocked := by rw [h.clear, h12.clear]
  have longer (n : Nat) : h12.state host n = (h.state host n).followed q d :=
    (congrArg (run host n) start).trans (never n).1
  -- whoever of the two halts does so with a failure, and so does the other
  have stops {n : Nat} {u : Session} {result : Except Error Value} (hf : s1.finish (h.state host n) = some (u, result)) :
      u.reporter.blocked = true := by
    obtain ⟨halted, -, -, blocked⟩ := finish_facts hf
    obtain ⟨o, ho⟩ := Option.isSome_iff_exists.1 halted
    obtain ⟨e, rfl⟩ := outcome?_grounded (never n).2 ho
    rw [blocked, failed, ho]
    exact Bool.or_true _
  have outcome (n : Nat) : (h.state host n).unlined.outcome? = (h12.state host n).unlined.outcome? := by
    rw [longer n, outcome?_unlined, outcome?_unlined, outcome?_followed]
  have console (n : Nat) : (h.state host n).console = (h12.state host n).console := by
    rw [longer n]
    rfl
  have store (n : Nat) : (h.state host n).store = (h12.state host n).store := by
    rw [longer n]
    rfl
  refine ⟨fun u hu => ?_, fun u' hu' => ?_, fun c => ?_⟩
  · obtain ⟨n, between, result, finished, rest⟩ := (ends_cons h).1 hu
    obtain rfl := (ends_blocked (stops finished)).1 rest
    obtain ⟨u', result', finished', same⟩ := finish_alike (console n) (congrArg _ (store n)) (outcome n) clear finished
    exact ⟨u', (ends_cons h12).2 ⟨n, u', result', finished', rfl⟩, same⟩
  · obtain ⟨n, between, result, finished, rfl⟩ := (ends_cons h12).1 hu'
    obtain ⟨u, result', finished', same⟩ := finish_alike (console n).symm (congrArg _ (store n).symm) (outcome n).symm
      clear.symm finished
    refine ⟨u, (ends_cons h).2 ⟨n, u, result', finished', (ends_blocked (stops finished')).2 rfl⟩, same.symm⟩
  · rw [shows_cons h, shows_cons h12]
    constructor
    · rintro (⟨n, rfl⟩ | ⟨n, u, result, finished, shown⟩)
      · exact .inl ⟨n, console n⟩
      · rw [shows_blocked (stops finished), (finish_facts finished).2.1] at shown
        exact .inl ⟨n, shown.trans (console n)⟩
    · rintro (⟨n, rfl⟩ | ⟨n, u, result, finished, shown⟩)
      · exact .inl ⟨n, (console n).symm⟩
      · refine .inl ⟨n, ?_⟩
        rw [shown, (finish_facts finished).2.1]
        exact (console n).symm

/-- The first text comes to its end, and the second runs from there, whether as a text of its own or as the rest of the
longer text. -/
theorem sameCourse_finished (blind : host.Blind) (h : Takes s first program s1) (h' : Takes s1 second program' s2)
    (h12 : Takes s whole (program ++ q) s12)
    (start : s12.start (.program (program ++ q)) = (s1.start (.program program)).followed q s2.world.distances)
    (lines : Relabeling.unlined.stmts program' = Relabeling.unlined.stmts q) {m : Nat}
    (upTo : ∀ n ≤ m, run host n ((s1.start (.program program)).followed q s2.world.distances) =
      (h.state host n).followed q s2.world.distances)
    (done : h.state host (m + 1) = (h.state host m).go (.flow .normal)) (alone : (h.state host m).pending = [])
    (onward : ∀ n, run host (m + n) ((s1.start (.program program)).followed q s2.world.distances) =
      run host n (.start { (h.state host m).toWorld with distances := s2.world.distances } (.program q))) :
    SameCourse host s [first, second] [whole] := by
  have longer (n : Nat) : h12.state host n = run host n ((s1.start (.program program)).followed q s2.world.distances) :=
    congrArg (run host n) start
  -- what the first text leaves behind, and the session in which the second one runs
  let u : Session := { s1 with world := (h.state host m).toWorld }
  have last : (h.state host (m + 1)).outcome? = some (.flow .normal) := by
    rw [done, State.outcome?, State.go]
    dsimp only
    rw [alone]
  have finished : s1.finish (h.state host (m + 1)) = some (u, .ok .null) := by
    rw [Session.finish, last, done]
    rfl
  have unique {n : Nat} {between : Session} {result : Except Error Value}
      (hf : s1.finish (h.state host n) = some (between, result)) : between = u := by
    have same : h.state host n = h.state host (m + 1) := run_ends (finish_facts hf).1 (by rw [last]; rfl)
    rw [same, finished] at hf
    exact (Prod.mk.inj (Option.some.inj hf)).1.symm
  obtain ⟨u', takes, world⟩ := h'.again (u := u) rfl (distances_run m _) h.clear
  have clear : u'.reporter.blocked = s12.reporter.blocked := by rw [takes.clear, h12.clear]
  have alike (n : Nat) : (takes.state host n).unlined = (h12.state host (m + n)).unlined := by
    rw [longer, onward n]
    refine run_unlined blind ?_ n
    rw [Session.start, world]
    simp only [State.unlined, State.start, Control.unlined, lines]
    rfl
  have console (n : Nat) : (takes.state host n).console = (h12.state host (m + n)).console :=
    (congrArg (fun m : State => m.console) (alike n) :)
  have store (n : Nat) : (takes.state host n).store.unlined = (h12.state host (m + n)).store.unlined :=
    congrArg (fun m : State => m.store) (alike n)
  have outcome (n : Nat) := congrArg State.outcome? (alike n)
  have early {n : Nat} (hn : n ≤ m) : (h.state host n).console = (h12.state host n).console := by
    rw [longer, upTo n hn]
    rfl
  refine ⟨fun x hx => ?_, fun x' hx' => ?_, fun c => ?_⟩
  · obtain ⟨_, _, _, hf, rest⟩ := (ends_cons h).1 hx
    obtain rfl := unique hf
    obtain ⟨n, between, result, finished', rfl⟩ := (ends_cons takes).1 rest
    obtain ⟨x', result', finished'', same⟩ := finish_alike (console n) (store n) (outcome n) clear finished'
    exact ⟨x', (ends_cons h12).2 ⟨m + n, x', result', finished'', rfl⟩, same⟩
  · obtain ⟨n, between, result, hf, rfl⟩ := (ends_cons h12).1 hx'
    have later : h12.state host (m + n) = h12.state host n := by
      rw [Takes.state, Nat.add_comm, run_add, run_halted m (finish_facts hf).1]
    rw [← later] at hf
    obtain ⟨x, result', finished', same⟩ := finish_alike (console n).symm (store n).symm (outcome n).symm clear.symm hf
    exact ⟨x, (ends_cons h).2 ⟨m + 1, u, _, finished, (ends_cons takes).2 ⟨n, x, result', finished', rfl⟩⟩, same.symm⟩
  · have shown (n : Nat) : Shows host s [first, second] (h12.state host n).console := by
      rw [shows_cons h]
      rcases Nat.le_total n m with hn | hn
      · exact .inl ⟨n, (early hn).symm⟩
      · obtain ⟨k, rfl⟩ := Nat.exists_eq_add_of_le hn
        exact .inr ⟨m + 1, u, _, finished, (shows_cons takes).2 (.inl ⟨k, (console k).symm⟩)⟩
    constructor
    · intro hc
      rw [shows_cons h12]
      rcases (shows_cons h).1 hc with ⟨n, rfl⟩ | ⟨_, _, _, hf, hc⟩
      · rcases Nat.lt_or_ge m n with hn | hn
        · obtain ⟨k, rfl⟩ := Nat.exists_eq_add_of_le hn
          have halted : h.state host (m + 1 + k) = h.state host (m + 1) := by
            rw [Takes.state, run_add, run_halted k (by rw [last]; rfl)]
          rw [halted, done]
          exact .inl ⟨m, early (Nat.le_refl m)⟩
        · exact .inl ⟨n, early hn⟩
      · obtain rfl := unique hf
        rcases (shows_cons takes).1 hc with ⟨k, rfl⟩ | ⟨k, _, _, hf', hc⟩
        · exact .inl ⟨m + k, console k⟩
        · refine .inl ⟨m + k, ?_⟩
          rw [hc, (finish_facts hf').2.1]
          exact console k
    · intro hc
      rcases (shows_cons h12).1 hc with ⟨n, rfl⟩ | ⟨n, _, _, hf, hc⟩
      · exact shown n
      · rw [hc, (finish_facts hf).2.1]
        exact shown n

end Seam

section Example

/-- A text that ends in a remark. -/
def openingText : String := "var a = 'one'; print a; // once"

/-- A text that needs a name of the other one, and another that nothing declares. -/
def closingText : String := "print a + a; print b;"

def bothProgram : List Stmt :=
  [.var ⟨"a", 1⟩ (some (.literal (.text "one"))), .print (.variable 0 ⟨"a", 1⟩),
    .print (.binary (.variable 1 ⟨"a", 2⟩) (.ofPunct .plus 2) (.variable 2 ⟨"a", 2⟩)), .print (.variable 3 ⟨"b", 2⟩)]

theorem acceptable_openingText : Acceptable openingText :=
  ⟨by cbv, [.var ⟨"a", 1⟩ (some (.literal (.text "one"))), .print (.variable 0 ⟨"a", 1⟩)], 1, by cbv, by cbv⟩

theorem acceptable_closingText : Acceptable closingText :=
  ⟨by cbv, [.print (.binary (.variable 0 ⟨"a", 1⟩) (.ofPunct .plus 1) (.variable 1 ⟨"a", 1⟩)),
    .print (.variable 2 ⟨"b", 1⟩)], 3, by cbv, by cbv⟩

/-- As one text they print two lines and fail. -/
theorem ends_bothTexts (console : Console) :
    ∃ u, Ends Host.empty (.withConsole console) [openingText ++ "\n" ++ closingText] u ∧
      u.world.console = (console.print "one").print "oneone" ∧ u.reporter.blocked = true := by
  have parsed : Parser.parse (tokensOf (openingText ++ "\n" ++ closingText)) 0 = ⟨.ok bothProgram, 4⟩ := by cbv
  have resolved : (Scope.resolve bothProgram .empty).result = .ok () := by cbv
  have clear : (Session.withConsole console).reporter.blocked = false := rfl
  obtain ⟨s', takes, -⟩ := exists_takes clear (by cbv) parsed resolved
  have start : s'.start (.program bothProgram) =
      .start ⟨Store.bare.withLibrary, console, .empty⟩ (.program bothProgram) := by
    rw [Session.start, takes.world]
    rfl
  have outcome : (run Host.empty 40 (s'.start (.program bothProgram))).outcome? =
      some (.failure (.runtime 2 (.undefinedVariable "b"))) := by
    rw [start]
    cbv
  have shown : (run Host.empty 40 (s'.start (.program bothProgram))).console =
      (console.print "one").print "oneone" := by
    rw [start]
    cbv
  obtain ⟨u, result, finished⟩ := finish_of_halted s' (Option.isSome_iff_exists.2 ⟨_, outcome⟩)
  obtain ⟨-, world, -, blocked⟩ := finish_facts finished
  refine ⟨u, (ends_cons takes).2 ⟨40, u, result, finished, rfl⟩, ?_, ?_⟩
  · rw [world]
    exact shown
  · rw [blocked, failed, outcome]
    exact Bool.or_true _

end Example

/-- Two texts, each of which passes all checks by itself, run one after the other like one text that has a line break
between them, in every session without open errors. -/
theorem split_text_sameCourse (lawful : host.Lawful) (blind : host.Blind) (s : Session) (reachable : s.Reachable host)
    (clear : s.reporter.blocked = false) (first second : String) (hfirst : Acceptable first)
    (hsecond : Acceptable second) (comment : Token.endsInComment first = false) :
    SameCourse host s [first, second] [first ++ "\n" ++ second] := by
  obtain ⟨program, s1, h⟩ := hfirst.takes clear
  obtain ⟨program', s2, h'⟩ := hsecond.takes h.clear
  obtain ⟨s12, h12, world⟩ := h.seam h' clear comment
  have start : s12.start (.program (program ++ program'.map
      (Relabeling.shift 0 (Token.newlines first.toList + 1)).stmt)) = (s1.start (.program program)).followed
        (program'.map (Relabeling.shift 0 (Token.newlines first.toList + 1)).stmt) s2.world.distances := by
    rw [Session.start, Session.start, world, h.world]
    rfl
  have top : OnTop (s1.start (.program program)) := ⟨rfl, rfl, .inl ⟨program, rfl⟩⟩
  rcases run_followed_cases top (h.seen lawful reachable h') with never | ⟨m, upTo, done, alone, onward⟩
  · exact sameCourse_unfinished h h12 start never
  · refine sameCourse_finished blind h h' h12 start ?_ upTo done alone onward
    rw [← Relabeling.stmts_eq_map, ← Relabeling.stmts_andThen]
    rfl

/-- One after the other the two texts print the same two lines, and the second fails. -/
theorem split_text_sameCourse_failing :
    SameCourse Host.empty (.withConsole ⟨#[], [], true, .zero⟩) [openingText, closingText]
        [openingText ++ "\n" ++ closingText] ∧
      ∃ u, Ends Host.empty (.withConsole ⟨#[], [], true, .zero⟩) [openingText, closingText] u ∧
        u.world.console.output = #["one", "oneone"] ∧ u.reporter.blocked = true := by
  have course := split_text_sameCourse Host.empty_lawful Host.empty_blind (.withConsole ⟨#[], [], true, .zero⟩)
    (.fresh Host.empty _) rfl openingText closingText acceptable_openingText acceptable_closingText (by cbv)
  obtain ⟨u', ends, console, blocked⟩ := ends_bothTexts ⟨#[], [], true, .zero⟩
  obtain ⟨u, ends', same⟩ := course.ended u' ends
  refine ⟨course, u, ends', ?_, ?_⟩
  · rw [same.console, console]
    rfl
  · rw [same.blocked, blocked]

end Scriptlet.Session
