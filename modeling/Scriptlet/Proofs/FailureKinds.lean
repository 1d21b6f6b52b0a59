import Mathlib
import Scriptlet.Proofs.CallSites
import Scriptlet.Proofs.RefusedTexts
import Scriptlet.Proofs.ShellRuns

/-!
What the kind of an error tells. A text that is refused fails with the kind of the stage that has refused it, and has
done nothing; a text that fails while it runs always does so with a line, which for failures of natives is that of the
innermost call or subscript of the program around them. The command line tells the two cases apart by its status.
-/
namespace Scriptlet

open Machine

/-- What is done with a text before it runs. -/
inductive Stage where
  | scanning
  | parsing
  | resolving
deriving DecidableEq, Repr

/-- The stage that an error comes from, if it comes from one. -/
def Error.stage? : Error → Option Stage
  | .lex _ _ => some .scanning
  | .parse _ _ => some .parsing
  | .resolve _ _ => some .resolving
  | _ => none

/-- The kind of text that an action runs. -/
def Shell.Action.form? : Shell.Action → Option Session.Form
  | .evaluate => some .expression
  | .run => some .program
  | _ => none

namespace Session

variable {host : Host} {limit : Nat} {s s' : Session} {form : Form} {source : String}

/-- The stage finds fault with a text, with which the stages before it have found none. -/
def Refuses (s : Session) (form : Form) (source : String) : Stage → Prop
  | .scanning => Item.faults (Token.scan source) ≠ []
  | .parsing => Item.faults (Token.scan source) = [] ∧ ∃ es, (form.parse (tokensOf source) s.nextId).result = .error es
  | .resolving => Item.faults (Token.scan source) = [] ∧ ∃ tree, (form.parse (tokensOf source) s.nextId).result = .ok tree ∧
      ∃ e, (form.resolve tree s.world.distances).result = .error e

theorem Refuses.unique {stage stage' : Stage} (h : s.Refuses form source stage) (h' : s.Refuses form source stage') :
    stage = stage' := by
  cases stage with
  | scanning =>
    cases stage' with
    | scanning => rfl
    | parsing => exact absurd h'.1 h
    | resolving => exact absurd h'.1 h
  | parsing =>
    obtain ⟨scanned, es, parsed⟩ := h
    cases stage' with
    | scanning => exact absurd scanned h'
    | parsing => rfl
    | resolving =>
      obtain ⟨-, tree, parsed', -⟩ := h'
      cases parsed.symm.trans parsed'
  | resolving =>
    obtain ⟨scanned, tree, parsed, -⟩ := h
    cases stage' with
    | scanning => exact absurd scanned h'
    | parsing =>
      obtain ⟨-, es, parsed'⟩ := h'
      cases parsed.symm.trans parsed'
    | resolving => rfl

/-- A stage refuses a text with an error of its own, or the text is ready to run. -/
theorem check_refuses (clear : s.reporter.blocked = false) (form : Form) (source : String) :
    (∃ stage e s', s.Refuses form source stage ∧ e.stage? = some stage ∧ s.check form source = (s', .error e)) ∨
    ((∀ stage, ¬ s.Refuses form source stage) ∧
      ∃ control s', control.inCall = false ∧ s.check form source = (s', .ok control)) := by
  rcases check_stages clear form source with ⟨line, fault, more, scanned, h⟩ | ⟨scanned, ⟨e, es, parsed, h⟩ |
    ⟨tree, parsed, ⟨e, resolved, h⟩ | ⟨resolved, h⟩⟩⟩
  · exact .inl ⟨.scanning, _, _, by simp [Refuses, scanned], rfl, h⟩
  · exact .inl ⟨.parsing, _, _, ⟨scanned, _, parsed⟩, rfl, h⟩
  · exact .inl ⟨.resolving, _, _, ⟨scanned, tree, parsed, e, resolved⟩, rfl, h⟩
  · refine .inr ⟨fun stage refuses => ?_, _, _, by cases form <;> rfl, h⟩
    cases stage with
    | scanning => exact refuses scanned
    | parsing =>
      obtain ⟨-, es, parsed'⟩ := refuses
      cases parsed.symm.trans parsed'
    | resolving =>
      obtain ⟨-, tree', parsed', e, resolved'⟩ := refuses
      cases parsed.symm.trans parsed'
      cases resolved.symm.trans resolved'

/-- A run that began outside of calls fails with a line. -/
theorem perform_error {control : Control} {e : Error} (outside : control.inCall = false)
    (h : s.perform host limit control = some (s', .error e)) : ∃ line message, e = .runtime line message := by
  have placed : (run host limit (s.start control)).Placed := (placed_start s.world outside).run limit
  unfold perform finish at h
  dsimp only at h
  split at h
  · cases h
  · cases h
  · next failure ho =>
    obtain ⟨line, fault, rfl⟩ := placed.outcome? ho
    cases h
    exact ⟨line, fault.message, rfl⟩
  · cases h

/-- What the kind of an error tells about a text. -/
structure KindTells (host : Host) (limit : Nat) (s : Session) (form : Form) (source : String) : Prop where
  /-- A text fails with an error of a stage exactly if that stage refuses it. -/
  refused : ∀ stage, (∃ s' e, s.submit host limit form source = some (s', .error e) ∧ e.stage? = some stage) ↔
    s.Refuses form source stage
  /-- Then nothing has been printed or bound. -/
  untouched : ∀ s' e, s.submit host limit form source = some (s', .error e) → e.stage?.isSome = true →
    s'.world.console = s.world.console ∧ s'.store = s.store
  /-- All other failures are failures of the run. -/
  running : ∀ s' e, s.submit host limit form source = some (s', .error e) → e.stage? = none →
    ∃ line message, e = .runtime line message
  /-- What is called fails without a line of its own. -/
  called : ∀ s' control n callee arguments e, s.check form source = (s', .ok control) →
    (run host n (s'.start control)).control = .enter callee arguments →
    (run host (n + 1) (s'.start control)).control = .raise e → ∃ fault, e = .native fault
  /-- Such a failure takes the line of the innermost call or subscript of the program, and the text fails with it unless
  a native waits further out, which then fails in turn. -/
  native : ∀ s' control n fault, s.check form source = (s', .ok control) →
    (run host n (s'.start control)).control = .raise (.native fault) →
    ∃ above line below fault', (run host n (s'.start control)).pending = above ++ .site line :: below ∧
      siteLine? above = none ∧ (.nativeCall ∉ above → fault' = fault) ∧
      (run host (n + (above.length + 1)) (s'.start control)).control = .raise (.runtime line fault') ∧
      (run host (n + (above.length + 1)) (s'.start control)).pending = below ∧
      (.nativeCall ∉ below → ∃ limit s'', s.submit host limit form source =
        some (s'', .error (.runtime line fault'.message)))

theorem submit_eq_perform {control : Control} (h : s.check form source = (s', .ok control)) (limit : Nat) :
    s.submit host limit form source = s'.perform host limit control := by
  rw [submit, h]

theorem inCall_of_check {control : Control} (h : s.check form source = (s', .ok control)) : control.inCall = false := by
  rcases check_control h with ⟨program, rfl, -⟩ | ⟨e, rfl, -⟩ <;> rfl

theorem kindTells (clear : s.reporter.blocked = false) (host : Host) (limit : Nat) (form : Form) (source : String) :
    KindTells host limit s form source where
  refused := by
    intro stage
    rcases check_refuses clear form source with ⟨stage', e, s', refuses, kind, check⟩ | ⟨none, control, s', outside, check⟩
    · have submit : s.submit host limit form source = some (s', .error e) := by rw [submit, check]
      rw [submit]
      constructor
      · rintro ⟨s'', e', he, kind'⟩
        cases he
        rw [kind] at kind'
        cases kind'
        exact refuses
      · intro refuses'
        cases refuses.unique refuses'
        exact ⟨s', e, rfl, kind⟩
    · rw [submit_eq_perform check]
      refine ⟨?_, fun refuses => absurd refuses (none stage)⟩
      rintro ⟨s'', e, he, kind⟩
      obtain ⟨line, message, rfl⟩ := perform_error outside he
      cases kind
  untouched := by
    intro s' e submit kind
    have static : e.isStatic = true := by
      cases e <;> first | rfl | cases kind
    have world := check_world (check_of_static submit static)
    exact ⟨by rw [world], by rw [store, world]; rfl⟩
  running := by
    intro s' e submit kind
    rcases check_refuses clear form source with ⟨stage, e', s₁, -, kind', check⟩ | ⟨none, control, s₁, outside, check⟩
    · rw [Session.submit, check] at submit
      cases submit
      rw [kind] at kind'
      cases kind'
    · rw [submit_eq_perform check] at submit
      exact perform_error outside submit
  called := by
    intro s' control n callee arguments e _ entering raised
    rw [run_step] at raised
    exact step_enter_raise host entering raised
  native := by
    intro s' control n fault check raised
    have placed : (run host n (s'.start control)).Placed := (placed_start s'.world (inCall_of_check check)).run n
    obtain ⟨above, line, below, fault', pending, innermost, control', pending', same, ends⟩ :=
      placed.native_failure host raised
    rw [← run_add] at control' pending'
    refine ⟨above, line, below, fault', pending, innermost, same, control', pending', fun free => ?_⟩
    obtain ⟨k, outcome⟩ := ends free
    rw [← run_add] at outcome
    refine ⟨n + k, ?_⟩
    rw [submit_eq_perform check, perform, finish, outcome]
    exact ⟨_, rfl⟩

end Session

namespace Shell

variable {host : Host} {session : Session} {form : Session.Form} {source : String} {rs : List (Except Error Value)}
  {sh : Shell}

/-- A shell that is not interactive, at the start of a text. -/
def script (session : Session) (form : Session.Form) (source : String) : Shell :=
  Shell.submit ⟨session, false, .prompt, "", ""⟩ form source

theorem start_onFile {contents : String → Except FileFault ByteArray} {action : Action} {file : String} {bytes : ByteArray}
    (hf : action.form? = some form) (read : contents file = .ok bytes) (text : String.fromUTF8? bytes = some source) :
    Shell.start session contents (.onFile action (some file)) = script session form source := by
  simp only [Shell.start, read, text]
  cases action <;> cases hf <;> rfl

/-- What the status of a text tells: 65 that it was refused, and then nothing has been written, 70 that it has run and
failed. -/
structure StatusTells (session : Session) (form : Session.Form) (source : String) (rs : List (Except Error Value))
    (sh : Shell) : Prop where
  refused : sh.phase = .done 65 ↔ ∃ stage, session.Refuses form source stage
  silent : (∃ stage, session.Refuses form source stage) → sh.out = ""
  failed : sh.phase = .done 70 ↔ ∃ e, rs = [.error e]
  others : ∀ status, sh.phase = .done status → status = 0 ∨ status = 65 ∨ status = 70

theorem statusTells (clear : session.reporter.blocked = false) (silent : session.world.console.output = #[])
    (h : Reached host (script session form source) rs sh) : StatusTells session form source rs sh := by
  rcases Session.check_refuses clear form source with ⟨stage, e, s', refuses, kind, check⟩ | ⟨none, control, s', -, check⟩
  · have code : status e = 65 := by
      cases e <;> first | rfl | cases kind
    have output : s'.world.console.output = #[] := by rw [Session.check_world check, silent]
    have first : (script session form source).phase = .done 65 ∧ (script session form source).out = "" := by
      simp [script, Shell.submit, check, conclude, collect, code, output, textLines]
    obtain ⟨none, phase, out⟩ := h.of_done first.1 first.2
    refine ⟨⟨fun _ => ⟨stage, refuses⟩, fun _ => phase⟩, fun _ => out, ?_, fun status done => ?_⟩
    · simp [phase, none]
    · rw [phase] at done
      cases done
      exact .inr (.inl rfl)
  · have first : Script form [] (script session form source) := by
      rw [script, Shell.submit, check]
      exact ⟨rfl, .inl ⟨rfl, _, rfl⟩⟩
    have never : ¬ ∃ stage, session.Refuses form source stage := not_exists.2 none
    obtain ⟨-, ⟨rfl, state, phase⟩ | ⟨r, rfl, phase⟩⟩ := h.script first
    · exact ⟨by simp [phase, none], fun h => absurd h never, by simp [phase], by simp [phase]⟩
    · cases r with
      | ok v | error e =>
        exact ⟨by simp [phase, none, runStatus], fun h => absurd h never, by simp [phase, runStatus],
          by simp [phase, runStatus]⟩

end Shell

/-- In a session without open errors the kind of an error tells which stage has failed and, when a native has, which
line; and the status of a command tells whether its text was refused or has run and failed. -/
theorem error_kind_tells_stage (host : Host) :
    (∀ s : Session, s.reporter.blocked = false → ∀ limit form source, Session.KindTells host limit s form source) ∧
    ∀ (console : Console) contents file bytes source action form, console.output = #[] → contents file = .ok bytes →
      String.fromUTF8? bytes = some source → Shell.Action.form? action = some form →
      ∀ rs sh, Shell.Reached host (.start (.withConsole console) contents (.onFile action (some file))) rs sh →
        Shell.StatusTells (.withConsole console) form source rs sh := by
  constructor
  · intro s clear limit form source
    exact Session.kindTells clear host limit form source
  · intro console contents file bytes source action form silent read text hf rs sh reached
    rw [Shell.start_onFile hf read text] at reached
    exact Shell.statusTells rfl silent reached

/-- An entry of a map that has none is asked for, on the second line. -/
def emptyMapText : String := "Map()\n['k']"

def emptyMapExpression : Expr :=
  .index (.call (.variable 0 ⟨"Map", 1⟩) [] 1) (.literal (.text "k")) 2

/-- The subscript runs into a native that fails, so its line is told; a command with a stray character is refused. -/
theorem error_kind_tells_stage_emptyMap :
    ∃ s, s = Session.withConsole ⟨#[], [], true, .zero⟩ ∧
      (∃ limit s', s.submit .empty limit .expression emptyMapText =
        some (s', .error (.runtime 2 "Key k not found."))) ∧
      (Shell.start s (fun _ => .ok "@".toUTF8) (.onFile .run (some "file"))).phase = .done 65 := by
  obtain ⟨s, hs⟩ : ∃ s, s = Session.withConsole ⟨#[], [], true, .zero⟩ := ⟨_, rfl⟩
  obtain ⟨told, status⟩ := error_kind_tells_stage .empty
  refine ⟨s, hs, ?_, ?_⟩
  · have scanned : Item.faults (Token.scan emptyMapText) = [] := by cbv
    have parsed : Parser.parseExpression (Session.tokensOf emptyMapText) 0 = ⟨.ok emptyMapExpression, 1⟩ := by cbv
    have resolved : (Scope.resolveExpression emptyMapExpression .empty).result = .ok () := by cbv
    have check : s.check .expression emptyMapText =
        (s.analysed 1 (Scope.resolveExpression emptyMapExpression .empty), .ok (.evaluate emptyMapExpression)) := by
      rw [Session.check_eq_load (by rw [hs]; rfl) scanned, Session.load_expression, hs]
      simp only [Session.process, Session.withConsole, parsed, Session.parsed, Session.resolved, resolved]
      rfl
    have raised : (run .empty 12 (((Session.withConsole ⟨#[], [], true, .zero⟩).analysed 1
        (Scope.resolveExpression emptyMapExpression .empty)).start (.evaluate emptyMapExpression))).control =
          .raise (.native (.keyMissing "k")) := by cbv
    have pending : (run .empty 12 (((Session.withConsole ⟨#[], [], true, .zero⟩).analysed 1
        (Scope.resolveExpression emptyMapExpression .empty)).start (.evaluate emptyMapExpression))).pending =
          [.site 2] := by cbv
    rw [← hs] at raised pending
    obtain ⟨above, line, below, fault', hp, innermost, same, -, -, ends⟩ :=
      (told s (by rw [hs]; rfl) 0 .expression emptyMapText).native _ _ 12 _ check raised
    rw [pending] at hp
    cases above with
    | nil =>
      cases hp
      obtain ⟨limit, s', ended⟩ := ends List.not_mem_nil
      rw [same List.not_mem_nil] at ended
      exact ⟨limit, s', ended⟩
    | cons p above => simp at hp
  · have text : String.fromUTF8? "@".toUTF8 = some "@" := by cbv
    have scanned : Item.faults (Token.scan "@") = [(1, .unexpected '@')] := by cbv
    rw [hs]
    refine (status ⟨#[], [], true, .zero⟩ (fun _ => .ok "@".toUTF8) "file" _ "@" .run .program rfl rfl text rfl [] _
      .start).refused.2 ⟨.scanning, ?_⟩
    simp [Session.Refuses, scanned]

end Scriptlet
