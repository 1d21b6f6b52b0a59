import Scriptlet.Proofs.ShellRuns

/-!
The flags of a session over its life. Each is up exactly if an error of its kind has been sent since the last reset;
while one is up no text is taken, and when both are down a text is taken, and leaves them down exactly if it succeeds.
-/
namespace Scriptlet.Session

open Machine

variable {host : Host} {s : Session} {form : Form} {source : String}

/-- An operation shows the listener the diagnostics that it sends, as lines. -/
theorem lines_operate (s : Session) (limit : Nat) (op : Operation) :
    (s.operate host limit op).1.reporter.lines.toList =
      s.reporter.lines.toList ++ (s.sent host limit op).map Diagnostic.display := by
  by_cases reset : op = .reset
  · subst reset
    simp [operate, sent, Session.reset, Reporter.reset]
  · rw [reporter_operate host s limit reset, Reporter.lines_sendAll]

/-- While errors are open, a text is refused and nothing changes. -/
theorem operate_of_blocked (h : s.reporter.blocked = true) (limit : Nat) (form : Form) (source : String) :
    s.operate host limit (.submit form source) = (s, some (.error .pending)) := by
  simp only [operate, submit, check_of_blocked h]
  rfl

/-- A text that comes to an end leaves errors open exactly if it fails. -/
theorem blocked_operate {limit : Nat} {s' : Session} {r : Except Error Value} (clear : s.reporter.blocked = false)
    (h : s.operate host limit (.submit form source) = (s', some r)) :
    (∃ v, r = .ok v) ↔ s'.reporter.blocked = false := by
  have text : Operation.submit form source ≠ .reset := by simp
  have reporter := reporter_operate host s limit text
  rw [h] at reporter
  rw [reporter, Reporter.blocked_sendAll, clear]
  rcases firstError?_sent clear h with ⟨e, rfl, -, first⟩ | ⟨v, rfl, none⟩
  · simp [first]
  · simp [none]

/-- The protocol of the flags at one moment of a session, when `since` has been sent since the last reset. -/
structure Protocol (host : Host) (s : Session) (since : List Diagnostic) : Prop where
  hadError : s.reporter.hadError = true ↔ ∃ e, .error e ∈ since ∧ e.isRuntime = false
  hadRuntimeError : s.reporter.hadRuntimeError = true ↔ ∃ e, .error e ∈ since ∧ e.isRuntime = true
  /-- What is sent is what the listener sees. -/
  lines : ∀ limit op, (s.operate host limit op).1.reporter.lines.toList =
    s.reporter.lines.toList ++ (s.sent host limit op).map Diagnostic.display
  /-- While a flag is up, texts are refused and nothing changes. -/
  refuses : s.reporter.blocked = true → ∀ limit form source,
    s.operate host limit (.submit form source) = (s, some (.error .pending))
  /-- A text that is taken fails with the first error that it sends, after nothing but warnings, and leaves both flags
  down exactly if it does not fail. -/
  takes : s.reporter.blocked = false → ∀ limit form source s' r,
    s.operate host limit (.submit form source) = (s', some r) →
      r ≠ .error .pending ∧ ((∃ v, r = .ok v) ↔ s'.reporter.blocked = false) ∧
        ∀ e, r = .error e → ∃ (ws : List Warning) (es : List Diagnostic),
          s.sent host limit (.submit form source) = ws.map .warning ++ .error e :: es

theorem protocol_of_reporter {lines : Array String} {since : List Diagnostic}
    (h : s.reporter = Reporter.sendAll ⟨lines, false, false⟩ since) : Protocol host s since where
  hadError := by simpa [h] using (Reporter.flags_sendAll ⟨lines, false, false⟩ since).1
  hadRuntimeError := by simpa [h] using (Reporter.flags_sendAll ⟨lines, false, false⟩ since).2
  lines := lines_operate s
  refuses := operate_of_blocked
  takes := by
    intro clear limit form source s' r h
    refine ⟨?_, blocked_operate clear h, ?_⟩
    · rintro rfl
      rcases firstError?_sent clear h with ⟨e, he, pending, -⟩ | ⟨v, he, -⟩
      · exact pending (Except.error.inj he).symm
      · cases he
    · rintro e rfl
      rcases firstError?_sent clear h with ⟨e', he, -, first⟩ | ⟨v, he, -⟩
      · rw [Except.error.inj he]
        exact Diagnostic.firstError?_eq_some.1 first
      · cases he

/-- The protocol holds after any operations of a session, and a shell is at its prompt only with both flags down. -/
theorem error_flag_protocol (host : Host) (console : Console) :
    (∀ ops, Protocol host ((withConsole console).after host ops) ((withConsole console).sentSince host [] ops)) ∧
    ∀ contents rs sh, Shell.Reached host (Shell.start (withConsole console) contents .repl) rs sh → sh.phase = .prompt →
      sh.session.reporter.hadError = false ∧ sh.session.reporter.hadRuntimeError = false := by
  constructor
  · intro ops
    have fresh : ∃ lines, (withConsole console).reporter = Reporter.sendAll ⟨lines, false, false⟩ [] := ⟨#[], rfl⟩
    obtain ⟨lines, reporter⟩ := reporter_after ops [] fresh
    exact protocol_of_reporter reporter
  · intro contents rs sh reached prompt
    obtain ⟨-, ⟨status, done⟩ | clear⟩ := reached.clear ⟨rfl, .inr rfl⟩
    · rw [prompt] at done
      cases done
    · simpa [Reporter.blocked] using clear

/-- A stray character raises one flag, after which no text is taken; the shell that meets it prompts with none up. -/
theorem error_flag_protocol_stray :
    ∃ s, s = withConsole ⟨#[], [], true, .zero⟩ ∧
      (s.after .empty [(.submit .program "@", 0)]).reporter.hadError = true ∧
      (s.after .empty [(.submit .program "@", 0)]).operate .empty 0 (.submit .expression "1") =
        (s.after .empty [(.submit .program "@", 0)], some (.error .pending)) ∧
      ∃ sh, Shell.feed (Shell.start s (fun _ => .ok ByteArray.empty) .repl) (.text "@") = sh ∧ sh.phase = .prompt ∧
        sh.session.reporter.hadError = false ∧ sh.session.reporter.hadRuntimeError = false := by
  obtain ⟨s, hs⟩ : ∃ s, s = withConsole ⟨#[], [], true, .zero⟩ := ⟨_, rfl⟩
  have scanned : Item.faults (Token.scan "@") = [(1, .unexpected '@')] := by cbv
  have check (form : Form) : s.check form "@" = s.fail (.lex 1 "Unexpected character: @") [] := by
    rw [Session.check, scan, scanned, hs]
    rfl
  have since : s.sentSince .empty [] [(.submit .program "@", 0)] = [.error (.lex 1 "Unexpected character: @")] := by
    simp only [sentSince, sent, findings, scanned, check]
    rw [hs]
    rfl
  have protocol := (error_flag_protocol .empty ⟨#[], [], true, .zero⟩).1 [(.submit .program "@", 0)]
  rw [← hs, since] at protocol
  have up := protocol.hadError.2 ⟨_, List.mem_singleton.2 rfl, rfl⟩
  have trim : Text.trim "@" = "@" := by cbv
  have prompt : (Shell.feed (Shell.start s (fun _ => .ok ByteArray.empty) .repl) (.text "@")).phase = .prompt := by
    simp only [Shell.feed, Shell.start, Shell.showPrompt, trim, Shell.submit, check]
    rfl
  refine ⟨s, hs, up, protocol.refuses (by rw [Reporter.blocked, up]; rfl) 0 .expression "1", _, rfl, prompt, ?_⟩
  rw [hs] at prompt ⊢
  exact (error_flag_protocol .empty ⟨#[], [], true, .zero⟩).2 _ _ _ (.feed (.text "@") .start) prompt

end Scriptlet.Session
