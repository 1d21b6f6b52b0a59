import Scriptlet.Proofs.Alignment
import Scriptlet.Proofs.Numbering
import Scriptlet.Proofs.ParserExact
import Scriptlet.Proofs.ParserRecipes

/-!
What the texts of a session leave behind. Every accepted text has numbers of its own for its nodes, the shape of the
grammar, and passes the analysis; the distances that the session keeps are for each node those that the analysis of its
text has left.
-/
namespace Scriptlet

open Grammar (Spelled Fresh significant)
open Scope (Site Passes analysis)

namespace Token

/-- A word that is not a keyword. -/
theorem ofText?_of_identifier {c : Char} {cs : List Char} (h : (firstPiece c cs).1.meaning = .token .identifier) :
    Keyword.ofText? (String.ofList (firstPiece c cs).1.text) = none := by
  unfold firstPiece at h ⊢
  split at h
  · cases h
  split at h
  · unfold stringPiece at h
    split at h <;> cases h
  split at h
  · unfold numberPiece at h
    split at h
    · split at h <;> cases h
    · cases h
  split at h
  · next h1 h2 h3 h4 =>
    rw [if_neg h1, if_neg h2, if_neg h3, if_pos h4]
    unfold wordPiece wordKind at h
    dsimp only at h
    split at h
    · cases h
    · next hn => exact hn
  · split at h
    · cases h
    · cases h
    · unfold punctPiece at h
      split at h
      · cases h
      · split at h <;> cases h

theorem spelled_items {cs : List Char} {line : Nat} {token : Token} (h : .token token ∈ items line (pieces cs))
    (hk : token.kind = .identifier) : token.lexeme ≠ "this" := by
  induction cs using pieces.induct generalizing line with
  | case1 =>
    rw [pieces, items] at h
    obtain rfl := Item.token.inj (List.mem_singleton.1 h)
    cases hk
  | case2 c cs ih =>
    rw [pieces, items] at h
    split at h
    · exact ih h
    · next kind hm =>
      rcases List.mem_cons.1 h with he | h
      · obtain rfl := Item.token.inj he
        dsimp only at hk
        subst hk
        have none := ofText?_of_identifier hm
        intro hl
        dsimp only at hl
        rw [hl] at none
        exact absurd none (by decide)
      · exact ih h
    · rcases List.mem_cons.1 h with he | h
      · cases he
      · exact ih h

end Token

theorem spelled_tokens (source : String) : Spelled (significant (Session.tokensOf source)) := by
  intro token ht hk
  have ht := List.mem_filterMap.1 ((List.takeWhile_sublist _).subset ht)
  obtain ⟨item, hi, he⟩ := ht
  cases item with
  | fault line f => cases he
  | token token' =>
    cases he
    exact Token.spelled_items hi hk

/-- A tree that may be given to the analysis. -/
structure Readable (i : Nat) (part : Part) (j : Nat) : Prop where
  fresh : Fresh i part.ids j
  shaped : part.Shaped

theorem readable_of_derives {k : Grammar.Symbol} {ts : List Token} {i j : NodeId} {tree : k.Tree} {part : Part}
    (d : Grammar.Derives k ts i tree j) (spelled : Spelled ts) (hs : k.seed = []) (hp : k.parts tree = [part]) :
    Readable i part j := by
  have adds := d.adds
  rw [hs, hp] at adds
  have fresh := adds.fresh i (Grammar.fresh_nil (Nat.le_refl i))
  have formed := d.formed (S := True) (fun _ => spelled) (by rw [hs]; exact Part.allFormed_nil)
  rw [hp] at formed
  exact ⟨by simpa using fresh, formed.one.shaped⟩

theorem readable_program {source : String} {base : NodeId} {program : List Stmt}
    (h : (Parser.parse (Session.tokensOf source) base).result = .ok program) :
    Readable base (.stmts program) (Parser.parse (Session.tokensOf source) base).nextId := by
  have d := Grammar.parse_eq_ok.1 (Session.outcome_eq h)
  exact readable_of_derives d (spelled_tokens source) rfl rfl

theorem readable_expression {source : String} {base : NodeId} {e : Expr}
    (h : (Parser.parseExpression (Session.tokensOf source) base).result = .ok e) :
    Readable base (.expr e) (Parser.parseExpression (Session.tokensOf source) base).nextId := by
  have d := Grammar.parseExpression_eq_ok.1 (Session.outcome_eq h)
  have spelled := spelled_tokens source
  rcases d with d | ⟨us, c, hts, -, d⟩
  · exact readable_of_derives d spelled rfl rfl
  · rw [hts] at spelled
    exact readable_of_derives d (Grammar.spelled_append.1 spelled).1 rfl rfl

/-- A check has either found no tree, or analysed one; the store is as it was. -/
theorem Session.check_text {s s' : Session} {form : Session.Form} {source : String} {r : Except Error Machine.Control}
    (h : s.check form source = (s', r)) : s'.store = s.store ∧
      ((s'.world.distances = s.world.distances ∧ Nat.le s.nextId s'.nextId ∧ ∃ e, r = .error e) ∨
        ∃ part, Readable s.nextId part s'.nextId ∧
          s'.world.distances = (rootSite part s.world.distances).after.distances ∧
          ∀ control, r = .ok control → control.text = part ∧
            Passes (analysis part) (rootSite part s.world.distances).context) := by
  rcases check_cases h with ⟨world, next, failed⟩ | ⟨-, -, load⟩
  · exact ⟨congrArg World.store world, .inl ⟨congrArg World.distances world, Nat.le_of_eq next.symm, failed⟩⟩
  · cases form with
    | program =>
      rw [load_program] at load
      obtain ⟨next, ⟨e, he, world⟩ | ⟨tree, parsed, world, result⟩⟩ := process_cases load
      · refine ⟨congrArg World.store world, .inl ⟨congrArg World.distances world, ?_, e, he⟩⟩
        rw [next]
        exact Parser.le_nextId_parse _ _
      · rw [world, next]
        refine ⟨by simp only [Session.store, world], .inr ⟨.stmts tree, readable_program parsed, rfl, ?_⟩⟩
        rintro control rfl
        rcases result with ⟨e, he⟩ | ⟨he, passed⟩
        · cases he
        · cases he
          exact ⟨rfl, passed⟩
    | expression =>
      rw [load_expression] at load
      obtain ⟨next, ⟨e, he, world⟩ | ⟨tree, parsed, world, result⟩⟩ := process_cases load
      · refine ⟨congrArg World.store world, .inl ⟨congrArg World.distances world, ?_, e, he⟩⟩
        rw [next]
        exact Parser.le_nextId_parseExpression _ _
      · rw [world, next]
        refine ⟨by simp only [Session.store, world], .inr ⟨.expr tree, readable_expression parsed, rfl, ?_⟩⟩
        rintro control rfl
        rcases result with ⟨e, he⟩ | ⟨he, passed⟩
        · cases he
        · cases he
          exact ⟨rfl, passed⟩

/-- Whatever a check comes to, earlier numbers keep what is recorded for them. -/
theorem Session.check_numbers (s : Session) (form : Session.Form) (source : String) : Nat.le s.nextId (s.check form source).1.nextId ∧
    ∀ id, Nat.lt id s.nextId → (s.check form source).1.world.distances.get? id = s.world.distances.get? id := by
  cases h : s.check form source with
  | mk s' r =>
    obtain ⟨-, ⟨distances, le, -⟩ | ⟨part, readable, distances, -⟩⟩ := check_text h
    · exact ⟨le, fun id _ => by rw [distances]⟩
    · refine ⟨readable.fresh.le, fun id lt => ?_⟩
      rw [distances]
      exact (Scope.keeps_analysis part fun hid =>
        Nat.lt_irrefl id (Nat.lt_of_lt_of_le lt (readable.fresh.from_le id hid))).distances_after

/-- What a session knows of its texts. -/
structure Recorded (t : Trace) (distances : Distances) (next : Nat) : Prop where
  below : ∀ root, .accepted root ∈ t → ∀ id ∈ root.part.ids, id < next
  agree : ∀ root, .accepted root ∈ t → ∀ id ∈ root.part.ids, distances.get? id = root.after.distances.get? id
  apart : ∀ root root' id, .accepted root ∈ t → .accepted root' ∈ t → id ∈ root.part.ids → id ∈ root'.part.ids →
    root = root'
  unset : ∀ id, next ≤ id → distances.get? id = none

namespace Recorded

variable {t : Trace} {d : Distances} {next next' : Nat} {part : Part}

theorem empty : Recorded [] .empty 0 where
  below _ h := by cases h
  agree _ h := by cases h
  apart _ _ _ h := by cases h
  unset id _ := Distances.get?_empty id

/-- Other events say nothing about texts. -/
theorem of_accepted {t' : Trace} (h : Recorded t d next) (accepted : ∀ root, .accepted root ∈ t' → .accepted root ∈ t) :
    Recorded t' d next :=
  ⟨fun root hr => h.below root (accepted root hr), fun root hr => h.agree root (accepted root hr),
    fun root root' id hr hr' => h.apart root root' id (accepted root hr) (accepted root' hr'), h.unset⟩

theorem skip (h : Recorded t d next) (le : next ≤ next') : Recorded t d next' :=
  ⟨fun root hr id hid => Nat.lt_of_lt_of_le (h.below root hr id hid) le, h.agree, h.apart,
    fun id hid => h.unset id (Nat.le_trans le hid)⟩

/-- Whether or not it passes, the analysis of a new tree leaves older distances alone. -/
theorem analysed (h : Recorded t d next) (readable : Readable next part next') :
    Recorded t (rootSite part d).after.distances next' := by
  have fresh := readable.fresh
  have keeps {id : Nat} (hid : id ∉ part.ids) : (rootSite part d).after.distances.get? id = d.get? id :=
    (Scope.keeps_analysis part hid).distances_after
  refine ⟨fun root hr id hid => Nat.lt_of_lt_of_le (h.below root hr id hid) fresh.le, fun root hr id hid => ?_,
    h.apart, fun id hid => ?_⟩
  · rw [keeps fun hid' => Nat.lt_irrefl id (Nat.lt_of_lt_of_le (h.below root hr id hid) (fresh.from_le id hid'))]
    exact h.agree root hr id hid
  · rw [keeps fun hid' => Nat.lt_irrefl id (Nat.lt_of_lt_of_le (fresh.lt id hid') hid)]
    exact h.unset id (Nat.le_trans fresh.le hid)

theorem good (h : Recorded t d next) (readable : Readable next part next')
    (passes : Passes (analysis part) (rootSite part d).context) : (rootSite part d).Good :=
  ⟨passes, readable.fresh.nodup, fun id hid => h.unset id (readable.fresh.from_le id hid), readable.shaped, rfl⟩

theorem accept (h : Recorded t d next) (readable : Readable next part next') :
    Recorded (.accepted (rootSite part d) :: t) (rootSite part d).after.distances next' := by
  have later := h.analysed readable
  have new {root : Site} {id : Nat} (hr : .accepted root ∈ t) (hid : id ∈ root.part.ids) : id ∉ part.ids := fun hid' =>
    Nat.lt_irrefl id (Nat.lt_of_lt_of_le (h.below root hr id hid) (readable.fresh.from_le id hid'))
  refine ⟨fun root hr id hid => ?_, fun root hr id hid => ?_, fun root root' id hr hr' hid hid' => ?_, later.unset⟩
  · rcases List.mem_cons.1 hr with he | hr
    · cases he
      exact readable.fresh.lt id hid
    · exact later.below root hr id hid
  · rcases List.mem_cons.1 hr with he | hr
    · cases he
      rfl
    · exact later.agree root hr id hid
  · rcases List.mem_cons.1 hr with he | hr <;> rcases List.mem_cons.1 hr' with he' | hr'
    · cases he
      cases he'
      rfl
    · cases he
      exact absurd hid (new hr' hid')
    · cases he'
      exact absurd hid' (new hr hid)
    · exact h.apart root root' id hr hr' hid hid'

/-- A node has the distance to the nearest scope with its name at its site. -/
theorem distance (h : Recorded t d next) (sane : Sane t) {site : Site} (visited : Visited t site) {id : NodeId} {x : String}
    (hn : site.part.node? = some (id, x)) : d.get? id = Scope.nearest x site.names := by
  obtain ⟨root, accepted, visits⟩ := visited
  obtain ⟨good, final, below⟩ := visits.good (sane root accepted).1
  have hid := Part.mem_ids_of_node? hn
  rw [h.agree root accepted id (below id hid), final id hid, good.distance hn]

/-- A node of an accepted text has one site. -/
theorem unique (h : Recorded t d next) (sane : Sane t) {site site' : Site} (visited : Visited t site)
    (visited' : Visited t site') {id : NodeId} {x x' : String} (hn : site.part.node? = some (id, x))
    (hn' : site'.part.node? = some (id, x')) : site = site' := by
  obtain ⟨root, accepted, visits⟩ := visited
  obtain ⟨root', accepted', visits'⟩ := visited'
  obtain rfl := h.apart root root' id accepted accepted' (visits.ids_subset (Part.mem_ids_of_node? hn))
    (visits'.ids_subset (Part.mem_ids_of_node? hn'))
  exact visits.unique (sane root accepted).1 visits' hn hn'

end Recorded

end Scriptlet
