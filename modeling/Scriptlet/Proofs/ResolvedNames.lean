import Mathlib
import Scriptlet.Proofs.AlignedLife

/-!
Where names lead at run time. In every state of every run the frame at the distance of a node is the one that was opened
for the scope in which the analysis has found the name, so a resolved name is read and assigned there and nowhere else.
It has no value there only while the initial value of the variable is being computed.
-/
namespace Scriptlet

open Scope (Site Region nearest)

/-- The local frames from a frame outward; after the last of them comes the outermost frame. -/
inductive Chain (fs : Frames) : Ref .frame → List (Ref .frame) → Prop
  | outermost : fs.enclosing Store.globals = none → Chain fs Store.globals []
  | cons {f p : Ref .frame} {frames : List (Ref .frame)} : f ≠ Store.globals → fs.enclosing f = some p →
      Chain fs p frames → Chain fs f (f :: frames)

/-- The site is where the node stands in an accepted text, and no other is. -/
structure StandsAt (t : Trace) (id : NodeId) (x : String) (site : Site) : Prop where
  visited : Visited t site
  node : site.part.node? = some (id, x)
  unique : ∀ site', Visited t site' → ∀ y, site'.part.node? = some (id, y) → site' = site

/-- The local frames from the current one outward were opened for the regions of the site, one for each open scope. -/
structure Surrounds (t : Trace) (s : Machine.State) (site : Site) (frames : List (Ref .frame)) : Prop where
  chain : Chain s.store.frames s.frame frames
  count : frames.length = site.context.scopes.length
  opened : List.Forall₂ (fun f region => .opened f region ∈ t) frames site.regions

section Chain

variable {t : Trace} {fs : Frames} {f g : Ref .frame} {frames : List (Ref .frame)}

theorem Fits.chain {hidden : List String} {rs : List Region} {nss : List (List String)} (h : Fits t fs hidden f rs nss)
    (outermost : fs.enclosing Store.globals = none) :
    ∃ frames, Chain fs f frames ∧ List.Forall₂ (fun f region => .opened f region ∈ t) frames rs ∧
      frames.length = nss.length := by
  induction rs generalizing f nss hidden with
  | nil =>
    cases nss with
    | nil =>
      obtain rfl : f = Store.globals := h
      exact ⟨[], .outermost outermost, .nil, rfl⟩
    | cons ns nss => cases h
  | cons r rs ih =>
    cases nss with
    | nil => cases h
    | cons ns nss =>
      obtain ⟨notGlobal, opened, -, p, enclosing, outer⟩ := h
      obtain ⟨frames, chain, regions, count⟩ := ih outer
      exact ⟨f :: frames, .cons notGlobal enclosing chain, .cons opened regions, congrArg (· + 1) count⟩

theorem Chain.ancestor (h : Chain fs f frames) {d : Nat} (hd : frames[d]? = some g) :
    fs.ancestor f d = some g ∧ g ≠ Store.globals := by
  induction h generalizing d with
  | outermost => simp at hd
  | @cons f p frames notGlobal enclosing _ ih =>
    cases d with
    | zero =>
      cases hd
      exact ⟨rfl, notGlobal⟩
    | succ d =>
      obtain ⟨ancestor, notGlobal⟩ := ih hd
      refine ⟨?_, notGlobal⟩
      rw [Frames.ancestor, enclosing]
      exact ancestor

/-- A name that a scope has is there in its frame, or its initial value has been begun. -/
theorem Fits.touched {rs : List Region} {nss : List (List String)} (h : Fits t fs [] f rs nss) (chain : Chain fs f frames)
    {d : Nat} (hd : frames[d]? = some g) {ns : List String} (hn : nss[d]? = some ns) {x : String} (hx : x ∈ ns) :
    Touched t fs g x := by
  induction rs generalizing f nss frames d with
  | nil =>
    cases nss with
    | nil => simp at hn
    | cons ns nss => cases h
  | cons r rs ih =>
    cases nss with
    | nil => cases h
    | cons ns' nss =>
      obtain ⟨notGlobal, -, touched, p, enclosing, outer⟩ := h
      cases chain with
      | outermost => exact absurd rfl notGlobal
      | cons _ enclosing' chain =>
        obtain rfl := Option.some.inj (enclosing.symm.trans enclosing')
        cases d with
        | zero =>
          cases hd
          cases hn
          exact touched x hx List.not_mem_nil
        | succ d => exact ih outer chain hd hn

end Chain

section Sites

variable {t : Trace} {s : Machine.State} {id : NodeId} {x : String}

/-- The node that is evaluated stands at a site that fits the current frame. -/
theorem Machine.Aligned.site (h : Aligned t s) (node : s.node? = some (id, x)) :
    ∃ site, Visited t site ∧ site.part.node? = some (id, x) ∧ Fits t s.store.frames [] s.frame site.regions site.names := by
  have control := h.control
  unfold State.node? at node
  split at node
  · next e hc =>
    rw [hc] at control
    obtain ⟨site, visited, part, fits⟩ := control
    exact ⟨site, visited, by rw [part]; exact node, fits⟩
  · next v id' name rest hc hp =>
    cases node
    obtain ⟨-, -, value, site, visited, part, fits⟩ := h.pop (by rw [hc]; rfl) hp rfl
    exact ⟨site, visited, by rw [part]; rfl, fits⟩
  · cases node

theorem nearest_names (c : Scope.Context) (x : String) : nearest x c.names = c.scopes.findIdx? (·.has x) := by
  simp only [nearest, Scope.Context.names, List.findIdx?_map]
  congr 1
  funext scope
  simp [← Scope.has_iff_mem]

/-- A scope that is the nearest with the name has it, and no scope further in does. -/
theorem nearest_eq_some {c : Scope.Context} {d : Nat} (h : nearest x c.names = some d) :
    (∃ scope, c.scopes[d]? = some scope ∧ scope.has x = true) ∧ ∀ scope ∈ c.scopes.take d, scope.has x = false := by
  rw [nearest_names] at h
  obtain ⟨lt, has, inner⟩ := List.findIdx?_eq_some_iff_getElem.1 h
  refine ⟨⟨c.scopes[d], List.getElem?_eq_getElem lt, has⟩, fun scope hs => ?_⟩
  obtain ⟨i, hi, rfl⟩ := List.mem_take_iff_getElem.1 hs
  simpa using inner i (by omega)

theorem nearest_eq_none {c : Scope.Context} (h : nearest x c.names = none) : ∀ scope ∈ c.scopes, scope.has x = false := by
  rw [nearest_names] at h
  exact fun scope hs => List.findIdx?_eq_none_iff.1 h scope hs

theorem forall₂_getElem? {α β : Type} {R : α → β → Prop} {as : List α} {bs : List β} (h : List.Forall₂ R as bs)
    {i : Nat} {a : α} (ha : as[i]? = some a) : ∃ b, bs[i]? = some b ∧ R a b := by
  induction h generalizing i with
  | nil => simp at ha
  | cons first _ ih =>
    cases i with
    | zero =>
      cases ha
      exact ⟨_, rfl, first⟩
    | succ i => exact ih ha

end Sites

/-- The frame at a distance is the one that was opened for the innermost scope with the name, and an assignment there
changes it. -/
structure LeadsTo (t : Trace) (s : Machine.State) (site : Site) (x : String) (d : Nat) (f : Ref .frame) : Prop where
  ancestor : s.store.frames.ancestor s.frame d = some f
  notGlobal : f ≠ Store.globals
  region : ∃ region, site.regions[d]? = some region ∧ ∀ region', .opened f region' ∈ t ↔ region' = region
  scope : ∃ scope, site.context.scopes[d]? = some scope ∧ scope.has x = true
  inner : ∀ scope ∈ site.context.scopes.take d, scope.has x = false
  assigns : ∀ v, s.store.frames.assignAt s.frame d x v = some (s.store.frames.define f x v)

section Resolved

variable {t : Trace} {s : Machine.State} {next : Nat} {id : NodeId} {x : String} {site : Site} {frames : List (Ref .frame)}

theorem Surrounds.leadsTo (h : Surrounds t s site frames) (layout : Layout t s.store) {d : Nat}
    (hd : nearest x site.names = some d) : ∃ f, frames[d]? = some f ∧ LeadsTo t s site x d f := by
  obtain ⟨⟨scope, hs, has⟩, inner⟩ := nearest_eq_some hd
  have lt : d < frames.length := by
    rw [h.count]
    exact (List.getElem?_eq_some_iff.1 hs).1
  have hf : frames[d]? = some frames[d] := List.getElem?_eq_getElem lt
  obtain ⟨ancestor, notGlobal⟩ := h.chain.ancestor hf
  obtain ⟨region, hr, opened⟩ := forall₂_getElem? h.opened hf
  refine ⟨frames[d], hf, ancestor, notGlobal, ⟨region, hr, fun region' => ⟨fun ho => ?_, ?_⟩⟩, ⟨scope, hs, has⟩, inner,
    fun v => ?_⟩
  · exact layout.single _ _ _ ho opened
  · rintro rfl
    exact opened
  · rw [Frames.assignAt, ancestor]
    rfl

/-- Everything about the site of a node that is evaluated. -/
theorem Machine.Aligned.surroundings (h : Aligned t s) (recorded : Recorded t s.distances next)
    (node : s.node? = some (id, x)) :
    ∃ site frames, StandsAt t id x site ∧ Surrounds t s site frames ∧ s.distances.get? id = nearest x site.names ∧
      Fits t s.store.frames [] s.frame site.regions site.names := by
  have sane := h.layout.sane
  obtain ⟨site, visited, hn, fits⟩ := h.site node
  obtain ⟨frames, chain, opened, count⟩ := fits.chain h.layout.outermost
  refine ⟨site, frames, ⟨visited, hn, fun site' visited' y hn' => ?_⟩, ⟨chain, ?_, opened⟩, ?_, fits⟩
  · exact recorded.unique sane visited' visited hn' hn
  · rw [count]
    exact Scope.length_names _
  · exact recorded.distance sane visited hn

end Resolved

section Example

/-- A variable whose initial value reads it from within a function. -/
def selfReader : String := "\x7b var a = fun () \x7b return a; \x7d(); \x7d"

def selfReaderProgram : List Stmt :=
  [.block [.var ⟨"a", 1⟩ (some (.call (.lambda ⟨⟨"fun", 1⟩, [], [.return 1 (some (.variable 0 ⟨"a", 1⟩))]⟩) [] 1))]]

/-- The function comes to its variable, which is one frame out and has no value yet. -/
theorem selfReader_life (console : Console) :
    ∃ t session s, Life Host.empty t (.running session s) ∧ s.node? = some (0, "a") ∧ s.distances.get? 0 = some 1 ∧
      (Machine.step Host.empty s).control = .raise (.runtime 1 (.undefinedVariable "a")) := by
  obtain ⟨⟨world, reporter, next⟩, check, rfl, -, -⟩ := @Session.check_program_ok (.withConsole console) selfReader
    selfReaderProgram 1 rfl (by cbv) (by cbv) (by cbv)
  have fresh : Life Host.empty _ _ := .fresh console
  have life := fresh.accept check
  have life := life.step.step.step.step.step.step.step.step.step.step.step
  refine ⟨_, _, _, life, ?_, ?_, ?_⟩
  · rfl
  · cbv
  · cbv

end Example

/-- In every state of every run the distance of the node that is evaluated leads to the frame of the scope in which the
analysis found the name, and a node without a distance has its name in no scope around it. -/
theorem distances_lead_to_own_frames {host : Host} (lawful : host.Lawful) {t : Trace} {session : Session}
    {s : Machine.State} (life : Life host t (.running session s)) {id : NodeId} {x : String}
    (node : s.node? = some (id, x)) :
    ∃ site frames, StandsAt t id x site ∧ Surrounds t s site frames ∧
      (∀ d, s.distances.get? id = some d →
        ∃ f, frames[d]? = some f ∧ LeadsTo t s site x d f ∧ s.target? id x = some f) ∧
      (s.distances.get? id = none → ∀ scope ∈ site.context.scopes, scope.has x = false) := by
  obtain ⟨aligned, recorded⟩ := life.aligned lawful
  obtain ⟨site, frames, stands, surrounds, distance, -⟩ := aligned.surroundings recorded node
  refine ⟨site, frames, stands, surrounds, fun d hd => ?_, fun hd => ?_⟩
  · obtain ⟨f, hf, leads⟩ := surrounds.leadsTo aligned.layout (distance.symm.trans hd)
    refine ⟨f, hf, leads, ?_⟩
    simp only [Machine.State.target?, hd]
    exact leads.ancestor
  · exact nearest_eq_none (distance.symm.trans hd)

/-- The function finds its variable in the frame of the block. -/
theorem distances_lead_to_own_frames_selfReader :
    ∃ t session s site frames f, Life Host.empty t (.running session s) ∧ s.node? = some (0, "a") ∧
      StandsAt t 0 "a" site ∧ Surrounds t s site frames ∧ frames[1]? = some f ∧ LeadsTo t s site "a" 1 f := by
  obtain ⟨t, session, s, life, node, distance, -⟩ := selfReader_life ⟨#[], [], true, .zero⟩
  obtain ⟨site, frames, stands, surrounds, leads, -⟩ := distances_lead_to_own_frames Host.empty_lawful life node
  obtain ⟨f, hf, leads, -⟩ := leads 1 distance
  exact ⟨t, session, s, site, frames, f, life, node, stands, surrounds, hf, leads⟩

/-- The initial value of a variable that is declared in the frame's region has been begun there and has not ended. -/
structure Initializing (t : Trace) (f : Ref .frame) (x : String) : Prop where
  declared : Initialized t f x
  begun : .begun f x ∈ t
  unfinished : .ended f x ∉ t

section Bound

variable {t : Trace} {s : Machine.State} {next : Nat} {id : NodeId} {x : String} {d : Nat}

/-- At its distance a resolved name is bound, or its initial value is being computed. -/
theorem Machine.Aligned.resolved (h : Aligned t s) (recorded : Recorded t s.distances next)
    (node : s.node? = some (id, x)) (hd : s.distances.get? id = some d) :
    ∃ f, s.store.frames.ancestor s.frame d = some f ∧
      (s.store.frames.Bound f x ∨ x ≠ "this" ∧ Initializing t f x) := by
  obtain ⟨site, frames, -, surrounds, distance, fits⟩ := h.surroundings recorded node
  obtain ⟨f, hf, leads⟩ := surrounds.leadsTo h.layout (distance.symm.trans hd)
  refine ⟨f, leads.ancestor, ?_⟩
  obtain ⟨scope, hs, has⟩ := leads.scope
  have hn : site.names[d]? = some (scope.map Scope.Entry.name) := by
    simp only [Site.names, Scope.Context.names, List.getElem?_map, hs, Option.map_some]
  by_cases bound : s.store.frames.Bound f x
  · exact .inl bound
  · have begun := (fits.touched surrounds.chain hf hn (Scope.has_iff_mem.1 has)).resolve_left bound
    obtain ⟨notThis, initialized⟩ := h.layout.begun f x begun
    refine .inr ⟨notThis, initialized leads.notGlobal, begun, fun ended => ?_⟩
    exact bound (h.layout.ended f x ended leads.notGlobal)

theorem Machine.State.lookup_of_ancestor {f : Ref .frame} (hd : s.distances.get? id = some d)
    (hf : s.store.frames.ancestor s.frame d = some f) : s.lookup id x = s.store.frames.fetch f x := by
  simp only [Machine.State.lookup, hd, Frames.getAt, hf, Option.bind_some]

theorem Machine.State.target?_of_ancestor {f : Ref .frame} (hd : s.distances.get? id = some d)
    (hf : s.store.frames.ancestor s.frame d = some f) : s.target? id x = some f := by
  simp only [Machine.State.target?, hd, hf]

end Bound

/-- Evaluating a resolved name fails for want of a value only for a variable whose initial value is being computed in the
frame at that distance; any other read finds a value, and no assignment fails. -/
theorem resolved_names_are_bound {host : Host} (lawful : host.Lawful) {t : Trace} {session : Session}
    {s : Machine.State} (life : Life host t (.running session s)) {id : NodeId} {x : String}
    (node : s.node? = some (id, x)) {d : Nat} (hd : s.distances.get? id = some d) :
    ∃ f, s.store.frames.ancestor s.frame d = some f ∧
      (∀ line y, (Machine.step host s).control = .raise (.runtime line (.undefinedVariable y)) →
        y = x ∧ Initializing t f x ∧
          ∃ name, s.control = .evaluate (.variable id name) ∨ ∃ op, s.control = .evaluate (.suffix id name op)) ∧
      (¬ Initializing t f x → ∃ v, s.lookup id x = some v) ∧
      ∀ v name rest, s.control = .value v → s.pending = .assign id name :: rest →
        (Machine.step host s).control = .value v := by
  obtain ⟨aligned, recorded⟩ := life.aligned lawful
  obtain ⟨f, hf, bound⟩ := aligned.resolved recorded node hd
  have lookup : s.lookup id x = s.store.frames.fetch f x := Machine.State.lookup_of_ancestor hd hf
  have target : s.target? id x = some f := Machine.State.target?_of_ancestor hd hf
  have missing (hl : s.lookup id x = none) : x ≠ "this" ∧ Initializing t f x := by
    refine bound.resolve_left fun hb => ?_
    rw [lookup] at hl
    simp [Frames.Bound, hl] at hb
  have assigns (v : Value) (name : Name) (rest : List Machine.Pending) (hc : s.control = .value v)
      (hp : s.pending = .assign id name :: rest) : (Machine.step host s).control = .value v := by
    simp only [Machine.step, hc, hp, Machine.resume, Machine.State.target?, hd, hf]
    rfl
  refine ⟨f, hf, fun line y fails => ?_, fun idle => ?_, assigns⟩
  · unfold Machine.State.node? at node
    split at node
    · next e hc =>
      simp only [Machine.step, hc] at fails
      cases e with
      | «variable» id' name =>
        cases node
        simp only [Machine.evaluate] at fails
        split at fails
        · cases fails
        · next hl =>
          cases fails
          exact ⟨rfl, (missing hl).2, name, .inl hc⟩
      | suffix id' name op =>
        cases node
        simp only [Machine.evaluate, target] at fails
        split at fails
        · next hl =>
          cases fails
          exact ⟨rfl, (missing hl).2, name, .inr ⟨op, hc⟩⟩
        · cases fails
        · cases fails
      | this id' line' =>
        cases node
        simp only [Machine.evaluate] at fails
        split at fails
        · cases fails
        · next hl => exact absurd rfl (missing hl).1
      | assign id' name value => cases fails
      | _ => cases node
    · next v id' name rest hc hp =>
      cases node
      rw [assigns v name rest hc hp] at fails
      cases fails
    · cases node
  · rw [lookup]
    exact Option.isSome_iff_exists.1 (bound.resolve_right fun h => idle h.2)

/-- The function reads its variable while the initial value is being computed. -/
theorem resolved_names_are_bound_selfReader :
    ∃ t session s f, Life Host.empty t (.running session s) ∧ s.node? = some (0, "a") ∧ s.distances.get? 0 = some 1 ∧
      s.store.frames.ancestor s.frame 1 = some f ∧ Initializing t f "a" := by
  obtain ⟨t, session, s, life, node, distance, fails⟩ := selfReader_life ⟨#[], [], true, .zero⟩
  obtain ⟨f, ancestor, reads, -, -⟩ := resolved_names_are_bound Host.empty_lawful life node distance
  obtain ⟨-, initializing, -⟩ := reads 1 "a" fails
  exact ⟨t, session, s, f, life, node, distance, ancestor, initializing⟩

end Scriptlet
