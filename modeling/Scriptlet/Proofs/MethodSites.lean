import Scriptlet.Proofs.AnalysisAccord
import Scriptlet.Proofs.SiteNames

/-!
Methods around a site. The analysis lets `this` stand only where the class body around it has a receiver, and every such
site lies in a method: going outward from the site one comes to the region of the method's call and right around it to
that of its receiver, before any other region of a receiver. The scopes that have `this` are exactly the scopes of those
regions, so the distance of a node `this` is that of the innermost method's receiver.
-/
namespace Scriptlet.Scope

open Analysis
open Scriptlet.Part (exprChildren AllShaped)

/-- The method whose receiver a region is for. -/
def Region.method? : Region → Option Routine
  | .receiver m => some m
  | _ => none

/-- The method is the innermost one around what lies in the regions. -/
def Within (m : Routine) (regions : List Region) : Prop :=
  ∃ inner outer, regions = inner ++ .call m :: .receiver m :: outer ∧ ∀ region ∈ inner, region.method? = none

/-- The scopes that have `this` are those of receivers. -/
def Marked (regions : List Region) (names : List (List String)) : Prop :=
  List.Forall₂ (fun region ns => region.method?.isSome = true ↔ "this" ∈ ns) regions names

/-- What may stand between a site and the method that its receiver is for. -/
structure Site.Received (s : Site) : Prop where
  marked : Marked s.regions s.names
  /-- Only a method stands right in the region of its receiver. -/
  direct : ∀ m outer, s.regions = .receiver m :: outer → ∃ kind, s.part = .routine kind m
  owner : s.context.receiver = .object → (∃ m, Within m s.regions) ∨ ∃ m outer, s.regions = .receiver m :: outer

/-- The receiver is the same, and names other than `this` may have been added to the innermost scope. -/
structure Continues (c c' : Context) : Prop where
  receiver : c'.receiver = c.receiver
  names : ∃ ds, "this" ∉ ds ∧ c'.names = extend ds c.names

section Continues

variable {c c' c'' : Context} {a a' : Analysis Unit} {ds : List String}

theorem Continues.refl (c : Context) : Continues c c := ⟨rfl, [], List.not_mem_nil, (extend_nil _).symm⟩

theorem Continues.trans (h : Continues c c') (h' : Continues c' c'') : Continues c c'' := by
  obtain ⟨ds, this, names⟩ := h.names
  obtain ⟨ds', this', names'⟩ := h'.names
  refine ⟨h'.receiver.trans h.receiver, ds ++ ds', ?_, ?_⟩
  · rw [List.mem_append]
    exact not_or_intro this this'
  · rw [names', names, extend_extend]

theorem continues_after (accords : Accords (fun _ _ => True) a a') (declares : Declares ds a) (this : "this" ∉ ds)
    (passes : Passes a c) : Continues c (after a c) :=
  ⟨(accords c c ⟨rfl, rfl, rfl, trivial⟩).receiver, ds, this, declares.names_after passes⟩

theorem continues_declare {name : Name} (this : name.text ≠ "this") (passes : Passes (declare name) c) :
    Continues c (after (declare name) c) :=
  continues_after (accords_declare (rfl : name.text = name.text)) (declares_declare name) (by simpa using this.symm)
    passes

theorem continues_named {name : Name} (this : name.text ≠ "this") (passes : Passes (do declare name; define name) c) :
    Continues c (after (do declare name; define name) c) := by
  have same : name.text = name.text := rfl
  exact continues_after ((accords_declare same).bind (accords_define same)) (declares_named name)
    (by simpa using this.symm) passes

/-- What the grammar lets a part declare is never `this`. -/
theorem this_notMem_declaredNames {p : Part} (h : p.Shaped) : "this" ∉ declaredNames p := by
  have one {s : Stmt} (hs : (Part.stmt s).Shaped) : "this" ∉ (Part.declared? s).toList.map Name.text := by
    intro there
    obtain ⟨name, declared, same⟩ := List.mem_map.1 there
    have declared := Option.mem_toList.1 declared
    have tidy := hs.tidy
    cases s with
    | var | function | «class» => exact tidy name declared same
    | _ => cases declared
  cases p with
  | stmt s => exact one h
  | stmts ss =>
    induction ss with
    | nil => exact List.not_mem_nil
    | cons s ss ih =>
      intro there
      rcases List.mem_append.1 there with there | there
      · exact one (h.child (.head _)) there
      · exact ih (h.child (.tail _ (.head _))) there
  | _ => exact List.not_mem_nil

theorem continues_analysis {p : Part} (shaped : p.Shaped) (passes : Passes (analysis p) c) :
    Continues c (after (analysis p) c) :=
  continues_after (accords_analysis (ρ := .unlined) (fun _ _ _ _ _ => trivial) p) (declares_analysis p shaped)
    (this_notMem_declaredNames shaped) passes

theorem continues_analyses {ps : List Part} (shaped : AllShaped ps) (passes : Passes (analyses ps) c) :
    Continues c (after (analyses ps) c) := by
  induction ps generalizing c with
  | nil => exact .refl c
  | cons p ps ih =>
    obtain ⟨first, others⟩ := List.forall_mem_cons.1 shaped
    obtain ⟨pass, passes⟩ := passes_seq.1 passes
    rw [analyses_cons, after_seq pass]
    exact (continues_analysis first pass).trans (ih others passes)

/-- Parts that are analysed one after the other. -/
theorem continues_along {ps : List Part} {regions : Part → List Region} (shaped : AllShaped ps)
    (passes : Passes (analyses ps) c) {q : Site} (hq : q ∈ along regions c ps) :
    q.regions = regions q.part ∧ Continues c q.context := by
  induction ps generalizing c with
  | nil => cases hq
  | cons p ps ih =>
    obtain ⟨first, others⟩ := List.forall_mem_cons.1 shaped
    obtain ⟨pass, passes⟩ := passes_seq.1 passes
    rcases List.mem_cons.1 hq with rfl | hq
    · exact ⟨rfl, .refl c⟩
    · obtain ⟨same, later⟩ := ih others passes hq
      exact ⟨same, (continues_analysis first pass).trans later⟩

end Continues

/-- How a site lies below another: in the same regions, in the body of a routine or a block, or as a method with a region
for its receiver. -/
inductive Below (s q : Site) : Prop
  | same : (∀ kind r, s.part ≠ .routine kind r) → q.regions = s.regions →
      (q.context.receiver = s.context.receiver ∨ q.context.receiver = .static) →
      (∃ ds, "this" ∉ ds ∧ q.names = extend ds s.names) → Below s q
  | body (kind : RoutineKind) (r : Routine) (ns : List String) : s.part = .routine kind r →
      q.regions = .call r :: s.regions → q.context.receiver = s.context.receiver → "this" ∉ ns →
      q.names = ns :: s.names → Below s q
  | block (ss : List Stmt) : s.part = .stmt (.block ss) → q.regions = .block ss :: s.regions →
      q.context.receiver = s.context.receiver → q.names = [] :: s.names → Below s q
  | method (kind : RoutineKind) (m : Routine) (ns ds : List String) : q.part = .routine kind m →
      q.regions = .receiver m :: s.regions → "this" ∈ ns → "this" ∉ ds → q.names = ns :: extend ds s.names → Below s q

section Below

variable {s q : Site}

theorem Continues.below {c : Context} (h : Continues s.context c) (hs : ∀ kind r, s.part ≠ .routine kind r)
    (regions : q.regions = s.regions ∧ Continues c q.context) : Below s q := by
  have all := h.trans regions.2
  exact .same hs regions.1 (.inl all.receiver) all.names

theorem class_below {d : ClassDeclaration} {rs : List Region} {c : Context}
    (h : (⟨.stmt (.class d), rs, c⟩ : Site).Good) (hq : q ∈ Site.parts ⟨.stmt (.class d), rs, c⟩) :
    Below ⟨.stmt (.class d), rs, c⟩ q := by
  obtain ⟨hn, hb, hs, hm, -⟩ := passes_class h.passes
  have shaped (p : Part) (hp : p ∈ (Part.stmt (.class d)).children) : p.Shaped := h.shaped.child hp
  obtain ⟨shaped, shapedM⟩ := List.forall_mem_append.1 shaped
  obtain ⟨shapedB, shapedS⟩ := List.forall_mem_append.1 shaped
  have named : Continues c (afterName d c) := continues_named (h.shaped.tidy d.name rfl) hn
  have based : Continues c (afterBase d c) := named.trans (continues_analyses shapedB hb)
  have static {c' : Context} (h' : Continues { afterBase d c with receiver := .static } c') :
      ∃ ds, "this" ∉ ds ∧ c'.names = extend ds c.names := by
    have alike : Continues (afterBase d c) { c' with receiver := (afterBase d c).receiver } := ⟨rfl, h'.names⟩
    exact (based.trans alike).names
  rcases List.mem_append.1 hq with hq | hq
  · rcases List.mem_append.1 hq with hq | hq
    · exact named.below nofun (continues_along shapedB hb hq)
    · obtain ⟨regions, later⟩ := continues_along shapedS hs hq
      exact .same nofun regions (.inr later.receiver) (static later)
  · have inner : Passes (analyses (Part.methods d.methods))
        ({ afterStatics d c with receiver := .object }.inside receiverScope) := hm
    obtain ⟨regions, later⟩ := continues_along shapedM inner hq
    obtain ⟨m, -, hp⟩ := List.mem_map.1 (part_mem_of_mem_along hq)
    obtain ⟨es, -, names⟩ := later.names
    have statics : Continues { afterBase d c with receiver := .static } { afterStatics d c with receiver := .static } :=
      ⟨rfl, (continues_analyses shapedS hs).names⟩
    obtain ⟨ds, this, names'⟩ := static statics
    refine .method _ m ("this" :: es) ds hp.symm ?_ (.head _) this ?_
    · rw [regions, ← hp]
      rfl
    · change q.names = _ at names
      rw [names]
      exact congrArg (("this" :: es) :: ·) names'

theorem Site.Good.below (h : s.Good) (hq : q ∈ s.parts) : Below s q := by
  have passes := h.passes
  have shaped : AllShaped s.part.children := fun p hp => h.shaped.child hp
  have tidy := h.shaped.tidy
  obtain ⟨part, rs, c⟩ := s
  dsimp only at passes
  cases part with
  | expr e => exact Continues.below (.refl c) nofun (continues_along shaped (passes_exprChildren passes) hq)
  | stmts ss =>
    rw [analysis_stmts] at passes
    exact Continues.below (.refl c) nofun (continues_along shaped passes hq)
  | routine kind r =>
    obtain rfl := List.mem_singleton.1 hq
    rw [analysis_routine] at passes
    have passes : Passes (do parameters r.params; analysis (.stmts r.body); warnUnreachable r.body)
        ({ c with routine := some kind }.inside []) := passes
    obtain ⟨ps, -⟩ := passes_seq.1 passes
    refine .body kind r (r.params.map Name.text) rfl rfl ?_ ?_ ((declares_parameters r.params).names_after ps)
    · have accords : Accords (fun _ _ => True) (parameters r.params) _ := accords_parameters .unlined r.params
      exact (accords _ _ ⟨rfl, rfl, rfl, trivial⟩).receiver
    · intro there
      obtain ⟨name, hn, same⟩ := List.mem_map.1 there
      exact tidy name hn same
  | stmt x =>
    by_cases simple : isSimple x = true
    · rw [analysis_simple simple] at passes
      have parts : Site.parts ⟨.stmt x, rs, c⟩ = along (fun _ => rs) c (Part.stmtChildren x) := by
        cases x <;> first | rfl | cases simple
      rw [parts] at hq
      exact Continues.below (.refl c) nofun (continues_along shaped passes hq)
    · cases x with
      | var name e? =>
        rw [analysis_var] at passes
        obtain ⟨declared, passes⟩ := passes_seq.1 passes
        obtain ⟨initial, -⟩ := passes_seq.1 passes
        exact (continues_declare (tidy name rfl) declared).below nofun (continues_along shaped initial hq)
      | block ss =>
        obtain rfl := List.mem_singleton.1 hq
        exact .block ss rfl rfl rfl rfl
      | function r =>
        rw [analysis_function] at passes
        obtain ⟨named, passes⟩ := passes_named.1 passes
        rw [← analyses_one] at passes
        have hq : q ∈ along (fun _ => rs) (Scope.after (do declare r.name; define r.name) c) [.routine .function r] := hq
        have there := continues_along shaped passes hq
        exact (continues_named (tidy r.name rfl) named).below nofun there
      | «return» line e? =>
        have passes : Passes (analyses (e?.toList.map .expr)) c :=
          (congrArg Prod.fst (analysis_return passes)).symm.trans passes
        exact Continues.below (.refl c) nofun (continues_along shaped passes hq)
      | «class» d => exact class_below h hq
      | _ => exact absurd rfl simple

end Below

section Received

variable {root s q : Site}

theorem Marked.extend {regions : List Region} {names : List (List String)} {ds : List String} (h : Marked regions names)
    (this : "this" ∉ ds) : Marked regions (extend ds names) := by
  cases h with
  | nil => exact .nil
  | cons first others =>
    refine .cons (first.trans ?_) others
    rw [List.mem_append, or_iff_left this]

theorem Within.cons {m : Routine} {regions : List Region} (h : Within m regions) {region : Region}
    (other : region.method? = none) : Within m (region :: regions) := by
  obtain ⟨inner, outer, rfl, plain⟩ := h
  exact ⟨region :: inner, outer, rfl, List.forall_mem_cons.2 ⟨other, plain⟩⟩

/-- A part that is no routine has its receiver from a method around it. -/
theorem Site.Received.within (h : s.Received) (hs : ∀ kind r, s.part ≠ .routine kind r)
    (object : s.context.receiver = .object) : ∃ m, Within m s.regions := by
  refine (h.owner object).resolve_right ?_
  rintro ⟨m, outer, regions⟩
  obtain ⟨kind, part⟩ := h.direct m outer regions
  exact hs kind m part

theorem Site.Received.below (h : s.Received) (below : Below s q) : q.Received := by
  cases below with
  | same hs regions receiver names =>
    obtain ⟨ds, this, names⟩ := names
    refine ⟨?_, fun m outer here => ?_, fun object => ?_⟩
    · rw [regions, names]
      exact h.marked.extend this
    · obtain ⟨kind, part⟩ := h.direct m outer (regions ▸ here)
      exact absurd part (hs kind m)
    · rw [regions]
      rcases receiver with same | static
      · exact .inl (h.within hs (same ▸ object))
      · rw [static] at object
        cases object
  | body kind r ns part regions receiver this names =>
    refine ⟨?_, fun m outer here => ?_, fun object => ?_⟩
    · rw [regions, names]
      exact .cons (iff_of_false Bool.false_ne_true this) h.marked
    · rw [regions] at here
      cases here
    · rw [regions]
      rcases h.owner (receiver ▸ object) with ⟨m, within⟩ | ⟨m, outer, direct⟩
      · exact .inl ⟨m, within.cons rfl⟩
      · obtain ⟨kind', part'⟩ := h.direct m outer direct
        cases part.symm.trans part'
        rw [direct]
        exact .inl ⟨r, [], outer, rfl, nofun⟩
  | block ss part regions receiver names =>
    refine ⟨?_, fun m outer here => ?_, fun object => ?_⟩
    · rw [regions, names]
      exact .cons (iff_of_false Bool.false_ne_true List.not_mem_nil) h.marked
    · rw [regions] at here
      cases here
    · have hs (kind : RoutineKind) (r : Routine) : s.part ≠ .routine kind r := by
        rw [part]
        nofun
      obtain ⟨m, within⟩ := h.within hs (receiver ▸ object)
      rw [regions]
      exact .inl ⟨m, within.cons rfl⟩
  | method kind m ns ds part regions this other names =>
    refine ⟨?_, fun m' outer here => ?_, fun _ => ?_⟩
    · rw [regions, names]
      exact .cons (iff_of_true rfl this) (h.marked.extend other)
    · rw [regions] at here
      cases here
      exact ⟨kind, part⟩
    · rw [regions]
      exact .inr ⟨m, _, rfl⟩

theorem Visits.received (h : Visits root s) (good : root.Good) (outer : root.Received) : s.Received := by
  induction h with
  | root => exact outer
  | part visits hq ih => exact ih.below ((visits.good good).1.below hq)

/-- Where `this` passes the analysis there is a receiver. -/
theorem Site.Good.object {id : NodeId} {line : Nat} (h : s.Good) (part : s.part = .expr (.this id line)) :
    s.context.receiver = .object := by
  have passes := h.passes
  obtain ⟨p, regions, scopes, routine, receiver, warnings, distances⟩ := s
  subst part
  cases receiver with
  | none => cases passes
  | static => cases passes
  | object => rfl

/-- The nearest scope with `this` is that of the innermost region for a receiver. -/
theorem Marked.nearest {inner outer : List Region} {region : Region} {names : List (List String)}
    (h : Marked (inner ++ region :: outer) names) (plain : ∀ r ∈ inner, r.method? = none)
    (receiver : region.method?.isSome = true) : nearest "this" names = some inner.length := by
  induction inner generalizing names with
  | nil =>
    cases h with
    | cons here _ => simp [Scope.nearest, List.findIdx?_cons, here.1 receiver]
  | cons r inner ih =>
    obtain ⟨other, others⟩ := List.forall_mem_cons.1 plain
    cases h with
    | @cons _ ns _ nss here rest =>
      have absent : "this" ∉ ns := by simpa [other] using here
      have found := ih rest others
      unfold Scope.nearest at found ⊢
      simp [List.findIdx?_cons, absent, found]

theorem Within.nearest {m : Routine} {regions : List Region} {names : List (List String)} (h : Within m regions)
    (marked : Marked regions names) : ∃ inner outer, regions = inner ++ .call m :: .receiver m :: outer ∧
      (∀ region ∈ inner, region.method? = none) ∧ nearest "this" names = some (inner.length + 1) := by
  obtain ⟨inner, outer, rfl, plain⟩ := h
  refine ⟨inner, outer, rfl, plain, ?_⟩
  rw [List.append_cons] at marked
  have found := marked.nearest (List.forall_mem_append.2 ⟨plain, by simp [Region.method?]⟩) rfl
  rwa [List.length_append] at found

end Received

end Scriptlet.Scope
