import Mathlib.Data.List.Nodup
import Mathlib.Data.List.Pairwise
import Scriptlet.Proofs.Sites

/-!
The names that are in scope at the sites below a site, and the regions there. Only the sites within a block, a routine
or a method lie in other regions than the site above them.
-/
namespace Scriptlet.Scope

open Analysis
open Scriptlet.Part (children exprChildren stmtChildren node? declared? Shaped AllShaped idsOf)

/-- Right below the site the analysis comes to the part, in these regions and with these names in scope. -/
def Site.Holds (s : Site) (p : Part) (regions : List Region) (names : List (List String)) : Prop :=
  ∃ q ∈ s.parts, q.part = p ∧ q.regions = regions ∧ q.names = names

/-- Where the parts declare nothing, the names in scope are the same for all of them. -/
theorem along_of_mem (regions : Part → List Region) {c : Context} {ps : List Part} {p : Part}
    (hp : Passes (analyses ps) c) (hs : AllShaped ps) (hd : ∀ q ∈ ps, declaredNames q = []) (hm : p ∈ ps) :
    ∃ q ∈ along regions c ps, q.part = p ∧ q.regions = regions p ∧ q.names = c.names := by
  induction ps generalizing c with
  | nil => cases hm
  | cons q ps ih =>
    obtain ⟨first, later⟩ := passes_seq.1 hp
    obtain ⟨shaped, shapeds⟩ := List.forall_mem_cons.1 hs
    obtain ⟨none, nones⟩ := List.forall_mem_cons.1 hd
    rcases List.mem_cons.1 hm with rfl | hm
    · exact ⟨_, .head _, rfl, rfl, rfl⟩
    · obtain ⟨q', hq', hpart, hregions, hnames⟩ := ih later shapeds nones hm
      refine ⟨q', .tail _ hq', hpart, hregions, hnames.trans ?_⟩
      rw [(declares_analysis q shaped).names_after first, none, extend_nil]

theorem passes_exprChildren {e : Expr} {c : Context} (h : Passes (analysis (.expr e)) c) :
    Passes (analyses (exprChildren e)) c := by
  by_cases hn : node? (.expr e) = none
  · rwa [analysis_expr hn] at h
  · cases e with
    | assign id name e =>
      have h : Passes (do analysis (.expr e); bindNode id name.text) c := h
      obtain ⟨first, -⟩ := passes_seq.1 h
      rw [← analyses_one] at first
      exact first
    | «variable» id name => rfl
    | suffix id name op => rfl
    | this id line => rfl
    | _ => exact absurd rfl hn

variable {s : Site}

theorem Site.Good.holds_expr {e : Expr} {p : Part} (h : s.Good) (hs : s.part = .expr e) (hp : p ∈ exprChildren e) :
    s.Holds p s.regions s.names := by
  obtain ⟨part, rs, c⟩ := s
  subst hs
  exact along_of_mem _ (passes_exprChildren h.passes) (fun q hq => h.shaped.child hq) declaredNames_exprChildren hp

theorem Site.Good.holds_head {x : Stmt} {xs : List Stmt} (hs : s.part = .stmts (x :: xs)) :
    s.Holds (.stmt x) s.regions s.names := by
  obtain ⟨part, rs, c⟩ := s
  subst hs
  exact ⟨_, .head _, rfl, rfl, rfl⟩

theorem Site.Good.holds_tail {x : Stmt} {xs : List Stmt} (h : s.Good) (hs : s.part = .stmts (x :: xs)) :
    s.Holds (.stmts xs) s.regions (extend (declaredNames (.stmt x)) s.names) := by
  obtain ⟨part, rs, c⟩ := s
  subst hs
  have passes := h.passes
  dsimp only at passes
  rw [analysis_stmts] at passes
  obtain ⟨first, -⟩ := passes_seq.1 passes
  refine ⟨_, .tail _ (.head _), rfl, rfl, ?_⟩
  exact (declares_analysis (.stmt x) (h.shaped.child (.head _))).names_after first

/-- The parts of a statement that neither declares anything nor has a region of its own. -/
def Plain : Stmt → Prop
  | .expression _ | .print _ | .conditional _ _ _ | .loop _ _ | .return _ _ => True
  | _ => False

theorem declaredNames_plain {x : Stmt} (hx : Plain x) (tidy : (Part.stmt x).Tidy) :
    ∀ q ∈ stmtChildren x, declaredNames q = [] := by
  cases x with
  | expression e | print e | «return» line e? => simp [stmtChildren, declaredNames]
  | conditional e yes no =>
    obtain ⟨hy, hn⟩ := tidy
    cases no with
    | none => simp [stmtChildren, declaredNames, hy]
    | some no => simp [stmtChildren, declaredNames, hy, hn no rfl]
  | loop e body =>
    have hb : declared? body = none := tidy
    simp [stmtChildren, declaredNames, hb]
  | _ => cases hx

theorem passes_plain {x : Stmt} {c : Context} (hx : Plain x) (h : Passes (analysis (.stmt x)) c) :
    Passes (analyses (stmtChildren x)) c := by
  cases x with
  | expression e => rwa [analysis_simple rfl] at h
  | print e => rwa [analysis_simple rfl] at h
  | conditional e yes no => rwa [analysis_simple rfl] at h
  | loop e body => rwa [analysis_simple rfl] at h
  | «return» line e? => exact (congrArg Prod.fst (analysis_return h)).symm.trans h
  | _ => cases hx

theorem Site.Good.holds_plain {x : Stmt} {p : Part} (h : s.Good) (hs : s.part = .stmt x) (hx : Plain x)
    (hp : p ∈ stmtChildren x) : s.Holds p s.regions s.names := by
  obtain ⟨part, rs, c⟩ := s
  subst hs
  have parts : Site.parts ⟨.stmt x, rs, c⟩ = along (fun _ => rs) c (stmtChildren x) := by
    cases x <;> first | rfl | cases hx
  have below := along_of_mem (fun _ => rs) (passes_plain hx h.passes) (fun q hq => h.shaped.child hq)
    (declaredNames_plain hx h.shaped.tidy) hp
  unfold Site.Holds
  rw [parts]
  exact below

theorem Site.Good.holds_var {name : Name} {e : Expr} (h : s.Good) (hs : s.part = .stmt (.var name (some e))) :
    s.Holds (.expr e) s.regions (extend [name.text] s.names) := by
  obtain ⟨part, rs, c⟩ := s
  subst hs
  have passes := h.passes
  dsimp only at passes
  rw [analysis_var] at passes
  obtain ⟨declared, -⟩ := passes_seq.1 passes
  exact ⟨_, .head _, rfl, rfl, (declares_declare name).names_after declared⟩

theorem Site.Good.holds_function {r : Routine} (h : s.Good) (hs : s.part = .stmt (.function r)) :
    s.Holds (.routine .function r) s.regions (extend [r.name.text] s.names) := by
  obtain ⟨part, rs, c⟩ := s
  subst hs
  have passes := h.passes
  dsimp only at passes
  rw [analysis_function] at passes
  obtain ⟨named, -⟩ := passes_named.1 passes
  exact ⟨_, .head _, rfl, rfl, (declares_named r.name).names_after named⟩

theorem Site.Good.holds_block {ss : List Stmt} (hs : s.part = .stmt (.block ss)) :
    s.Holds (.stmts ss) (.block ss :: s.regions) ([] :: s.names) := by
  obtain ⟨part, rs, c⟩ := s
  subst hs
  exact ⟨_, .head _, rfl, rfl, rfl⟩

theorem Site.Good.holds_routine {kind : RoutineKind} {r : Routine} (h : s.Good) (hs : s.part = .routine kind r) :
    s.Holds (.stmts r.body) (.call r :: s.regions) (r.params.map Name.text :: s.names) := by
  obtain ⟨part, rs, c⟩ := s
  subst hs
  have passes := h.passes
  dsimp only at passes
  rw [analysis_routine] at passes
  have passes : Passes (do parameters r.params; analysis (.stmts r.body); warnUnreachable r.body)
      ({ c with routine := some kind }.inside []) := passes
  obtain ⟨ps, -⟩ := passes_seq.1 passes
  exact ⟨_, .head _, rfl, rfl, (declares_parameters r.params).names_after ps⟩

section Class

variable {d : ClassDeclaration}

/-- All of a class is analysed with its name in scope. -/
theorem names_class {c : Context} {rs : List Region} (h : (⟨.stmt (.class d), rs, c⟩ : Site).Good) :
    (afterName d c).names = extend [d.name.text] c.names ∧ (afterBase d c).names = extend [d.name.text] c.names ∧
      (afterStatics d c).names = extend [d.name.text] c.names := by
  obtain ⟨hn, hb, hs, -, -⟩ := passes_class h.passes
  have shaped {p : Part} (hp : p ∈ stmtChildren (.class d)) : Declares (declaredNames p) (analysis p) :=
    declares_analysis p (h.shaped.child hp)
  have names : (afterName d c).names = extend [d.name.text] c.names := (declares_named d.name).names_after hn
  have base : Declares [] (analyses (d.base.toList.map .expr)) :=
    declares_analyses_nil (fun p hp => shaped (List.mem_append_left _ (List.mem_append_left _ hp)))
      (by simp [declaredNames])
  have statics : Declares [] (analyses (Part.statics d.statics)) :=
    declares_analyses_nil (fun p hp => shaped (List.mem_append_left _ (List.mem_append_right _ hp)))
      (by simp [Part.statics, declaredNames])
  have names' : (afterBase d c).names = extend [d.name.text] c.names := by
    rw [afterBase, base.names_after hb, names, extend_nil]
  refine ⟨names, names', ?_⟩
  rw [afterStatics, (Declares.withReceiver .static statics).names_after hs, names', extend_nil]

theorem Site.Good.holds_base {e : Expr} (h : s.Good) (hs : s.part = .stmt (.class d)) (he : d.base = some e) :
    s.Holds (.expr e) s.regions (extend [d.name.text] s.names) := by
  obtain ⟨part, rs, c⟩ := s
  subst hs
  obtain ⟨-, hb, -, -, -⟩ := passes_class h.passes
  obtain ⟨names, -, -⟩ := names_class h
  obtain ⟨q, hq, hpart, hregions, hnames⟩ := along_of_mem (fun _ => rs) (p := .expr e) hb
    (fun p hp => h.shaped.child (List.mem_append_left _ (List.mem_append_left _ hp))) (by simp [declaredNames])
    (by simp [he])
  exact ⟨q, List.mem_append_left _ (List.mem_append_left _ hq), hpart, hregions, hnames.trans names⟩

theorem Site.Good.holds_static {r : Routine} (h : s.Good) (hs : s.part = .stmt (.class d)) (hr : r ∈ d.statics) :
    s.Holds (.routine .static r) s.regions (extend [d.name.text] s.names) := by
  obtain ⟨part, rs, c⟩ := s
  subst hs
  obtain ⟨-, -, hss, -, -⟩ := passes_class h.passes
  obtain ⟨-, names, -⟩ := names_class h
  obtain ⟨q, hq, hpart, hregions, hnames⟩ := along_of_mem (fun _ => rs)
    (c := { afterBase d c with receiver := .static }) (p := .routine .static r) hss
    (fun p hp => h.shaped.child (List.mem_append_left _ (List.mem_append_right _ hp)))
    (by simp [Part.statics, declaredNames]) (List.mem_map_of_mem hr)
  exact ⟨q, List.mem_append_left _ (List.mem_append_right _ hq), hpart, hregions, hnames.trans names⟩

/-- Around a method there is a scope for its receiver. -/
theorem Site.Good.holds_method {m : Routine} (h : s.Good) (hs : s.part = .stmt (.class d)) (hm : m ∈ d.methods) :
    s.Holds (.routine (.ofMethod m.name.text) m) (.receiver m :: s.regions)
      (["this"] :: extend [d.name.text] s.names) := by
  obtain ⟨part, rs, c⟩ := s
  subst hs
  obtain ⟨-, -, -, hms, -⟩ := passes_class h.passes
  obtain ⟨-, -, names⟩ := names_class h
  have hms : Passes (analyses (Part.methods d.methods))
      ({ afterStatics d c with receiver := .object }.inside receiverScope) := hms
  obtain ⟨q, hq, hpart, hregions, hnames⟩ := along_of_mem (aroundMethod rs)
    (p := .routine (.ofMethod m.name.text) m) hms
    (fun p hp => h.shaped.child (List.mem_append_right _ hp)) (by simp [Part.methods, declaredNames])
    (List.mem_map_of_mem (f := fun r : Routine => Part.routine (.ofMethod r.name.text) r) hm)
  refine ⟨q, List.mem_append_right _ hq, hpart, hregions, hnames.trans ?_⟩
  exact congrArg (["this"] :: ·) names

end Class

section Unique

variable {root s s' : Site}

theorem map_part_along (regions : Part → List Region) (c : Context) (ps : List Part) :
    (along regions c ps).map Site.part = ps := by
  induction ps generalizing c with
  | nil => rfl
  | cons p ps ih => simp [along, ih]

/-- The sites below a site are those of the children, in order. -/
theorem map_part_parts (s : Site) : s.parts.map Site.part = s.part.children := by
  obtain ⟨p, rs, c⟩ := s
  cases p with
  | expr e => exact map_part_along _ _ _
  | routine kind r => rfl
  | stmts ss => exact map_part_along _ _ _
  | stmt s =>
    cases s with
    | block ss => rfl
    | «class» d => simp [Site.parts, map_part_along, children, stmtChildren]
    | _ => exact (map_part_along _ _ _ :)

theorem Visits.cases_head (h : Visits root s) : s = root ∨ ∃ q ∈ root.parts, Visits q s := by
  induction h with
  | root => exact .inl rfl
  | part _ hq ih =>
    rcases ih with rfl | ⟨q, hm, visits⟩
    · exact .inr ⟨_, hq, .root⟩
    · exact .inr ⟨q, hm, visits.part hq⟩

theorem Visits.ids_subset {id : NodeId} (h : Visits root s) (hid : id ∈ s.part.ids) : id ∈ root.part.ids := by
  induction h with
  | root => exact hid
  | part _ hq ih => exact ih (Part.mem_ids_of_mem_children (part_mem_children hq) hid)

/-- Two sites below a site share no node. -/
theorem eq_of_mem_parts {q q' : Site} {id : NodeId} (hnd : root.part.ids.Nodup) (hq : q ∈ root.parts)
    (hq' : q' ∈ root.parts) (hid : id ∈ q.part.ids) (hid' : id ∈ q'.part.ids) : q = q' := by
  rw [Part.ids_eq, ← map_part_parts, idsOf, List.flatMap_map] at hnd
  obtain ⟨-, nodup, -⟩ := List.nodup_append.1 hnd
  obtain ⟨-, apart⟩ := List.nodup_flatMap.1 nodup
  have symm : Std.Symm (Function.onFun List.Disjoint fun q : Site => q.part.ids) := 
    ⟨fun _ _ h _ ha hb => h hb ha⟩
  by_contra ne
  exact apart.forall hq hq' ne hid hid'

/-- A node has one site. -/
theorem Visits.unique {id : NodeId} {x x' : String} (hr : root.Good) (h : Visits root s) (h' : Visits root s')
    (hn : s.part.node? = some (id, x)) (hn' : s'.part.node? = some (id, x')) : s = s' := by
  induction hp : root.part using Part.induct generalizing root with
  | step p ih =>
    have hid := Part.mem_ids_of_node? hn
    have hid' := Part.mem_ids_of_node? hn'
    obtain ⟨-, -, apart, -⟩ := hr.children
    have inside {q : Site} (hq : q ∈ root.parts) {i : NodeId} (hi : i ∈ q.part.ids) : i ∈ idsOf root.part.children :=
      List.mem_flatMap.2 ⟨q.part, part_mem_children hq, hi⟩
    rcases h.cases_head with rfl | ⟨q, hq, visits⟩
    · rcases h'.cases_head with rfl | ⟨q', hq', visits'⟩
      · rfl
      · exact absurd (inside hq' (visits'.ids_subset hid')) (apart id x hn)
    · rcases h'.cases_head with rfl | ⟨q', hq', visits'⟩
      · exact absurd (inside hq (visits.ids_subset hid)) (apart id x' hn')
      · obtain rfl := eq_of_mem_parts hr.nodup hq hq' (visits.ids_subset hid) (visits'.ids_subset hid')
        exact ih q.part (hp ▸ part_mem_children hq) (hr.part hq).1 visits visits' rfl

end Unique

section Inside

/-- The statements that stand right in a region. -/
def Region.body : Region → List Stmt
  | .block body => body
  | .call r => r.body
  | .receiver _ => []

/-- The names that are declared right in a region. -/
def Region.names : Region → List String
  | .block body => declaredNames (.stmts body)
  | .call r => r.params.map Name.text ++ declaredNames (.stmts r.body)
  | .receiver _ => ["this"]

/-- The innermost region holds the statements of the site, declarations stand right in it, and it declares no name
twice. -/
def Site.Inside (s : Site) : Prop :=
  match s.part, s.regions with
  | .stmts ss, region :: _ => ss <:+ region.body ∧ region.names.Nodup
  | .stmt x, region :: _ => (declared? x).isSome → x ∈ region.body ∧ region.names.Nodup
  | _, _ => True

theorem notMem_of_passes_declare {name : Name} {c : Context} {ns : List String} {nss : List (List String)}
    (h : Passes (declare name) c) (hn : c.names = ns :: nss) : name.text ∉ ns := by
  obtain ⟨scopes, routine, receiver, warnings, distances⟩ := c
  cases scopes with
  | nil => cases hn
  | cons scope outer =>
    cases hn
    intro hm
    simp only [Passes, declare, has_iff_mem.2 hm, if_true] at h
    cases h

theorem passes_declare_of_declared {x : Stmt} {name : Name} {c : Context} (h : Passes (analysis (.stmt x)) c)
    (hx : declared? x = some name) : Passes (declare name) c := by
  cases x with
  | var name' e? =>
    cases hx
    rw [analysis_var] at h
    exact (passes_seq.1 h).1
  | function r =>
    cases hx
    rw [analysis_function] at h
    exact (passes_seq.1 h).1
  | «class» d =>
    cases hx
    rw [analysis_class] at h
    exact (passes_seq.1 h).1
  | _ => cases hx

/-- Statements that pass declare new names only. -/
theorem nodup_stmts {ss : List Stmt} {c : Context} {ns : List String} {nss : List (List String)}
    (h : Passes (analysis (.stmts ss)) c) (hs : (Part.stmts ss).Shaped) (hn : c.names = ns :: nss) (nodup : ns.Nodup) :
    (ns ++ declaredNames (.stmts ss)).Nodup := by
  induction ss generalizing c ns with
  | nil => simpa [declaredNames] using nodup
  | cons x xs ih =>
    rw [analysis_stmts] at h
    obtain ⟨first, rest⟩ := passes_seq.1 h
    change Passes (analyses [.stmts xs]) _ at rest
    rw [analyses_one] at rest
    have names := (declares_analysis (.stmt x) (hs.child (.head _))).names_after first
    rw [hn, extend] at names
    have nodup : (ns ++ declaredNames (.stmt x)).Nodup := by
      cases hx : declared? x with
      | none => simpa [declaredNames, hx] using nodup
      | some name =>
        have new := notMem_of_passes_declare (passes_declare_of_declared first hx) hn
        simpa [declaredNames, hx, List.nodup_append, nodup] using fun a ha => ne_of_mem_of_not_mem ha new
    have all := ih rest (hs.child (.tail _ (.head _))) names nodup
    rwa [List.append_assoc] at all

theorem nodup_parameters {ps : List Name} {c : Context} {ns : List String} {nss : List (List String)}
    (h : Passes (parameters ps) c) (hn : c.names = ns :: nss) (nodup : ns.Nodup) : (ns ++ ps.map Name.text).Nodup := by
  induction ps generalizing c ns with
  | nil => simpa using nodup
  | cons p ps ih =>
    obtain ⟨named, rest⟩ := passes_named.1 h
    have new := notMem_of_passes_declare (passes_seq.1 named).1 hn
    have names := (declares_named p).names_after named
    rw [hn, extend] at names
    have all := ih rest names (by simpa [List.nodup_append, nodup] using fun a ha => ne_of_mem_of_not_mem ha new)
    rwa [List.append_assoc] at all

theorem inside_along {regions : List Region} {c : Context} {ps : List Part} {q : Site}
    (h : ∀ p ∈ ps, ∀ c, Site.Inside ⟨p, regions, c⟩) (hq : q ∈ along (fun _ => regions) c ps) : q.Inside := by
  induction ps generalizing c with
  | nil => cases hq
  | cons p ps ih =>
    obtain ⟨first, others⟩ := List.forall_mem_cons.1 h
    rcases List.mem_cons.1 hq with rfl | hq
    · exact first c
    · exact ih others hq

theorem inside_of_expr {q : Site} {e : Expr} (h : q.part = .expr e) : q.Inside := by
  simp only [Site.Inside, h]

theorem inside_of_routine {q : Site} {kind : RoutineKind} {r : Routine} (h : q.part = .routine kind r) : q.Inside := by
  simp only [Site.Inside, h]

theorem inside_of_undeclared {x : Stmt} (hx : declared? x = none) (regions : List Region) (c : Context) :
    Site.Inside ⟨.stmt x, regions, c⟩ := by
  cases regions with
  | nil => trivial
  | cons region regions =>
    intro declared
    rw [hx] at declared
    cases declared

theorem exprChildren_cases {e : Expr} {p : Part} (h : p ∈ exprChildren e) :
    (∃ e', p = .expr e') ∨ ∃ kind r, p = .routine kind r := by
  cases e <;> grind [exprChildren]

theorem Site.Inside.part {s q : Site} (h : s.Inside) (good : s.Good) (hq : q ∈ s.parts) : q.Inside := by
  have child := part_mem_children hq
  have tidy := good.shaped.tidy
  obtain ⟨p, regions, c⟩ := s
  cases p with
  | expr e =>
    rcases exprChildren_cases child with ⟨e', he⟩ | ⟨kind, r, he⟩
    · exact inside_of_expr he
    · exact inside_of_routine he
  | routine kind r =>
    obtain rfl := List.mem_singleton.1 hq
    have passes := good.passes
    dsimp only at passes
    rw [analysis_routine] at passes
    have passes : Passes (do parameters r.params; analysis (.stmts r.body); warnUnreachable r.body)
        ({ c with routine := some kind }.inside []) := passes
    obtain ⟨ps, passes⟩ := passes_seq.1 passes
    obtain ⟨body, -⟩ := passes_seq.1 passes
    have names := (declares_parameters r.params).names_after ps
    have nodup := nodup_parameters ps rfl .nil
    exact ⟨List.suffix_rfl, nodup_stmts body (good.shaped.child (.head _)) names nodup⟩
  | stmts ss =>
    cases ss with
    | nil => cases hq
    | cons x xs =>
      refine inside_along (fun p hp c' => ?_) hq
      cases regions with
      | nil => cases p <;> trivial
      | cons region regions =>
        obtain ⟨suffix, nodup⟩ : x :: xs <:+ region.body ∧ region.names.Nodup := h
        rcases List.mem_cons.1 hp with rfl | hp
        · exact fun _ => ⟨suffix.subset (.head _), nodup⟩
        · obtain rfl := List.mem_singleton.1 hp
          exact ⟨(List.suffix_cons x xs).trans suffix, nodup⟩
  | stmt x =>
    cases x with
    | expression e | print e => exact inside_of_expr (List.mem_singleton.1 child)
    | var name e? | «return» line e? =>
      obtain ⟨e, -, he⟩ := List.mem_map.1 child
      exact inside_of_expr he.symm
    | block ss =>
      obtain rfl := List.mem_singleton.1 hq
      have passes := good.passes
      dsimp only at passes
      rw [analysis_block] at passes
      have passes : Passes (analysis (.stmts ss)) (c.inside []) := passes
      exact ⟨List.suffix_rfl, nodup_stmts passes (good.shaped.child (.head _)) rfl .nil⟩
    | conditional e yes no =>
      obtain ⟨hy, hn⟩ := tidy
      refine inside_along (fun p hp c' => ?_) hq
      rcases List.mem_cons.1 hp with rfl | hp
      · exact inside_of_expr rfl
      · rcases List.mem_cons.1 hp with rfl | hp
        · exact inside_of_undeclared hy _ _
        · obtain ⟨x, hx, rfl⟩ := List.mem_map.1 hp
          exact inside_of_undeclared (hn x (Option.mem_toList.1 hx)) _ _
    | loop e body =>
      have hb : declared? body = none := tidy
      refine inside_along (fun p hp c' => ?_) hq
      rcases List.mem_cons.1 hp with rfl | hp
      · exact inside_of_expr rfl
      · obtain rfl := List.mem_singleton.1 hp
        exact inside_of_undeclared hb _ _
    | «break» line => cases hq
    | «continue» line => cases hq
    | function r => exact inside_of_routine (List.mem_singleton.1 child)
    | «class» d =>
      rcases List.mem_append.1 child with child | child
      · rcases List.mem_append.1 child with child | child
        · obtain ⟨e, -, he⟩ := List.mem_map.1 child
          exact inside_of_expr he.symm
        · obtain ⟨r, -, he⟩ := List.mem_map.1 child
          exact inside_of_routine he.symm
      · obtain ⟨r, -, he⟩ := List.mem_map.1 child
        exact inside_of_routine he.symm

theorem Visits.inside {root s : Site} (h : Visits root s) (hr : root.Good) (outer : root.Inside) : s.Inside := by
  induction h with
  | root => exact outer
  | part visits hq ih => exact ih.part (visits.good hr).1 hq

end Inside

end Scriptlet.Scope
