import Scriptlet.Proofs.PartAnalysis

/-!
Where the analysis of names meets a part: a site is a part, the regions of the program that it lies in, and the context
in which the analysis reaches it. From the site of a whole program the sites of all its parts are found by going
from a part to the parts below it. The distance that the analysis leaves for a node is the distance to the nearest scope
that had the node's name when the node was reached.
-/
namespace Scriptlet.Scope

open Analysis
open Scriptlet.Part (children exprChildren stmtChildren node? declared? Shaped AllShaped idsOf)

/-- What has a scope of its own: a block, a routine with its parameters, and what is around a method for its receiver. -/
inductive Region where
  | block (body : List Stmt)
  | call (routine : Routine)
  | receiver (method : Routine)

structure Site where
  part : Part
  regions : List Region
  context : Context

def after (a : Analysis Unit) (c : Context) : Context := (a c).2

def Passes (a : Analysis Unit) (c : Context) : Prop := (a c).1 = .ok ()

def Site.names (s : Site) : List (List String) := s.context.names

/-- The context when the analysis of the part is done. -/
def Site.after (s : Site) : Context := Scope.after (analysis s.part) s.context

/-- The sites of parts that are analysed one after the other. -/
def along (regions : Part → List Region) (c : Context) : List Part → List Site
  | [] => []
  | p :: ps => ⟨p, regions p, c⟩ :: along regions (after (analysis p) c) ps

def Context.inside (c : Context) (scope : Scope) : Context := { c with scopes := scope :: c.scopes }

/-- The regions of a method start with what is around it. -/
def aroundMethod (regions : List Region) : Part → List Region
  | .routine _ r => .receiver r :: regions
  | _ => regions

/-- Within a class the analysis goes from the name to the base, the statics and the methods. -/
def afterName (d : ClassDeclaration) (c : Context) : Context := after (do declare d.name; define d.name) c

def afterBase (d : ClassDeclaration) (c : Context) : Context :=
  after (analyses (d.base.toList.map .expr)) (afterName d c)

def afterStatics (d : ClassDeclaration) (c : Context) : Context :=
  after (withReceiver .static (analyses (Part.statics d.statics))) (afterBase d c)

/-- The sites right below a site, each with the context that the analysis has when it comes there. -/
def Site.parts (s : Site) : List Site :=
  let c := s.context
  let here := fun _ => s.regions
  match s.part with
  | .routine kind r =>
    [⟨.stmts r.body, .call r :: s.regions,
      Scope.after (parameters r.params) ({ c with routine := some kind }.inside [])⟩]
  | .stmt (.block ss) => [⟨.stmts ss, .block ss :: s.regions, c.inside []⟩]
  | .stmt (.var name e?) => along here (Scope.after (declare name) c) (e?.toList.map .expr)
  | .stmt (.function r) =>
    along here (Scope.after (do declare r.name; define r.name) c) [.routine .function r]
  | .stmt (.class d) =>
    along here (afterName d c) (d.base.toList.map .expr) ++
      along here { afterBase d c with receiver := .static } (Part.statics d.statics) ++
      along (aroundMethod s.regions) ({ afterStatics d c with receiver := .object }.inside receiverScope)
        (Part.methods d.methods)
  | p => along here c p.children

/-- The sites that the analysis comes to from the site of a whole text. -/
inductive Visits (root : Site) : Site → Prop
  | root : Visits root root
  | part {s q : Site} : Visits root s → q ∈ s.parts → Visits root q

section Passes

variable {a b : Analysis Unit} {c : Context}

theorem passes_iff : Passes a c ↔ a c = (.ok (), after a c) := by
  constructor
  · intro h
    exact Prod.ext h rfl
  · intro h
    exact congrArg Prod.fst h

theorem passes_seq : Passes (do a; b) c ↔ Passes a c ∧ Passes b (after a c) := by
  change (andThen a (fun _ => b) c).1 = _ ↔ _
  unfold Passes after andThen
  split
  · next h => simp [h]
  · next h => simp [h]

theorem after_seq (h : Passes a c) : after (do a; b) c = after b (after a c) := by
  change (andThen a (fun _ => b) c).2 = _
  unfold after andThen
  rw [passes_iff.1 h]

theorem Analysis.Declares.names_after {ds : List String} (h : Declares ds a) (hp : Passes a c) :
    (after a c).names = extend ds c.names :=
  h c () _ (passes_iff.1 hp)

theorem Analysis.Keeps.distances_after {id : NodeId} (h : Keeps id a) : (after a c).distances.get? id = c.distances.get? id :=
  h c

end Passes

/-- What the analysis may assume of a site from which it goes on without a fault. -/
structure Site.Good (s : Site) : Prop where
  passes : Passes (analysis s.part) s.context
  nodup : s.part.ids.Nodup
  unset : ∀ id ∈ s.part.ids, s.context.distances.get? id = none
  shaped : s.part.Shaped
  aligned : s.regions.length = s.context.scopes.length

/-- The distances at a site are still there in a later context. -/
def Site.FinalIn (s : Site) (c : Context) : Prop := ∀ id ∈ s.part.ids, c.distances.get? id = s.after.distances.get? id

theorem length_names (c : Context) : c.names.length = c.scopes.length := by simp [Context.names]

variable {c : Context} {rs : List Region}

theorem along_good {ps : List Part} {regions : Part → List Region} (hp : Passes (analyses ps) c)
    (hnd : (idsOf ps).Nodup) (hu : ∀ id ∈ idsOf ps, c.distances.get? id = none) (hs : AllShaped ps)
    (hr : ∀ p ∈ ps, (regions p).length = c.scopes.length) {q : Site} (hq : q ∈ along regions c ps) :
    q.Good ∧ q.FinalIn (after (analyses ps) c) := by
  induction ps generalizing c with
  | nil => cases hq
  | cons p ps ih =>
    rw [analyses_cons] at hp ⊢
    obtain ⟨hp1, hp2⟩ := passes_seq.1 hp
    rw [after_seq hp1]
    rw [Part.idsOf_cons, List.nodup_append] at hnd
    obtain ⟨nodup, nodups, apart⟩ := hnd
    obtain ⟨shaped, shapeds⟩ := List.forall_mem_cons.1 hs
    obtain ⟨len, lens⟩ := List.forall_mem_cons.1 hr
    rcases List.mem_cons.1 hq with rfl | hq
    · refine ⟨⟨hp1, nodup, fun id hid => hu id (List.mem_append_left _ hid), shaped, len⟩, fun id hid => ?_⟩
      refine (keeps_analyses fun q hq => keeps_analysis q fun hid' => ?_).distances_after
      exact apart id hid id (List.mem_flatMap.2 ⟨q, hq, hid'⟩) rfl
    · refine ih hp2 nodups (fun id hid => ?_) shapeds (fun q hq => ?_) hq
      · rw [(keeps_analysis p fun hid' => apart id hid' id hid rfl).distances_after]
        exact hu id (List.mem_append_right _ hid)
      · rw [lens q hq, ← length_names, ← length_names, (declares_analysis p shaped).names_after hp1, length_extend]

theorem length_scopes_after {a : Analysis Unit} {ds : List String} (h : Declares ds a) (hp : Passes a c) :
    (after a c).scopes.length = c.scopes.length := by
  rw [← length_names, ← length_names, h.names_after hp, length_extend]

theorem part_mem_of_mem_along {regions : Part → List Region} {ps : List Part} {q : Site}
    (hq : q ∈ along regions c ps) : q.part ∈ ps := by
  induction ps generalizing c with
  | nil => cases hq
  | cons p ps ih =>
    rcases List.mem_cons.1 hq with rfl | hq
    · exact .head _
    · exact .tail _ (ih hq)

theorem Site.FinalIn.later {q : Site} {a : Analysis Unit} (h : q.FinalIn c)
    (ha : ∀ id ∈ q.part.ids, Keeps id a) : q.FinalIn (Scope.after a c) :=
  fun id hid => (ha id hid).distances_after.trans (h id hid)

/-- The children of a part hold its other nodes only once. -/
theorem Site.Good.children {s : Site} (h : s.Good) :
    (idsOf s.part.children).Nodup ∧ (∀ id ∈ idsOf s.part.children, s.context.distances.get? id = none) ∧
      (∀ id name, s.part.node? = some (id, name) → id ∉ idsOf s.part.children) ∧ AllShaped s.part.children := by
  have nodup := h.nodup
  have unset := h.unset
  rw [Part.ids_eq] at nodup unset
  obtain ⟨-, nodups, apart⟩ := List.nodup_append.1 nodup
  refine ⟨nodups, fun id hid => unset id (List.mem_append_right _ hid), fun id name hn hid => ?_, fun p hp => h.shaped.child hp⟩
  exact apart id (by simp [hn]) id hid rfl

theorem expr_good {e : Expr} (h : (⟨.expr e, rs, c⟩ : Site).Good) {q : Site}
    (hq : q ∈ along (fun _ => rs) c (exprChildren e)) : q.Good ∧ q.FinalIn (after (analysis (.expr e)) c) := by
  obtain ⟨nodup, unset, apart, shaped⟩ := h.children
  have passes := h.passes
  by_cases hn : node? (.expr e) = none
  · dsimp only at passes
    rw [analysis_expr hn] at passes ⊢
    exact along_good passes nodup unset shaped (fun _ _ => h.aligned) hq
  · cases e with
    | assign id name e =>
      -- the value is analysed first; then the node itself, which is none of the value's
      have passes : Passes (do analyses [.expr e]; bindNode id name.text) c := by
        rw [analyses_one]
        exact passes
      obtain ⟨first, -⟩ := passes_seq.1 passes
      obtain ⟨good, final⟩ := along_good first nodup unset shaped (fun _ _ => h.aligned) hq
      have later := final.later (a := bindNode id name.text) fun id' hid => keeps_bindNode (by
        rintro rfl
        exact apart id' _ rfl (List.mem_flatMap.2 ⟨q.part, part_mem_of_mem_along hq, hid⟩)) _
      rw [← after_seq first, analyses_one] at later
      exact ⟨good, later⟩
    | «variable» id name => cases hq
    | suffix id name op => cases hq
    | this id line => cases hq
    | _ => exact absurd rfl hn

theorem routine_good {kind : RoutineKind} {r : Routine} (h : (⟨.routine kind r, rs, c⟩ : Site).Good) :
    let q : Site := ⟨.stmts r.body, .call r :: rs, after (parameters r.params) ({ c with routine := some kind }.inside [])⟩
    q.Good ∧ q.FinalIn (after (analysis (.routine kind r)) c) := by
  intro q
  have passes := h.passes
  dsimp only at passes
  rw [analysis_routine] at passes ⊢
  have passes : Passes (do parameters r.params; analysis (.stmts r.body); warnUnreachable r.body)
      ({ c with routine := some kind }.inside []) := passes
  obtain ⟨ps, passes⟩ := passes_seq.1 passes
  obtain ⟨body, warn⟩ := passes_seq.1 passes
  constructor
  · refine ⟨body, by simpa using h.nodup, fun id hid => ?_, h.shaped.child (.head _), ?_⟩
    · exact (keeps_parameters r.params).distances_after.trans (h.unset id (by simpa using hid))
    · rw [length_scopes_after (declares_parameters r.params) ps]
      exact congrArg (· + 1) h.aligned
  · intro id hid
    change (after (do parameters r.params; analysis (.stmts r.body); warnUnreachable r.body)
      ({ c with routine := some kind }.inside [])).distances.get? id = _
    rw [after_seq ps, after_seq body]
    exact (keeps_warnUnreachable r.body).distances_after

theorem block_good {ss : List Stmt} (h : (⟨.stmt (.block ss), rs, c⟩ : Site).Good) :
    let q : Site := ⟨.stmts ss, .block ss :: rs, c.inside []⟩
    q.Good ∧ q.FinalIn (after (analysis (.stmt (.block ss))) c) := by
  intro q
  have passes := h.passes
  dsimp only at passes
  rw [analysis_block] at passes ⊢
  refine ⟨⟨passes, by simpa using h.nodup, fun id hid => h.unset id (by simpa using hid), ?_, ?_⟩, fun id hid => rfl⟩
  · exact h.shaped.child (.head _)
  · exact congrArg (· + 1) h.aligned

theorem var_good {name : Name} {e? : Option Expr} (h : (⟨.stmt (.var name e?), rs, c⟩ : Site).Good) {q : Site}
    (hq : q ∈ along (fun _ => rs) (after (declare name) c) (e?.toList.map .expr)) :
    q.Good ∧ q.FinalIn (after (analysis (.stmt (.var name e?))) c) := by
  obtain ⟨nodup, unset, -, shaped⟩ := h.children
  have passes := h.passes
  dsimp only at passes
  rw [analysis_var] at passes ⊢
  obtain ⟨declared, passes⟩ := passes_seq.1 passes
  obtain ⟨initial, -⟩ := passes_seq.1 passes
  obtain ⟨good, final⟩ := along_good initial nodup (fun id hid => (keeps_declare name).distances_after.trans (unset id hid))
    shaped (fun _ _ => by rw [length_scopes_after (declares_declare name) declared]; exact h.aligned) hq
  rw [after_seq declared, after_seq initial]
  exact ⟨good, final.later fun _ _ => keeps_define name⟩

/-- The name is there for the routine itself. -/
theorem passes_named {name : Name} {a : Analysis Unit} :
    Passes (do declare name; define name; a) c ↔ Passes (do declare name; define name) c ∧
      Passes a (after (do declare name; define name) c) := by
  rw [passes_seq, passes_seq, passes_seq]
  constructor
  · rintro ⟨h1, h2, h3⟩
    exact ⟨⟨h1, h2⟩, by rwa [after_seq h1]⟩
  · rintro ⟨⟨h1, h2⟩, h3⟩
    exact ⟨h1, h2, by rwa [after_seq h1] at h3⟩

theorem declares_named (name : Name) : Declares [name.text] (do declare name; define name) :=
  (declares_declare name).bind fun _ => declares_define name

theorem keeps_named {id : NodeId} (name : Name) : Keeps id (do declare name; define name) :=
  (keeps_declare name).bind fun _ => keeps_define name

theorem after_named {name : Name} {a : Analysis Unit} (h : Passes (do declare name; define name) c) :
    after (do declare name; define name; a) c = after a (after (do declare name; define name) c) := by
  obtain ⟨h1, h2⟩ := passes_seq.1 h
  rw [after_seq h1, after_seq h2, after_seq h1]

theorem function_good {r : Routine} (h : (⟨.stmt (.function r), rs, c⟩ : Site).Good) {q : Site}
    (hq : q ∈ along (fun _ => rs) (after (do declare r.name; define r.name) c) [.routine .function r]) :
    q.Good ∧ q.FinalIn (after (analysis (.stmt (.function r))) c) := by
  obtain ⟨nodup, unset, -, shaped⟩ := h.children
  have passes := h.passes
  dsimp only at passes
  rw [analysis_function] at passes ⊢
  obtain ⟨named, passes⟩ := passes_named.1 passes
  rw [after_named named]
  rw [← analyses_one] at passes ⊢
  refine along_good passes nodup (fun id hid => ?_) shaped (fun _ _ => ?_) hq
  · exact (keeps_named r.name).distances_after.trans (unset id hid)
  · rw [length_scopes_after (declares_named r.name) named]
    exact h.aligned

/-- Where a value may be returned, its analysis is all that happens. -/
theorem analysis_return {line : Nat} {e? : Option Expr} (h : Passes (analysis (.stmt (.return line e?))) c) :
    analysis (.stmt (.return line e?)) c = analyses (e?.toList.map .expr) c := by
  rw [← optional_eq]
  obtain ⟨scopes, routine, receiver, warnings, distances⟩ := c
  rcases routine with _ | kind
  · cases h
  · cases kind <;> cases e? <;> first | rfl | cases h

theorem return_good {line : Nat} {e? : Option Expr} (h : (⟨.stmt (.return line e?), rs, c⟩ : Site).Good) {q : Site}
    (hq : q ∈ along (fun _ => rs) c (e?.toList.map .expr)) :
    q.Good ∧ q.FinalIn (after (analysis (.stmt (.return line e?))) c) := by
  obtain ⟨nodup, unset, -, shaped⟩ := h.children
  have same := analysis_return h.passes
  have passes : Passes (analyses (e?.toList.map .expr)) c := (congrArg Prod.fst same).symm.trans h.passes
  have final : after (analysis (.stmt (.return line e?))) c = after (analyses (e?.toList.map .expr)) c :=
    congrArg Prod.snd same
  rw [final]
  exact along_good passes nodup unset shaped (fun _ _ => h.aligned) hq

theorem checkBase_pass {name : Name} {base : Option Expr} (h : Passes (checkBase name base) c) :
    after (checkBase name base) c = c := by
  unfold Passes checkBase at h
  unfold after checkBase
  split at h
  · split at h
    · cases h
    · next hn => rw [if_neg hn]; rfl
  · rfl

theorem passes_class {d : ClassDeclaration} (h : Passes (analysis (.stmt (.class d))) c) :
    Passes (do declare d.name; define d.name) c ∧ Passes (analyses (d.base.toList.map .expr)) (afterName d c) ∧
      Passes (withReceiver .static (analyses (Part.statics d.statics))) (afterBase d c) ∧
      Passes (withReceiver .object (withScope receiverScope (analyses (Part.methods d.methods)))) (afterStatics d c) ∧
      after (analysis (.stmt (.class d))) c =
        after (withReceiver .object (withScope receiverScope (analyses (Part.methods d.methods)))) (afterStatics d c) := by
  rw [analysis_class] at h ⊢
  obtain ⟨hn, h⟩ := passes_named.1 h
  obtain ⟨hc, h⟩ := passes_seq.1 h
  have same := checkBase_pass hc
  rw [same] at h
  obtain ⟨hb, h⟩ := passes_seq.1 h
  obtain ⟨hs, hm⟩ := passes_seq.1 h
  refine ⟨hn, hb, hs, hm, ?_⟩
  rw [after_named hn, after_seq hc, same, after_seq hb, after_seq hs]
  rfl

theorem class_good {d : ClassDeclaration} (h : (⟨.stmt (.class d), rs, c⟩ : Site).Good) {q : Site}
    (hq : q ∈ along (fun _ => rs) (afterName d c) (d.base.toList.map .expr) ++
      along (fun _ => rs) { afterBase d c with receiver := .static } (Part.statics d.statics) ++
      along (aroundMethod rs) ({ afterStatics d c with receiver := .object }.inside receiverScope) (Part.methods d.methods)) :
    q.Good ∧ q.FinalIn (after (analysis (.stmt (.class d))) c) := by
  obtain ⟨nodup, unset, -, shaped⟩ := h.children
  obtain ⟨hn, hb, hs, hm, final⟩ := passes_class h.passes
  have nodup : (idsOf (d.base.toList.map .expr) ++ idsOf (Part.statics d.statics) ++
      idsOf (Part.methods d.methods)).Nodup := by
    rw [← Part.idsOf_append, ← Part.idsOf_append]
    exact nodup
  obtain ⟨nodup, nodupM, apartM⟩ := List.nodup_append.1 nodup
  obtain ⟨nodupB, nodupS, apartS⟩ := List.nodup_append.1 nodup
  obtain ⟨shaped, shapedM⟩ := List.forall_mem_append.1 shaped
  obtain ⟨shapedB, shapedS⟩ := List.forall_mem_append.1 shaped
  have unset {id : NodeId} (hid : id ∈ idsOf (d.base.toList.map .expr) ++ idsOf (Part.statics d.statics) ++
      idsOf (Part.methods d.methods)) : (afterName d c).distances.get? id = none := by
    rw [← Part.idsOf_append, ← Part.idsOf_append] at hid
    exact (keeps_named d.name).distances_after.trans (unset id hid)
  have keeps {ps : List Part} {id : NodeId} (hid : id ∉ idsOf ps) : Keeps id (analyses ps) :=
    keeps_analyses fun p hp => keeps_analysis p fun h => hid (List.mem_flatMap.2 ⟨p, hp, h⟩)
  have mem {f : Part → List Region} {e : Context} {ps : List Part} (hq : q ∈ along f e ps) {id : NodeId}
      (hid : id ∈ q.part.ids) : id ∈ idsOf ps := List.mem_flatMap.2 ⟨q.part, part_mem_of_mem_along hq, hid⟩
  have lenN : rs.length = (afterName d c).scopes.length :=
    h.aligned.trans (length_scopes_after (declares_named d.name) hn).symm
  have lenB : rs.length = (afterBase d c).scopes.length := lenN.trans (length_scopes_after
    (declares_analyses fun p hp => declares_analysis p (shapedB p hp)) hb).symm
  have lenS : rs.length = (afterStatics d c).scopes.length := lenB.trans (length_scopes_after
    (Declares.withReceiver _ (declares_analyses fun p hp => declares_analysis p (shapedS p hp))) hs).symm
  have unsetS : ∀ id ∈ idsOf (Part.statics d.statics), (afterBase d c).distances.get? id = none := fun id hid =>
    (keeps fun hid' => apartS id hid' id hid rfl).distances_after.trans (unset (by simp [hid]))
  have unsetM : ∀ id ∈ idsOf (Part.methods d.methods), (afterStatics d c).distances.get? id = none := by
    intro id hid
    have notS : id ∉ idsOf (Part.statics d.statics) := fun h => apartM id (by simp [h]) id hid rfl
    have notB : id ∉ idsOf (d.base.toList.map .expr) := fun h => apartM id (by simp [h]) id hid rfl
    refine (Keeps.withReceiver _ (keeps notS)).distances_after.trans ((keeps notB).distances_after.trans ?_)
    exact unset (by simp [hid])
  rw [final]
  rcases List.mem_append.1 hq with hq | hq
  · rcases List.mem_append.1 hq with hq | hq
    · obtain ⟨good, early⟩ := along_good hb nodupB (fun id hid => unset (by simp [hid])) shapedB (fun _ _ => lenN) hq
      refine ⟨good, Site.FinalIn.later (Site.FinalIn.later early fun id hid => ?_) fun id hid => ?_⟩
      · exact Keeps.withReceiver _ (keeps fun hid' => apartS id (mem hq hid) id hid' rfl)
      · refine Keeps.withReceiver _ (Keeps.withScope _ (keeps fun hid' => ?_))
        exact apartM id (List.mem_append_left _ (mem hq hid)) id hid' rfl
    · obtain ⟨good, early⟩ := along_good hs nodupS unsetS shapedS (fun _ _ => lenB) hq
      refine ⟨good, Site.FinalIn.later early fun id hid => ?_⟩
      refine Keeps.withReceiver _ (Keeps.withScope _ (keeps fun hid' => ?_))
      exact apartM id (List.mem_append_right _ (mem hq hid)) id hid' rfl
  · refine along_good hm nodupM unsetM shapedM (fun p hp => ?_) hq
    obtain ⟨r, -, rfl⟩ := List.mem_map.1 hp
    exact congrArg (· + 1) lenS

/-- What holds of a site and of the distances left there holds of the sites below it. -/
theorem Site.Good.part {s q : Site} (h : s.Good) (hq : q ∈ s.parts) : q.Good ∧ q.FinalIn s.after := by
  obtain ⟨p, rs, c⟩ := s
  have simple {ps : List Part} (he : analysis p = analyses ps) (hc : p.children = ps)
      (hq : q ∈ along (fun _ => rs) c ps) : q.Good ∧ q.FinalIn (Site.after ⟨p, rs, c⟩) := by
    obtain ⟨nodup, unset, -, shaped⟩ := h.children
    subst hc
    have passes := h.passes
    dsimp only [Site.after] at passes ⊢
    rw [he] at passes ⊢
    exact along_good passes nodup unset shaped (fun _ _ => h.aligned) hq
  cases p with
  | expr e => exact expr_good h hq
  | routine kind r =>
    obtain rfl := List.mem_singleton.1 hq
    exact routine_good h
  | stmts ss => exact simple (analysis_stmts ss) rfl hq
  | stmt s =>
    cases s with
    | expression e | print e | conditional e y n? | loop e s | «break» line | «continue» line =>
      exact simple (analysis_simple rfl) rfl hq
    | var name e? => exact var_good h hq
    | block ss =>
      obtain rfl := List.mem_singleton.1 hq
      exact block_good h
    | function r => exact function_good h hq
    | «return» line e? => exact return_good h hq
    | «class» d => exact class_good h hq

theorem part_mem_children {s q : Site} (hq : q ∈ s.parts) : q.part ∈ s.part.children := by
  obtain ⟨p, rs, c⟩ := s
  cases p with
  | expr e => exact part_mem_of_mem_along hq
  | routine kind r =>
    obtain rfl := List.mem_singleton.1 hq
    exact .head _
  | stmts ss => exact part_mem_of_mem_along hq
  | stmt s =>
    cases s with
    | block ss =>
      obtain rfl := List.mem_singleton.1 hq
      exact .head _
    | «class» d =>
      rcases List.mem_append.1 hq with hq | hq
      · refine List.mem_append_left _ ?_
        rcases List.mem_append.1 hq with hq | hq
        · exact List.mem_append_left _ (part_mem_of_mem_along hq)
        · exact List.mem_append_right _ (part_mem_of_mem_along hq)
      · exact List.mem_append_right _ (part_mem_of_mem_along hq)
    | _ => exact (part_mem_of_mem_along hq :)

/-- Every site that is visited is good, and what it leaves is never changed again. -/
theorem Visits.good {root s : Site} (h : Visits root s) (hr : root.Good) :
    s.Good ∧ s.FinalIn root.after ∧ ∀ id ∈ s.part.ids, id ∈ root.part.ids := by
  induction h with
  | root => exact ⟨hr, fun _ _ => rfl, fun _ h => h⟩
  | part _ hq ih =>
    obtain ⟨good, final, sub⟩ := ih
    obtain ⟨goodQ, finalQ⟩ := good.part hq
    have below : ∀ id ∈ _, id ∈ _ := fun _ hid => Part.mem_ids_of_mem_children (part_mem_children hq) hid
    exact ⟨goodQ, fun id hid => (final id (below id hid)).trans (finalQ id hid), fun id hid => sub id (below id hid)⟩

theorem distance_bindNode {id : NodeId} {name : String} (h : c.distances.get? id = none) :
    (after (bindNode id name) c).distances.get? id = nearest name c.names := by
  rw [Context.names, ← map_fst_lookup]
  unfold after bindNode
  split
  · next hl => simp [hl, h]
  · next d scopes hl => simp [hl]

theorem after_checkInitialized {name : Name} : after (checkInitialized name) c = c := by
  unfold after checkInitialized
  split <;> rfl

/-- A node gets the distance to the nearest scope that has its name, and none if there is no such scope. -/
theorem Site.Good.distance {s : Site} (h : s.Good) {id : NodeId} {name : String}
    (hn : s.part.node? = some (id, name)) : s.after.distances.get? id = nearest name s.names := by
  obtain ⟨p, rs, c⟩ := s
  have unset := h.unset id (Part.mem_ids_of_node? hn)
  -- after the check the context is still the same, so the node is bound where it is reached
  have checked {x : Name} (hp : Passes (do checkInitialized x; bindNode id x.text) c) :
      (Scope.after (do checkInitialized x; bindNode id x.text) c).distances.get? id = nearest x.text c.names := by
    obtain ⟨first, -⟩ := passes_seq.1 hp
    rw [after_seq first, after_checkInitialized]
    exact distance_bindNode unset
  cases p with
  | expr e =>
    cases e with
    | «variable» id' x | suffix id' x op =>
      cases hn
      exact checked h.passes
    | assign id' x value =>
      cases hn
      have passes : Passes (do analysis (.expr value); bindNode id x.text) c := h.passes
      obtain ⟨first, -⟩ := passes_seq.1 passes
      change (Scope.after (do analysis (.expr value); bindNode id x.text) c).distances.get? id = _
      have names := (declares_analysis (.expr value) (h.shaped.child (.head _))).names_after first
      have apart : id ∉ Part.ids (.expr value) := by
        obtain ⟨-, -, apart, -⟩ := h.children
        exact fun hid => apart id _ rfl (List.mem_flatMap.2 ⟨_, .head _, hid⟩)
      rw [after_seq first, distance_bindNode ((keeps_analysis _ apart).distances_after.trans unset), names]
      exact congrArg _ (extend_nil _)
    | this id' line =>
      cases hn
      obtain ⟨scopes, routine, receiver, warnings, distances⟩ := c
      have passes := h.passes
      cases receiver with
      | none => cases passes
      | static => cases passes
      | object => exact distance_bindNode unset
    | _ => cases hn
  | _ => cases hn

end Scriptlet.Scope
