import Scriptlet.Proofs.Renaming
import Scriptlet.Proofs.SplitTexts
import Scriptlet.Proofs.TwinSessions

/-!
Local names are only names. A parameter or variable of a block or a routine may have another name: if the new name does
not occur in the program, and all uses that are bound to the variable are changed with it, then the program is accepted
with the same distances and does the same, but for the name that is quoted in warnings and failures.
-/
namespace Scriptlet

namespace Renaming

section Scopes

open Scope

/-- The analysis comes to every part of a program. -/
theorem visits_at? (root : Site) {way : List Nat} {part : Part} (h : root.part.at? way = some part) :
    ∃ site, Visits root site ∧ site.part = part := by
  induction way generalizing part with
  | nil => exact ⟨root, .root, Option.some.inj h⟩
  | cons i outer ih =>
    obtain ⟨above, there, child⟩ := Option.bind_eq_some_iff.1 h
    obtain ⟨site, visits, rfl⟩ := ih there
    rw [← map_part_parts] at child
    obtain ⟨q, hq, same⟩ := List.mem_map.1 (List.mem_of_getElem? child)
    exact ⟨q, visits.part hq, same⟩

variable {ρ : Renaming} {d : Distances} {site : Site} {params : List Name} {body : List Stmt} {x : String}

/-- No scope of a text that passes has a name twice. -/
theorem nodup_scope {part : Part} (good : (rootSite part d).Good) (outer : (rootSite part d).Inside)
    (visits : Visits (rootSite part d) site) (opens : site.part.scope? = some (params, body)) :
    (params.map Name.text ++ declaredNames (.stmts body)).Nodup := by
  have inside := visits.inside good outer
  obtain ⟨here, -, -⟩ := visits.good good
  obtain ⟨p, regions, c⟩ := site
  cases p with
  | routine kind r =>
    cases opens
    exact (inside.part here (.head _)).2
  | stmt s =>
    cases s with
    | block ss =>
      cases opens
      exact (inside.part here (.head _)).2
    | _ => cases opens
  | _ => cases opens

theorem declaredNames_perm (body : List Stmt) :
    (body.flatMap Stmt.variables ++ body.flatMap Stmt.definitions).Perm (declaredNames (.stmts body)) := by
  have same (s : Stmt) : (Part.declared? s).toList.map Name.text = s.variables ++ s.definitions := by
    cases s <;> rfl
  rw [declaredNames, funext same]
  exact List.flatMap_append_perm body Stmt.variables Stmt.definitions

/-- Where no name is declared twice, a variable is no function and no class. -/
theorem notMem_definitions (nodup : (params.map Name.text ++ declaredNames (.stmts body)).Nodup)
    (declared : x ∈ params.map Name.text ++ body.flatMap Stmt.variables) : x ∉ body.flatMap Stmt.definitions := by
  rw [← ((declaredNames_perm body).append_left (params.map Name.text)).nodup_iff, ← List.append_assoc] at nodup
  exact fun defined => (List.nodup_append.1 nodup).2.2 x declared x defined rfl

theorem variables_ne_this (shaped : (Part.stmts body).Shaped) : "this" ∉ body.flatMap Stmt.variables := by
  induction body with
  | nil => exact List.not_mem_nil
  | cons s ss ih =>
    rw [List.flatMap_cons, List.mem_append, not_or]
    refine ⟨?_, ih (shaped.child (.tail _ (.head _)))⟩
    have tidy := (shaped.child (p := .stmts (s :: ss)) (.head _)).tidy
    cases s with
    | var n e? =>
      intro mem
      exact tidy n rfl (List.mem_singleton.1 mem).symm
    | _ => exact List.not_mem_nil

/-- The grammar has no variable with the name of the receiver. -/
theorem ne_this {part : Part} (shaped : part.Shaped) (opens : part.scope? = some (params, body))
    (declared : x ∈ params.map Name.text ++ body.flatMap Stmt.variables) : x ≠ "this" := by
  rintro rfl
  have inner : (Part.stmts body).Shaped ∧ ∀ n ∈ params, n.text ≠ "this" := by
    cases part with
    | routine kind r =>
      cases opens
      exact ⟨shaped.child (.head _), shaped.tidy⟩
    | stmt s =>
      cases s with
      | block ss =>
        cases opens
        exact ⟨shaped.child (.head _), fun _ h => nomatch h⟩
      | _ => cases opens
    | _ => cases opens
  rcases List.mem_append.1 declared with param | var
  · obtain ⟨n, hn, same⟩ := List.mem_map.1 param
    exact inner.2 n hn same
  · exact variables_ne_this inner.1 var

theorem Applies.recast {program : List Stmt} (h : ρ.Applies program) (good : (rootSite (.stmts program) d).Good)
    (new : ρ.new ≠ "this") (absent : ρ.new ∉ (Part.stmts program).names) (d' : Distances) :
    ∃ old : ρ.old ≠ "this", Recast (ρ.recasting d' old new) [] (.stmts program) (.stmts (ρ.program d' program)) := by
  obtain ⟨part, params, body, there, opens, declared⟩ := h
  obtain ⟨site, visits, rfl⟩ := visits_at? (rootSite (.stmts program) d) there
  refine ⟨ne_this (visits.good good).1.shaped opens declared, Renaming.recast ?_ rfl absent good.shaped nofun⟩
  intro part' params' body' there' opens'
  obtain rfl := Option.some.inj (there.symm.trans there')
  cases opens.symm.trans opens'
  exact notMem_definitions (nodup_scope good trivial visits opens) declared

end Scopes

end Renaming

namespace Session

open Machine

variable {host : Host} {s s' : Session} {source : String} {program : List Stmt}

/-- A variable of a block that a function uses, under any name, and another one by the name `a` further in. -/
def shadowingProgram (name : String) : List Stmt :=
  [.block [.var ⟨name, 1⟩ (some (.literal (.text "one"))), .function ⟨⟨"f", 1⟩, [], [.print (.variable 0 ⟨name, 1⟩)]⟩,
    .block [.var ⟨"a", 1⟩ (some (.literal (.text "two"))), .expression (.call (.variable 1 ⟨"f", 1⟩) [] 1),
      .print (.variable 2 ⟨"a", 1⟩)]]]

def shadowingText : String :=
  "\x7b var a = 'one'; fun f() \x7b print a; \x7d \x7b var a = 'two'; f(); print a; \x7d \x7d"

end Session

end Scriptlet
