import Scriptlet.Proofs.History
import Scriptlet.Proofs.SiteNames

/-!
The frames of a running program against the scopes of its text. From the frame in which a part of a program runs, the
frames outward are those that were opened for the regions around the part, and each holds the names that its scope has
there, except for a name whose initial value is being computed. Closures and methods keep the frame that fits where they
were declared. All of this stays true as frames are added and names are bound.
-/
namespace Scriptlet

open Scope (Site Region Visits extend)

/-- The analysis of an accepted text has come to this site. -/
def Visited (t : Trace) (site : Site) : Prop := ∃ root, .accepted root ∈ t ∧ Visits root site

/-- Every accepted text was fit for the analysis. -/
def Sane (t : Trace) : Prop := ∀ root, .accepted root ∈ t → root.Good ∧ root.Inside

theorem Visited.good {t : Trace} {site : Site} (h : Visited t site) (sane : Sane t) : site.Good := by
  obtain ⟨root, accepted, visits⟩ := h
  exact (visits.good (sane root accepted).1).1

theorem Visited.inside {t : Trace} {site : Site} (h : Visited t site) (sane : Sane t) : site.Inside := by
  obtain ⟨root, accepted, visits⟩ := h
  exact visits.inside (sane root accepted).1 (sane root accepted).2

theorem Visited.part {t : Trace} {site q : Site} (h : Visited t site) (hq : q ∈ site.parts) : Visited t q := by
  obtain ⟨root, accepted, visits⟩ := h
  exact ⟨root, accepted, visits.part hq⟩

/-- The name is bound in the frame, or its initial value has been begun there. -/
def Touched (t : Trace) (fs : Frames) (f : Ref .frame) (x : String) : Prop := fs.Bound f x ∨ .begun f x ∈ t

/-- The frames from `f` outward are those of the regions, and but for hidden names the scopes' names are there. -/
def Fits (t : Trace) (fs : Frames) (hidden : List String) (f : Ref .frame) : List Region → List (List String) → Prop
  | [], [] => f = Store.globals
  | r :: rs, ns :: nss => f ≠ Store.globals ∧ .opened f r ∈ t ∧ (∀ x ∈ ns, x ∉ hidden → Touched t fs f x) ∧
      ∃ p, fs.enclosing f = some p ∧ Fits t fs [] p rs nss
  | _, _ => False

/-- The part can run in the frame. -/
def Runs (t : Trace) (fs : Frames) (hidden : List String) (f : Ref .frame) (part : Part) : Prop :=
  ∃ site, Visited t site ∧ site.part = part ∧ Fits t fs hidden f site.regions site.names

/-- The routine was declared where the frame fits. -/
def Closed (t : Trace) (fs : Frames) (f : Ref .frame) (r : Routine) : Prop := ∃ kind, Runs t fs [] f (.routine kind r)

/-- The method was declared where the frame fits; the scope of its receiver is not open yet. -/
def Unbound (t : Trace) (fs : Frames) (f : Ref .frame) (m : Routine) : Prop :=
  ∃ site kind rs nss, Visited t site ∧ site.part = .routine kind m ∧ site.regions = .receiver m :: rs ∧
    site.names = ["this"] :: nss ∧ Fits t fs [] f rs nss

/-- A class whose name is there already. -/
def Declaring (t : Trace) (fs : Frames) (f : Ref .frame) (d : ClassDeclaration) : Prop :=
  ∃ site, Visited t site ∧ site.part = .stmt (.class d) ∧ Fits t fs [] f site.regions (extend [d.name.text] site.names)

/-- Right in the region of the frame the name is declared as a variable with an initial value, and not in any other way. -/
def Initialized (t : Trace) (f : Ref .frame) (x : String) : Prop :=
  ∃ region name e, .opened f region ∈ t ∧ .var name (some e) ∈ region.body ∧ name.text = x ∧ region.names.Nodup

/-- What may come later: more has happened, frames stay inside the same frames, and local names stay bound. -/
structure Later (t : Trace) (fs : Frames) (t' : Trace) (fs' : Frames) : Prop where
  trace : ∀ e ∈ t, e ∈ t'
  size : fs.size ≤ fs'.size
  enclosing : ∀ f p, fs.enclosing f = some p → fs'.enclosing f = some p
  bound : ∀ f x, f ≠ Store.globals → fs.Bound f x → fs'.Bound f x

section Later

variable {t t' : Trace} {fs fs' : Frames} {hidden : List String} {f : Ref .frame}

theorem Later.refl (t : Trace) (fs : Frames) : Later t fs t fs :=
  ⟨fun _ h => h, Nat.le_refl _, fun _ _ h => h, fun _ _ _ h => h⟩

theorem Later.trans {t'' : Trace} {fs'' : Frames} (h : Later t fs t' fs') (h' : Later t' fs' t'' fs'') :
    Later t fs t'' fs'' where
  trace e he := h'.trace e (h.trace e he)
  size := Nat.le_trans h.size h'.size
  enclosing f p hp := h'.enclosing f p (h.enclosing f p hp)
  bound f x hf hx := h'.bound f x hf (h.bound f x hf hx)

theorem Visited.later {site : Site} (h : Visited t site) (l : Later t fs t' fs') : Visited t' site := by
  obtain ⟨root, accepted, visits⟩ := h
  exact ⟨root, l.trace _ accepted, visits⟩

theorem Fits.later {rs : List Region} {nss : List (List String)} (h : Fits t fs hidden f rs nss) (l : Later t fs t' fs') :
    Fits t' fs' hidden f rs nss := by
  induction rs generalizing f nss hidden with
  | nil =>
    cases nss with
    | nil => exact h
    | cons ns nss => cases h
  | cons r rs ih =>
    cases nss with
    | nil => cases h
    | cons ns nss =>
      obtain ⟨notGlobal, opened, touched, p, enclosing, outer⟩ := h
      refine ⟨notGlobal, l.trace _ opened, fun x hx hidden => ?_, p, l.enclosing f p enclosing, ih outer⟩
      exact (touched x hx hidden).imp (l.bound f x notGlobal) (l.trace _)

theorem Initialized.later {x : String} (h : Initialized t f x) (l : Later t fs t' fs') : Initialized t' f x := by
  obtain ⟨region, name, e, opened, hm, hx⟩ := h
  exact ⟨region, name, e, l.trace _ opened, hm, hx⟩

theorem Runs.later {part : Part} (h : Runs t fs hidden f part) (l : Later t fs t' fs') : Runs t' fs' hidden f part := by
  obtain ⟨site, visited, hp, fits⟩ := h
  exact ⟨site, visited.later l, hp, fits.later l⟩

theorem Closed.later {r : Routine} (h : Closed t fs f r) (l : Later t fs t' fs') : Closed t' fs' f r := by
  obtain ⟨kind, runs⟩ := h
  exact ⟨kind, runs.later l⟩

theorem Unbound.later {m : Routine} (h : Unbound t fs f m) (l : Later t fs t' fs') : Unbound t' fs' f m := by
  obtain ⟨site, kind, rs, nss, visited, hp, hr, hn, fits⟩ := h
  exact ⟨site, kind, rs, nss, visited.later l, hp, hr, hn, fits.later l⟩

theorem Declaring.later {d : ClassDeclaration} (h : Declaring t fs f d) (l : Later t fs t' fs') :
    Declaring t' fs' f d := by
  obtain ⟨site, visited, hp, fits⟩ := h
  exact ⟨site, visited.later l, hp, fits.later l⟩

end Later

section Names

variable {t : Trace} {fs : Frames} {hidden : List String} {f : Ref .frame} {rs : List Region} {nss : List (List String)}

/-- Names may be added to the innermost scope, and others be hidden, as long as all that show are there. -/
theorem Fits.adjust (h : Fits t fs hidden f rs nss) (ds hidden' : List String)
    (there : f ≠ Store.globals → ∀ x, x ∈ hidden ∨ x ∈ ds → x ∉ hidden' → Touched t fs f x) :
    Fits t fs hidden' f rs (extend ds nss) := by
  cases rs with
  | nil =>
    cases nss with
    | nil => exact h
    | cons ns nss => cases h
  | cons r rs =>
    cases nss with
    | nil => cases h
    | cons ns nss =>
      obtain ⟨notGlobal, opened, touched, outer⟩ := h
      refine ⟨notGlobal, opened, fun x hx hidden' => ?_, outer⟩
      rcases List.mem_append.1 hx with hx | hx
      · by_cases hidden : x ∈ hidden
        · exact there notGlobal x (.inl hidden) hidden'
        · exact touched x hx hidden
      · exact there notGlobal x (.inr hx) hidden'

/-- What is hidden comes out when it is there. -/
theorem Fits.reveal (h : Fits t fs hidden f rs nss) (there : f ≠ Store.globals → ∀ x ∈ hidden, Touched t fs f x) :
    Fits t fs [] f rs nss := by
  have fits := h.adjust [] [] fun hf x hx _ => there hf x (hx.resolve_right List.not_mem_nil)
  rwa [Scope.extend_nil] at fits

theorem Fits.hide (h : Fits t fs [] f rs nss) (hidden : List String) : Fits t fs hidden f rs nss := by
  have fits := h.adjust [] hidden fun _ x hx _ => by simp at hx
  rwa [Scope.extend_nil] at fits

theorem Fits.add (h : Fits t fs [] f rs nss) {x : String} (there : f ≠ Store.globals → Touched t fs f x) :
    Fits t fs [] f rs (extend [x] nss) :=
  h.adjust [x] [] fun hf y hy _ => by
    obtain rfl := List.mem_singleton.1 (hy.resolve_left List.not_mem_nil)
    exact there hf

end Names

section Parts

open Scriptlet.Part (exprChildren stmtChildren)

variable {t : Trace} {fs : Frames} {hidden : List String} {f : Ref .frame}

theorem Visited.runs {site : Site} {p : Part} {rs : List Region} {nss : List (List String)} (h : Visited t site)
    (holds : site.Holds p rs nss) (fits : Fits t fs hidden f rs nss) : Runs t fs hidden f p := by
  obtain ⟨q, hq, hp, rfl, rfl⟩ := holds
  exact ⟨q, h.part hq, hp, fits⟩

theorem Runs.hide {p : Part} (h : Runs t fs [] f p) (hidden : List String) : Runs t fs hidden f p := by
  obtain ⟨site, visited, hp, fits⟩ := h
  exact ⟨site, visited, hp, fits.hide hidden⟩

theorem Runs.reveal {p : Part} (h : Runs t fs hidden f p) (there : f ≠ Store.globals → ∀ x ∈ hidden, Touched t fs f x) :
    Runs t fs [] f p := by
  obtain ⟨site, visited, hp, fits⟩ := h
  exact ⟨site, visited, hp, fits.reveal there⟩

theorem Runs.ofExpr {e : Expr} {p : Part} (h : Runs t fs [] f (.expr e)) (sane : Sane t) (hp : p ∈ exprChildren e) :
    Runs t fs [] f p := by
  obtain ⟨site, visited, hs, fits⟩ := h
  exact visited.runs ((visited.good sane).holds_expr hs hp) fits

theorem Runs.ofPlain {x : Stmt} {p : Part} (h : Runs t fs [] f (.stmt x)) (sane : Sane t) (hx : Scope.Plain x)
    (hp : p ∈ stmtChildren x) : Runs t fs [] f p := by
  obtain ⟨site, visited, hs, fits⟩ := h
  exact visited.runs ((visited.good sane).holds_plain hs hx hp) fits

theorem Runs.head {x : Stmt} {xs : List Stmt} (h : Runs t fs [] f (.stmts (x :: xs))) : Runs t fs [] f (.stmt x) := by
  obtain ⟨site, visited, hs, fits⟩ := h
  exact visited.runs (Site.Good.holds_head hs) fits

/-- What a statement declares is not there while it has not run. -/
theorem Runs.tail {x : Stmt} {xs : List Stmt} (h : Runs t fs [] f (.stmts (x :: xs))) (sane : Sane t) :
    Runs t fs (Scope.declaredNames (.stmt x)) f (.stmts xs) := by
  obtain ⟨site, visited, hs, fits⟩ := h
  refine visited.runs ((visited.good sane).holds_tail hs) (fits.adjust _ _ fun _ y hy hidden => ?_)
  exact absurd (hy.resolve_left List.not_mem_nil) hidden

theorem Runs.initial {name : Name} {e : Expr} (h : Runs t fs [] f (.stmt (.var name (some e)))) (sane : Sane t)
    (there : f ≠ Store.globals → Touched t fs f name.text) : Runs t fs [] f (.expr e) := by
  obtain ⟨site, visited, hs, fits⟩ := h
  exact visited.runs ((visited.good sane).holds_var hs) (fits.add there)

theorem Runs.initialized {name : Name} {e : Expr} (h : Runs t fs [] f (.stmt (.var name (some e)))) (sane : Sane t) :
    name.text ≠ "this" ∧ (f ≠ Store.globals → Initialized t f name.text) := by
  obtain ⟨site, visited, hs, fits⟩ := h
  have tidy := (visited.good sane).shaped.tidy
  have inside := visited.inside sane
  obtain ⟨part, regions, c⟩ := site
  subst hs
  refine ⟨tidy name rfl, fun notGlobal => ?_⟩
  cases regions with
  | nil =>
    cases hn : Site.names ⟨.stmt (.var name (some e)), [], c⟩ with
    | nil =>
      rw [hn] at fits
      exact absurd fits notGlobal
    | cons ns nss =>
      rw [hn] at fits
      cases fits
  | cons region regions =>
    cases hn : Site.names ⟨.stmt (.var name (some e)), region :: regions, c⟩ with
    | nil =>
      rw [hn] at fits
      cases fits
    | cons ns nss =>
      rw [hn] at fits
      obtain ⟨hm, nodup⟩ := inside rfl
      exact ⟨region, name, e, fits.2.1, hm, rfl, nodup⟩

theorem Runs.function {r : Routine} (h : Runs t fs [] f (.stmt (.function r))) (sane : Sane t)
    (there : f ≠ Store.globals → Touched t fs f r.name.text) : Closed t fs f r := by
  obtain ⟨site, visited, hs, fits⟩ := h
  exact ⟨.function, visited.runs ((visited.good sane).holds_function hs) (fits.add there)⟩

theorem Runs.declaring {d : ClassDeclaration} (h : Runs t fs [] f (.stmt (.class d)))
    (there : f ≠ Store.globals → Touched t fs f d.name.text) : Declaring t fs f d := by
  obtain ⟨site, visited, hs, fits⟩ := h
  exact ⟨site, visited, hs, fits.add there⟩

theorem Declaring.base {d : ClassDeclaration} {e : Expr} (h : Declaring t fs f d) (sane : Sane t) (he : d.base = some e) :
    Runs t fs [] f (.expr e) := by
  obtain ⟨site, visited, hs, fits⟩ := h
  exact visited.runs ((visited.good sane).holds_base hs he) fits

theorem Declaring.static {d : ClassDeclaration} {r : Routine} (h : Declaring t fs f d) (sane : Sane t)
    (hr : r ∈ d.statics) : Closed t fs f r := by
  obtain ⟨site, visited, hs, fits⟩ := h
  exact ⟨.static, visited.runs ((visited.good sane).holds_static hs hr) fits⟩

theorem Declaring.method {d : ClassDeclaration} {m : Routine} (h : Declaring t fs f d) (sane : Sane t)
    (hm : m ∈ d.methods) : Unbound t fs f m := by
  obtain ⟨site, visited, hs, fits⟩ := h
  obtain ⟨q, hq, hp, hr, hn⟩ := (visited.good sane).holds_method hs hm
  exact ⟨q, _, _, _, visited.part hq, hp, hr, hn, fits⟩

variable {g : Ref .frame}

/-- A frame that was just opened inside another one. -/
structure Opened (t : Trace) (fs : Frames) (g : Ref .frame) (region : Region) (outer : Ref .frame) : Prop where
  notGlobal : g ≠ Store.globals
  opened : .opened g region ∈ t
  enclosing : fs.enclosing g = some outer

theorem Runs.block {ss : List Stmt} (h : Runs t fs [] f (.stmt (.block ss))) (new : Opened t fs g (.block ss) f) :
    Runs t fs [] g (.stmts ss) := by
  obtain ⟨site, visited, hs, fits⟩ := h
  exact visited.runs (Site.Good.holds_block hs) ⟨new.notGlobal, new.opened, by simp, f, new.enclosing, fits⟩

theorem Closed.body {r : Routine} (h : Closed t fs f r) (sane : Sane t) (new : Opened t fs g (.call r) f)
    (params : ∀ x ∈ r.params, fs.Bound g x.text) : Runs t fs [] g (.stmts r.body) := by
  obtain ⟨kind, site, visited, hs, fits⟩ := h
  refine visited.runs ((visited.good sane).holds_routine hs) ⟨new.notGlobal, new.opened, ?_, f, new.enclosing, fits⟩
  intro x hx _
  obtain ⟨p, hp, rfl⟩ := List.mem_map.1 hx
  exact .inl (params p hp)

theorem Unbound.bind {m : Routine} (h : Unbound t fs f m) (new : Opened t fs g (.receiver m) f)
    (this : fs.Bound g "this") : Closed t fs g m := by
  obtain ⟨site, kind, rs, nss, visited, hp, hr, hn, fits⟩ := h
  refine ⟨kind, site, visited, hp, ?_⟩
  rw [hr, hn]
  refine ⟨new.notGlobal, new.opened, fun x hx _ => ?_, f, new.enclosing, fits⟩
  obtain rfl := List.mem_singleton.1 hx
  exact .inl this

end Parts

end Scriptlet
