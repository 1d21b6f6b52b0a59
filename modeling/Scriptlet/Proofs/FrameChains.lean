import Mathlib.Order.Bounds.Basic
import Scriptlet.Proofs.StoreLaws

/-!
Chains of frames. Frames are shared: many of them can be inside the same one, and what is bound in a frame shows through
every chain that comes to it. A forest is built by actions on frames that exist. Its links lead to older frames and stay
as they are, so every chain ends; the search for a name along a chain and the walk over a distance then meet at the
nearest frame that binds the name.
-/
namespace Scriptlet.Frames

/-- What can be done to a forest. -/
inductive Action where
  /-- Adds a frame that is inside of no other. -/
  | root
  | child (parent : Ref .frame)
  | define (frame : Ref .frame) (name : String) (value : Value)
  | assign (frame : Ref .frame) (name : String) (value : Value)
  | assignAt (frame : Ref .frame) (distance : Nat) (name : String) (value : Value)

namespace Action

/-- The frame that an action goes through. -/
def handle? : Action → Option (Ref .frame)
  | .root => none
  | .child f | .define f _ _ | .assign f _ _ | .assignAt f _ _ _ => some f

/-- Only frames that exist can be gone through. -/
def Valid (a : Action) (fs : Frames) : Prop := ∀ f ∈ a.handle?, f.index < fs.size

/-- The forest after an action; one that fails leaves it as it is. -/
def perform (fs : Frames) : Action → Frames
  | .root => fs.alloc outermost
  | .child parent => fs.child parent
  | .define f name value => fs.define f name value
  | .assign f name value => (fs.assign f name value).getD fs
  | .assignAt f distance name value => (fs.assignAt f distance name value).getD fs

end Action

/-- Actions lead from the first forest to the second. -/
inductive Becomes (fs : Frames) : Frames → Prop
  | refl : Becomes fs fs
  | act {gs : Frames} (a : Action) : Becomes fs gs → a.Valid gs → Becomes fs (a.perform gs)

/-- A forest that actions have made out of nothing. -/
def Built (fs : Frames) : Prop := Becomes Heap.empty fs

/-- Every link leads to an older frame. -/
def Older (fs : Frames) : Prop := ∀ f p, fs.enclosing f = some p → p.index < f.index

variable {fs gs : Frames} {f g : Ref .frame} {x y : String} {v : Value} {d : Nat}

/-- An action adds an empty frame, binds a name in some frame, or does nothing. -/
theorem perform_cases {a : Action} (valid : a.Valid fs) :
    (∃ parent?, (∀ p ∈ parent?, p.index < fs.size) ∧ a.perform fs = fs.alloc ⟨.empty, parent?⟩) ∨
      (∃ f x v, a.perform fs = fs.define f x v) ∨ a.perform fs = fs := by
  cases a with
  | root => exact .inl ⟨none, by simp, rfl⟩
  | child parent => exact .inl ⟨some parent, valid, rfl⟩
  | define f x v => exact .inr (.inl ⟨f, x, v, rfl⟩)
  | assign f x v =>
    simp only [Action.perform, assign]
    cases fs.owner? f x with
    | none => exact .inr (.inr rfl)
    | some o => exact .inr (.inl ⟨o, x, v, rfl⟩)
  | assignAt f d x v =>
    simp only [Action.perform, assignAt]
    cases fs.ancestor f d with
    | none => exact .inr (.inr rfl)
    | some o => exact .inr (.inl ⟨o, x, v, rfl⟩)

section Links

theorem enclosing_alloc (a : Frame) :
    enclosing (fs.alloc a) f = if f = fs.next then a.enclosing else fs.enclosing f := by
  simp only [enclosing, Heap.get?_alloc]
  split <;> rfl

theorem enclosing_perform {a : Action} (valid : a.Valid fs) (hf : f.index < fs.size) :
    (a.perform fs).enclosing f = fs.enclosing f := by
  obtain ⟨parent?, -, new⟩ | ⟨g, x, v, bound⟩ | same := perform_cases valid
  · rw [new, enclosing_alloc, if_neg (ne_next hf)]
  · rw [bound, enclosing_define]
  · rw [same]

theorem size_perform {a : Action} (valid : a.Valid fs) : fs.size ≤ (a.perform fs).size := by
  obtain ⟨parent?, -, new⟩ | ⟨g, x, v, bound⟩ | same := perform_cases valid
  · rw [new, Heap.size_alloc]
    omega
  · rw [bound, size_define]
  · rw [same]

/-- A new frame is younger than any other, and nothing else gets a link. -/
theorem Older.perform (h : fs.Older) {a : Action} (valid : a.Valid fs) : (a.perform fs).Older := by
  intro f p hp
  obtain ⟨parent?, inside, new⟩ | ⟨g, x, v, bound⟩ | same := perform_cases valid
  · rw [new, enclosing_alloc] at hp
    split at hp
    · next hf =>
      subst hf
      exact inside p hp
    · exact h f p hp
  · rw [bound, enclosing_define] at hp
    exact h f p hp
  · rw [same] at hp
    exact h f p hp

/-- Whatever is done, frames stay, and so do their links. -/
theorem Becomes.enclosing (h : Becomes fs gs) (hf : f.index < fs.size) :
    f.index < gs.size ∧ gs.enclosing f = fs.enclosing f := by
  induction h with
  | refl => exact ⟨hf, rfl⟩
  | act a _ valid ih =>
    obtain ⟨exists', same⟩ := ih
    have grown := size_perform valid
    exact ⟨by omega, (enclosing_perform valid exists').trans same⟩

theorem Built.older (h : fs.Built) : fs.Older := by
  induction h with
  | refl =>
    intro f p hp
    simp [Frames.enclosing] at hp
  | act a _ valid ih => exact ih.perform valid

end Links

section Chains

/-- The chain from a frame ends after at most as many links as there are older frames. -/
theorem Older.chain_ends (h : fs.Older) (f : Ref .frame) :
    ∃ last ≤ f.index, ∀ d, (fs.ancestor f d).isSome ↔ d ≤ last := by
  obtain ⟨n, hn⟩ : ∃ n, n = f.index := ⟨_, rfl⟩
  induction n using Nat.strong_induction_on generalizing f with
  | h n ih =>
    cases hp : fs.enclosing f with
    | none =>
      refine ⟨0, Nat.zero_le _, fun d => ?_⟩
      cases d with
      | zero => simp [ancestor]
      | succ d => simp [ancestor, hp]
    | some p =>
      have older := h f p hp
      obtain ⟨last, le, ends⟩ := ih p.index (by omega) p rfl
      refine ⟨last + 1, by omega, fun d => ?_⟩
      cases d with
      | zero => simp [ancestor]
      | succ d =>
        rw [ancestor, hp, Option.bind_some, ends d]
        omega

theorem Older.index_ancestor (h : fs.Older) (hg : fs.ancestor f d = some g) : g.index ≤ f.index := by
  induction d generalizing f with
  | zero =>
    cases hg
    exact Nat.le_refl _
  | succ d ih =>
    obtain ⟨p, hp, hg⟩ := Option.bind_eq_some_iff.1 hg
    have older := h f p hp
    have le := ih hg
    omega

theorem getAt_succ : fs.getAt f (d + 1) x = (fs.enclosing f).bind fun p => fs.getAt p d x := by
  simp only [getAt, ancestor, Option.bind_assoc]

/-- The search for a name goes from link to link. -/
theorem Older.owner?_eq (h : fs.Older) (f : Ref .frame) (x : String) :
    fs.owner? f x = if (fs.fetch f x).isSome then some f else (fs.enclosing f).bind (fs.owner? · x) := by
  rw [owner?]
  split
  · rfl
  · cases hp : fs.enclosing f with
    | none => rfl
    | some p => exact dif_pos (h f p hp)

/-- The distances at which the chain of a frame binds a name. -/
def bindsAt (fs : Frames) (f : Ref .frame) (x : String) : Set Nat := {d | (fs.getAt f d x).isSome}

/-- The search finds the frame at the least distance at which the name is bound, if there is one. -/
theorem Older.owner?_cases (h : fs.Older) (f : Ref .frame) (x : String) :
    (∃ o d, fs.owner? f x = some o ∧ IsLeast (fs.bindsAt f x) d ∧ fs.ancestor f d = some o) ∨
      fs.owner? f x = none ∧ ∀ d, d ∉ fs.bindsAt f x := by
  obtain ⟨n, hn⟩ : ∃ n, n = f.index := ⟨_, rfl⟩
  induction n using Nat.strong_induction_on generalizing f with
  | h n ih =>
    rw [h.owner?_eq]
    split
    · next here => exact .inl ⟨f, 0, rfl, ⟨here, fun _ _ => Nat.zero_le _⟩, rfl⟩
    · next away =>
      cases hp : fs.enclosing f with
      | none =>
        refine .inr ⟨rfl, fun d bound => ?_⟩
        cases d with
        | zero => exact away bound
        | succ d =>
          have bound : (fs.getAt f (d + 1) x).isSome := bound
          rw [getAt_succ, hp] at bound
          cases bound
      | some p =>
        -- one link further out, every distance is less by one
        have further (d : Nat) : d + 1 ∈ fs.bindsAt f x ↔ d ∈ fs.bindsAt p x := by
          show (fs.getAt f (d + 1) x).isSome ↔ (fs.getAt p d x).isSome
          rw [getAt_succ, hp, Option.bind_some]
        have older := h f p hp
        rcases ih p.index (by omega) p rfl with ⟨o, d, owner, ⟨bound, least⟩, at'⟩ | ⟨owner, nowhere⟩
        · refine .inl ⟨o, d + 1, owner, ⟨(further d).2 bound, ?_⟩, by rw [ancestor, hp]; exact at'⟩
          intro k hk
          cases k with
          | zero => exact absurd hk away
          | succ k => exact Nat.succ_le_succ (least ((further k).1 hk))
        · refine .inr ⟨owner, fun d bound => ?_⟩
          cases d with
          | zero => exact away bound
          | succ d => exact nowhere d ((further d).1 bound)

end Chains

section Writes

@[simp]
theorem ancestor_define : (fs.define g x v).ancestor f d = fs.ancestor f d := by
  induction d generalizing f with
  | zero => rfl
  | succ d ih => simp only [ancestor, enclosing_define, ih]

/-- What is bound in a frame shows wherever a chain comes to it, and nowhere else. -/
theorem getAt_define (hg : g.index < fs.size) :
    (fs.define g x v).getAt f d y = if fs.ancestor f d = some g ∧ y = x then some v else fs.getAt f d y := by
  rw [getAt, ancestor_define, getAt]
  cases ha : fs.ancestor f d with
  | none => simp
  | some a =>
    simp only [Option.bind_some, Option.some.injEq]
    by_cases same : a = g
    · subst same
      obtain ⟨frame, found⟩ := get?_of_index_lt hg
      rw [fetch_define, found]
      by_cases name : y = x <;> simp [name]
    · rw [fetch_define_of_ne same, if_neg fun both => same both.1]

end Writes

/-- The laws of the chains of a forest. A link leads to an older frame and never changes, so every chain ends and the
search for a name goes from link to link until it does. An assignment succeeds exactly if the name is bound somewhere on
the chain, and then it is the write at the least such distance. A write shows through every chain that comes to the frame
at the distance that its own chain has come to it, for that name; all else reads as before. -/
theorem chain_laws (built : fs.Built) :
    (∀ f p, fs.enclosing f = some p → p.index < f.index) ∧
    (∀ gs, Becomes fs gs → ∀ f, f.index < fs.size → gs.enclosing f = fs.enclosing f) ∧
    (∀ f, ∃ last ≤ f.index, ∀ d, (fs.ancestor f d).isSome ↔ d ≤ last) ∧
    (∀ f x v, fs.assign f x v =
      if (fs.fetch f x).isSome then some (fs.define f x v) else (fs.enclosing f).bind (fs.assign · x v)) ∧
    (∀ f x v, ((fs.assign f x v).isSome ↔ ∃ d, d ∈ fs.bindsAt f x) ∧
      (∀ d, IsLeast (fs.bindsAt f x) d → fs.assign f x v = fs.assignAt f d x v) ∧
      ((∀ d, d ∉ fs.bindsAt f x) → (Action.assign f x v).perform fs = fs)) ∧
    ∀ e d x v gs, e.index < fs.size → fs.assignAt e d x v = some gs →
      ∀ f n y, gs.getAt f n y = if fs.ancestor f n = fs.ancestor e d ∧ y = x then some v else fs.getAt f n y := by
  have older := built.older
  refine ⟨older, fun gs h f hf => (h.enclosing hf).2, older.chain_ends, ?_, ?_, ?_⟩
  · intro f x v
    rw [assign, older.owner?_eq]
    split
    · rfl
    · cases fs.enclosing f <;> rfl
  · intro f x v
    rw [assign]
    rcases older.owner?_cases f x with ⟨o, d, owner, least, at'⟩ | ⟨owner, nowhere⟩
    · refine ⟨by simpa [owner] using ⟨d, least.1⟩, fun k hk => ?_, fun nowhere => absurd least.1 (nowhere d)⟩
      rw [hk.unique least, assignAt, owner, at']
    · refine ⟨by simpa [owner] using nowhere, fun k hk => absurd hk.1 (nowhere k), fun _ => ?_⟩
      rw [Action.perform, assign, owner]
      rfl
  · intro e d x v gs he written f n y
    obtain ⟨a, ha, rfl⟩ := Option.map_eq_some_iff.1 written
    have existing : a.index < fs.size := Nat.lt_of_le_of_lt (older.index_ancestor ha) he
    rw [getAt_define existing, ha]

/-- A frame with two children, one of which has a child of its own. -/
def familyActions : List Action :=
  [.root, .child ⟨0⟩, .child ⟨1⟩, .child ⟨0⟩, .define ⟨0⟩ "x" .null, .define ⟨1⟩ "y" .null]

def family : Frames := familyActions.foldl Action.perform Heap.empty

theorem family_built : family.Built := by
  have valid {a : Action} {fs : Frames} {f : Ref .frame} (handle : a.handle? = some f) (hf : f.index < fs.size) :
      a.Valid fs := by
    intro g hg
    rw [handle] at hg
    cases hg
    exact hf
  have root : Becomes Heap.empty (Action.root.perform Heap.empty) := .act .root .refl (by simp [Action.Valid, Action.handle?])
  have children := ((root.act (.child ⟨0⟩) (valid rfl (by decide))).act (.child ⟨1⟩) (valid rfl (by decide))).act
    (.child ⟨0⟩) (valid rfl (by decide))
  exact (children.act (.define ⟨0⟩ "x" .null) (valid rfl (by decide))).act (.define ⟨1⟩ "y" .null) (valid rfl (by decide))

/-- The innermost frame assigns to the outermost one, and the other child sees it. -/
theorem chain_laws_family :
    family.Built ∧ IsLeast (family.bindsAt ⟨2⟩ "x") 2 ∧
      ∃ gs, family.assign ⟨2⟩ "x" (.boolean true) = some gs ∧
        gs.getAt ⟨3⟩ 1 "x" = some (.boolean true) ∧ gs.getAt ⟨2⟩ 1 "y" = some .null := by
  obtain ⟨-, -, -, -, assigns, writes⟩ := chain_laws family_built
  have least : IsLeast (family.bindsAt ⟨2⟩ "x") 2 := by
    refine ⟨rfl, fun d bound => ?_⟩
    match d with
    | 0 | 1 => cases bound
    | d + 2 => omega
  obtain ⟨gs, written⟩ : ∃ gs, family.assignAt ⟨2⟩ 2 "x" (.boolean true) = some gs := ⟨_, rfl⟩
  have shows := writes ⟨2⟩ 2 "x" (.boolean true) gs (by decide) written
  exact ⟨family_built, least, gs, ((assigns ⟨2⟩ "x" _).2.1 2 least).trans written, shows ⟨3⟩ 1 "x", shows ⟨2⟩ 1 "y"⟩

end Scriptlet.Frames
