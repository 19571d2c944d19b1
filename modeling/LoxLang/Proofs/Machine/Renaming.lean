import LoxLang.Proofs.Machine.Matching
import LoxLang.Proofs.Tree.Renaming

/-!
# Machines with local variables renamed

Beside a machine that runs a program runs another one that runs the program with local variables
renamed.  Both have the same frames, and a frame that was opened for a marked scope binds `y` in the
second machine to what it binds `x` to in the first.  Which frames are marked is kept beside the
machines; the programs themselves do not need it.  A variable is found at a recorded depth, so in
the frame of the scope that it belongs to, and there its name has become what the renaming makes of
it.
-/

namespace LoxLang

open LoxLang.Action

/-- What is renamed, and the depths by which variables are found. -/
structure Renaming where
  x : String
  y : String
  depths : Depths

/-- Which frames stand for marked scopes. -/
abbrev Marking := FrameId → Bool

/-- A frame and the ones around it have the given marks, the innermost first; then comes the frame
`globals`, which has none. -/
inductive Marked (marking : Marking) (store : Store) (globals : FrameId) :
    FrameId → List Bool → Prop where
  | globals : globals < store.size → store.enclosing? globals = none → marking globals = false →
      Marked marking store globals globals []
  | inner {f outer : FrameId} {marks : List Bool} :
      store.enclosing? f = some outer → Marked marking store globals outer marks →
      Marked marking store globals f (marking f :: marks)

/-- A function whose parameters and body are renamed as the marks of its own scope and of the frames
around its `closure` ask for. -/
structure Function.Renamed (p : Renaming) (marking : Marking) (store : Store) (globals : FrameId)
    (f f' : Function) (closure : FrameId) : Prop where
  name : f'.name = f.name
  body : ∃ mark marks, Marked marking store globals closure marks ∧
    List.Forall₂ (Token.Renamed p.x p.y mark) f.parameters f'.parameters ∧
      Stmt.AllRenamed p.x p.y p.depths (mark :: marks) f.body f'.body

abbrev Value.Renamed (p : Renaming) (marking : Marking) (m : Machine) : Value → Value → Prop :=
  Value.Alike (Function.Renamed p marking m.store m.globals)

structure Machine.Renamed (p : Renaming) (marking : Marking) (m m' : Machine) : Prop where
  size : m.store.size = m'.store.size
  enclosing : ∀ f, m.store.enclosing? f = m'.store.enclosing? f
  values : ∀ f z z', Becomes p.x p.y (marking f) z z' →
    Option.Rel (Value.Renamed p marking m) (m.store.local? f z) (m'.store.local? f z')
  globals : m.globals = m'.globals
  current : m.current = m'.current
  depths : m.depths = p.depths
  depths' : m'.depths = p.depths
  nextObject : m.nextObject = m'.nextObject
  clock : m.clock = m'.clock
  sink : m.sink = m'.sink

/-! ## Frames that are added -/

/-- Frames stay where they are and keep their marks. -/
structure Marking.Grows (marking : Marking) (m : Machine) (marking₁ : Marking) (m₁ : Machine) :
    Prop where
  globals : m₁.globals = m.globals
  size : m.store.size ≤ m₁.store.size
  enclosing : ∀ f < m.store.size, m₁.store.enclosing? f = m.store.enclosing? f
  marking : ∀ f < m.store.size, marking₁ f = marking f

section

variable {p : Renaming} {marking marking₁ marking₂ : Marking} {m m' m₁ m₁' m₂ : Machine}
  {f : FrameId} {marks : List Bool} {mark : Bool} {v v' : Value} {z z' : String}

lemma Marking.Grows.refl (marking : Marking) (m : Machine) : marking.Grows m marking m where
  globals := rfl
  size := le_rfl
  enclosing _ _ := rfl
  marking _ _ := rfl

lemma Marking.Grows.trans (h : marking.Grows m marking₁ m₁) (h' : marking₁.Grows m₁ marking₂ m₂) :
    marking.Grows m marking₂ m₂ where
  globals := h'.globals.trans h.globals
  size := h.size.trans h'.size
  enclosing f hf := (h'.enclosing f (hf.trans_le h.size)).trans (h.enclosing f hf)
  marking f hf := (h'.marking f (hf.trans_le h.size)).trans (h.marking f hf)

lemma Marking.Grows.define (marking : Marking) (m : Machine) (f : FrameId) (z : String)
    (v : Value) : marking.Grows m marking { m with store := m.store.define f z v } where
  globals := rfl
  size := Store.size_define.ge
  enclosing _ _ := Store.enclosing?_define
  marking _ _ := rfl

lemma Marking.Grows.enter (marking : Marking) (mark : Bool) (m : Machine) (outer : FrameId)
    (bindings : List (String × Value)) :
    marking.Grows m (Function.update marking m.store.size mark) (m.enter outer bindings) where
  globals := rfl
  size := (Nat.le_succ _).trans_eq Store.size_extend.symm
  enclosing _ hf := Store.enclosing?_extend_of_lt hf
  marking _ hf := Function.update_of_ne hf.ne _ _

namespace Marked

lemma grow (h : Marked marking m.store m.globals f marks) (hgrows : marking.Grows m marking₁ m₁) :
    Marked marking₁ m₁.store m₁.globals f marks := by
  rw [hgrows.globals]
  induction h with
  | globals hlt hlast hmark =>
    exact .globals (hlt.trans_le hgrows.size) ((hgrows.enclosing _ hlt).trans hlast)
      ((hgrows.marking _ hlt).trans hmark)
  | @inner f outer marks henclosing _ ih =>
    have hlt := Store.lt_size_of_enclosing? henclosing
    rw [← hgrows.marking f hlt]
    exact .inner ((hgrows.enclosing f hlt).trans henclosing) ih

/-- The global frame is the last one, and it is not marked. -/
lemma last (h : Marked marking m.store m.globals f marks) :
    m.store.enclosing? m.globals = none ∧ marking m.globals = false := by
  induction h with
  | globals _ hlast hmark => exact ⟨hlast, hmark⟩
  | inner _ _ ih => exact ih

lemma headD (h : Marked marking m.store m.globals f marks) : marks.headD false = marking f := by
  cases h with
  | globals _ _ hmark => exact hmark.symm
  | inner _ _ => rfl

/-- The frame at depth `d` has the mark at that place. -/
lemma ancestor? (h : Marked marking m.store m.globals f marks) {d : ℕ} {g : FrameId}
    (hg : m.store.ancestor? f d = some g) : marks.getD d false = marking g := by
  induction h generalizing d with
  | globals _ hlast hmark =>
    cases d with
    | zero =>
      obtain rfl := Option.some.inj hg
      exact hmark.symm
    | succ d =>
      rw [Store.ancestor?, hlast] at hg
      exact absurd hg (by simp)
  | inner henclosing _ ih =>
    cases d with
    | zero =>
      obtain rfl := Option.some.inj hg
      rfl
    | succ d =>
      rw [Store.ancestor?, henclosing] at hg
      exact ih hg

end Marked

lemma Value.Renamed.grow (h : v.Renamed p marking m v') (hgrows : marking.Grows m marking₁ m₁) :
    v.Renamed p marking₁ m₁ v' := by
  refine Value.Alike.mono (fun f f' closure hf => ?_) h
  obtain ⟨hname, mark, marks, hmarked, hparameters, hbody⟩ := hf
  exact ⟨hname, mark, marks, hmarked.grow hgrows, hparameters, hbody⟩

lemma optionRel_grow {found found' : Option Value}
    (h : Option.Rel (Value.Renamed p marking m) found found')
    (hgrows : marking.Grows m marking₁ m₁) :
    Option.Rel (Value.Renamed p marking₁ m₁) found found' := by
  cases h with
  | none => exact .none
  | some hv => exact .some (Value.Renamed.grow hv hgrows)

/-! ## Machines -/

namespace Machine.Renamed

lemma define (h : m.Renamed p marking m') (hz : Becomes p.x p.y (marking f) z z')
    (hv : v.Renamed p marking m v') :
    Machine.Renamed p marking { m with store := m.store.define f z v }
      { m' with store := m'.store.define f z' v' } := by
  have hgrows := Marking.Grows.define marking m f z v
  refine { h with size := ?_, enclosing := fun g => ?_, values := fun g w w' hw => ?_ }
  · exact Store.size_define.trans (h.size.trans Store.size_define.symm)
  · exact Store.enclosing?_define.trans ((h.enclosing g).trans Store.enclosing?_define.symm)
  · -- Names of one frame stay apart, so both machines define the same one.
    have hiff : g = f ∧ w' = z' ∧ f < m'.store.size ↔ g = f ∧ w = z ∧ f < m.store.size := by
      rw [h.size]
      refine and_congr_right fun hg => and_congr_left fun _ => ?_
      exact Becomes.eq_iff (hg ▸ hw) hz
    rw [Store.local?_define, Store.local?_define, if_congr hiff rfl rfl]
    split
    · exact .some (Value.Renamed.grow hv hgrows)
    · exact optionRel_grow (h.values g w w' hw) hgrows

lemma defineAll {bindings bindings' : List (String × Value)} (h : m.Renamed p marking m')
    (hb : List.Forall₂
      (fun b b' => Becomes p.x p.y (marking f) b.1 b'.1 ∧ b.2.Renamed p marking m b'.2)
      bindings bindings') :
    Machine.Renamed p marking { m with store := m.store.defineAll f bindings }
      { m' with store := m'.store.defineAll f bindings' } := by
  induction bindings generalizing m m' bindings' with
  | nil =>
    cases hb
    exact h
  | cons b bindings ih =>
    cases hb with
    | cons hb hrest =>
      have hgrows := Marking.Grows.define marking m f b.1 b.2
      exact ih (h.define hb.1 hb.2) (hrest.imp fun _ _ hb => ⟨hb.1, Value.Renamed.grow hb.2 hgrows⟩)

/-- A new frame that binds nothing may be marked or not. -/
lemma enter_nil (h : m.Renamed p marking m') (mark : Bool) (outer : FrameId) :
    Machine.Renamed p (Function.update marking m.store.size mark) (m.enter outer [])
      (m'.enter outer []) := by
  have hsize : (m.enter outer []).store.size = (m'.enter outer []).store.size :=
    Store.size_extend.trans ((congrArg Nat.succ h.size).trans Store.size_extend.symm)
  refine { h with
    size := hsize
    current := h.size
    enclosing := fun g => ?_
    values := fun g z z' hz => ?_ }
  · -- The new frame is the same on both sides, and the others have not changed.
    by_cases hg : g = m.store.size
    · have hfirst : (m.enter outer []).store.enclosing? g = some outer :=
        hg ▸ Store.enclosing?_add_self
      have hsecond : (m'.enter outer []).store.enclosing? g = some outer :=
        (hg.trans h.size) ▸ Store.enclosing?_add_self
      rw [hfirst, hsecond]
    · exact (Store.enclosing?_add_of_ne hg).trans
        ((h.enclosing g).trans (Store.enclosing?_add_of_ne (h.size ▸ hg)).symm)
  · -- Nor does it bind anything, under whatever name.
    by_cases hg : g = m.store.size
    · have hfirst : (m.enter outer []).store.local? g z = none := hg ▸ Store.local?_add_self
      have hsecond : (m'.enter outer []).store.local? g z' = none :=
        (hg.trans h.size) ▸ Store.local?_add_self
      rw [hfirst, hsecond]
      exact .none
    · have hfirst : (m.enter outer []).store.local? g z = m.store.local? g z :=
        Store.local?_add_of_ne hg
      have hsecond : (m'.enter outer []).store.local? g z' = m'.store.local? g z' :=
        Store.local?_add_of_ne (h.size ▸ hg)
      rw [Function.update_of_ne hg] at hz
      rw [hfirst, hsecond]
      exact optionRel_grow (h.values g z z' hz) (.enter marking mark m outer [])

lemma enter {outer : FrameId} {bindings bindings' : List (String × Value)}
    (h : m.Renamed p marking m') (hb : List.Forall₂ (fun b b' => Becomes p.x p.y mark b.1 b'.1 ∧
      b.2.Renamed p marking m b'.2) bindings bindings') :
    Machine.Renamed p (Function.update marking m.store.size mark) (m.enter outer bindings)
      (m'.enter outer bindings') := by
  have hb' : List.Forall₂ (fun b b' =>
      Becomes p.x p.y (Function.update marking m.store.size mark m.store.size) b.1 b'.1 ∧
      b.2.Renamed p (Function.update marking m.store.size mark) (m.enter outer []) b'.2) bindings
        bindings' := by
    rw [Function.update_self]
    exact hb.imp fun _ _ hb => ⟨hb.1, Value.Renamed.grow hb.2 (.enter marking mark m outer [])⟩
  have hall := (h.enter_nil mark outer).defineAll hb'
  nth_rewrite 3 [h.size] at hall
  exact hall

lemma isSome_eq (h : m.Renamed p marking m') (hz : Becomes p.x p.y (marking f) z z') :
    (m'.store.local? f z').isSome = (m.store.local? f z).isSome := by
  have hrel := h.values f z z' hz
  generalize m.store.local? f z = found, m'.store.local? f z' = found' at hrel
  cases hrel <;> rfl

/-- An occurrence is found in the same frame, and its name has become what that frame makes of
it. -/
lemma holder? (h : m.Renamed p marking m')
    (hmarked : Marked marking m.store m.globals m.current marks) {id : NodeId}
    (hz : Becomes p.x p.y (p.depths.mark marks id) z z') :
    m'.holder? .byDepth id z' = m.holder? .byDepth id z ∧
      ∀ f, m.holder? .byDepth id z = some f → Becomes p.x p.y (marking f) z z' := by
  rw [Depths.mark] at hz
  rw [Machine.holder?, Machine.holder?, h.depths, h.depths', ← h.globals, ← h.current]
  -- Without a depth the variable is a global one, and those are not renamed.
  cases hdepth : p.depths.get? id with
  | none =>
    rw [hdepth] at hz
    obtain ⟨hlast, hmark⟩ := hmarked.last
    have hbecomes : Becomes p.x p.y (marking m.globals) z z' := hmark ▸ hz
    dsimp only
    rw [Store.holder?_of_last hlast, Store.holder?_of_last ((h.enclosing _).symm.trans hlast),
      h.isSome_eq hbecomes]
    refine ⟨rfl, fun f hf => ?_⟩
    obtain rfl : m.globals = f := Option.some.inj (Option.ite_none_right_eq_some.mp hf).2
    exact hbecomes
  | some d =>
    rw [hdepth] at hz
    dsimp only
    rw [Store.holderAt?, Store.holderAt?, ← Store.ancestor?_congr h.enclosing]
    cases hg : m.store.ancestor? m.current d with
    | none => exact ⟨rfl, fun _ hf => absurd hf (by simp)⟩
    | some g =>
      have hbecomes : Becomes p.x p.y (marking g) z z' := hmarked.ancestor? hg ▸ hz
      rw [Option.filter_some, Option.filter_some, h.isSome_eq hbecomes]
      refine ⟨rfl, fun f hf => ?_⟩
      obtain rfl : g = f := Option.some.inj (Option.ite_none_right_eq_some.mp hf).2
      exact hbecomes

lemma read? (h : m.Renamed p marking m')
    (hmarked : Marked marking m.store m.globals m.current marks) {id : NodeId}
    (hz : Becomes p.x p.y (p.depths.mark marks id) z z') :
    Option.Rel (Value.Renamed p marking m) (m.read? .byDepth id z) (m'.read? .byDepth id z') := by
  obtain ⟨hholder, hbecomes⟩ := h.holder? hmarked hz
  rw [Machine.read?_eq_bind_holder?, Machine.read?_eq_bind_holder?, hholder]
  cases hf : m.holder? .byDepth id z with
  | none => exact .none
  | some f => exact h.values f z z' (hbecomes f hf)

end Machine.Renamed

end

end LoxLang
