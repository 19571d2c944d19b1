import LoxLang.Proofs.Lists
import LoxLang.Store

/-!
# What the store's operations change

Adding a frame leaves the other frames alone.  Binding a name changes one name of one frame, and no
frame ever moves to another place in the chain.
-/

namespace LoxLang

lemma Bindings.lookup_set (x y : String) (v : Value) (b : Bindings) :
    (Bindings.set x v b).lookup y = if y = x then some v else b.lookup y := by
  induction b with
  | nil => rw [Bindings.set, lookup_cons_ite]
  | cons entry rest ih =>
    obtain ⟨key, old⟩ := entry
    rw [Bindings.set]
    by_cases hkey : key = x
    · subst hkey
      rw [if_pos rfl, lookup_cons_ite, lookup_cons_ite]
      by_cases h : y = key <;> simp [h]
    · rw [if_neg hkey, lookup_cons_ite, lookup_cons_ite, ih]
      by_cases h : y = key
      · simp [h, hkey]
      · simp [h]

namespace Store

variable {s : Store} {f g : FrameId} {x y : String} {v : Value}

/-! ## Frames -/

/-- The number of frames, which is also the number of the next frame that `add` makes. -/
abbrev size (s : Store) : ℕ := s.frames.size

/-- The frame `f` itself binds the name `x`. -/
def Binds (s : Store) (f : FrameId) (x : String) : Prop := (s.local? f x).isSome

lemma Binds.of_eq (h : s.local? f x = some v) : s.Binds f x := by
  rw [Binds, h]
  rfl

lemma Binds.exists (h : s.Binds f x) : ∃ v, s.local? f x = some v := Option.isSome_iff_exists.mp h

lemma lt_size_of_local? (h : s.local? f x = some v) : f < s.size := by
  by_contra hge
  rw [local?, Array.getElem?_eq_none (Nat.le_of_not_lt hge)] at h
  simp at h

lemma Binds.lt_size (h : s.Binds f x) : f < s.size := by
  obtain ⟨v, hv⟩ := h.exists
  exact lt_size_of_local? hv

lemma lt_size_of_enclosing? (h : s.enclosing? f = some g) : f < s.size := by
  by_contra hge
  rw [enclosing?, Array.getElem?_eq_none (Nat.le_of_not_lt hge)] at h
  simp at h

/-- A variable at the distance `d` is read in the frame that `holderAt?` gives. -/
lemma getAt?_eq_bind_holderAt? (s : Store) (f : FrameId) (d : ℕ) (x : String) :
    s.getAt? f d x = (s.holderAt? f d x).bind fun g => s.local? g x := by
  rw [getAt?, holderAt?]
  cases s.ancestor? f d with
  | none => rfl
  | some g => cases hg : s.local? g x <;> simp [Option.filter, hg]

/-! ## Binding a name -/

/-- `ancestor?` depends on `enclosing?` only. -/
lemma ancestor?_congr {s' : Store} (h : ∀ f, s.enclosing? f = s'.enclosing? f)
    (f : FrameId) (d : ℕ) : s.ancestor? f d = s'.ancestor? f d := by
  induction d generalizing f with
  | zero => rfl
  | succ d ih =>
    rw [ancestor?, ancestor?, h]
    exact congrArg _ (funext fun outer => ih outer)

/-- A search by `holderWithin` stops at a frame that binds the name. -/
lemma binds_of_holderWithin (steps : ℕ) (g : FrameId)
    (h : s.holderWithin x steps g = some f) : s.Binds f x := by
  induction steps generalizing g with
  | zero => exact absurd h (by simp [holderWithin])
  | succ steps ih =>
    rw [holderWithin] at h
    split at h
    · rename_i v hv
      obtain rfl := Option.some.inj h
      exact .of_eq hv
    · obtain ⟨outer, -, hrest⟩ := Option.bind_eq_some_iff.mp h
      exact ih outer hrest

/-- From a frame that lies in no other one, a name is found there or nowhere. -/
lemma holder?_of_last (h : s.enclosing? f = none) (x : String) :
    s.holder? f x = if (s.local? f x).isSome then some f else none := by
  rw [holder?, holderWithin, h]
  cases s.local? f x <;> rfl

@[simp] lemma size_define : (s.define f x v).size = s.size := by simp [size, define]

@[simp] lemma enclosing?_define : (s.define f x v).enclosing? g = s.enclosing? g := by
  rw [enclosing?, enclosing?, define, Array.getElem?_modify]
  by_cases h : f = g
  · rw [if_pos h]
    cases s.frames[g]? <;> rfl
  · rw [if_neg h]

lemma local?_define_self (h : f < s.size) :
    (s.define f x v).local? f y = if y = x then some v else s.local? f y := by
  rw [local?, local?, define, Array.getElem?_modify, if_pos rfl, Array.getElem?_eq_getElem h]
  exact Bindings.lookup_set x y v _

lemma local?_define_of_ne (h : g ≠ f) : (s.define f x v).local? g y = s.local? g y := by
  rw [local?, local?, define, Array.getElem?_modify, if_neg (Ne.symm h)]

lemma local?_of_size_le (h : s.size ≤ f) : s.local? f x = none := by
  by_contra hsome
  obtain ⟨w, hw⟩ := Option.ne_none_iff_exists'.mp hsome
  exact absurd (lt_size_of_local? hw) (Nat.not_lt.mpr h)

lemma local?_define : (s.define f x v).local? g y =
    if g = f ∧ y = x ∧ f < s.size then some v else s.local? g y := by
  by_cases hg : g = f
  · subst hg
    by_cases hlt : g < s.size
    · rw [local?_define_self hlt]
      simp [hlt]
    · rw [local?_of_size_le (by simpa using hlt), local?_of_size_le (by simpa using hlt),
        if_neg fun h => hlt h.2.2]
  · rw [local?_define_of_ne hg, if_neg fun h => hg h.1]

/-- Every value of the store after `define` is the one just bound or an old one. -/
lemma local?_of_define {w : Value} (h : (s.define f x v).local? g y = some w) :
    w = v ∨ s.local? g y = some w := by
  by_cases hg : g = f
  · subst hg
    have hlt : g < s.size := by simpa using lt_size_of_local? h
    rw [local?_define_self hlt] at h
    split at h
    · exact Or.inl (Option.some.inj h).symm
    · exact Or.inr h
  · rw [local?_define_of_ne hg] at h
    exact Or.inr h

lemma binds_define (h : f < s.size) : (s.define f x v).Binds g y ↔ s.Binds g y ∨ g = f ∧ y = x := by
  by_cases hg : g = f
  · subst hg
    rw [Binds, Binds, local?_define_self h]
    by_cases hy : y = x <;> simp [hy]
  · rw [Binds, Binds, local?_define_of_ne hg]
    simp [hg]

/-! ## Adding a frame -/

/-- The store with a new frame inside `outer`, which binds `bindings`. -/
def extend (s : Store) (outer : FrameId) (bindings : List (String × Value)) : Store :=
  (s.add (some outer)).2.defineAll s.size bindings

lemma size_add {o : Option FrameId} : (s.add o).2.size = s.size + 1 := by simp [size, add]

lemma enclosing?_add_self {o : Option FrameId} : (s.add o).2.enclosing? s.size = o := by
  simp [enclosing?, add]

lemma enclosing?_add_of_ne {o : Option FrameId} (h : f ≠ s.size) :
    (s.add o).2.enclosing? f = s.enclosing? f := by
  rw [enclosing?, enclosing?, add, Array.getElem?_push, if_neg h]

lemma local?_add_self {o : Option FrameId} : (s.add o).2.local? s.size x = none := by
  simp [local?, add]

lemma local?_add_of_ne {o : Option FrameId} (h : f ≠ s.size) :
    (s.add o).2.local? f x = s.local? f x := by
  rw [local?, local?, add, Array.getElem?_push, if_neg h]

section

variable {bindings : List (String × Value)}

lemma defineAll_cons {b : String × Value} :
    s.defineAll f (b :: bindings) = (s.define f b.1 b.2).defineAll f bindings :=
  rfl

@[simp] lemma size_defineAll : (s.defineAll f bindings).size = s.size := by
  induction bindings generalizing s with
  | nil => rfl
  | cons b rest ih => rw [defineAll_cons, ih, size_define]

@[simp] lemma enclosing?_defineAll : (s.defineAll f bindings).enclosing? g = s.enclosing? g := by
  induction bindings generalizing s with
  | nil => rfl
  | cons b rest ih => rw [defineAll_cons, ih, enclosing?_define]

lemma local?_defineAll_of_ne (h : g ≠ f) : (s.defineAll f bindings).local? g y = s.local? g y := by
  induction bindings generalizing s with
  | nil => rfl
  | cons b rest ih => rw [defineAll_cons, ih, local?_define_of_ne h]

lemma local?_of_defineAll (h : (s.defineAll f bindings).local? g y = some v) :
    v ∈ bindings.map Prod.snd ∨ s.local? g y = some v := by
  induction bindings generalizing s with
  | nil => exact Or.inr h
  | cons b rest ih =>
    rcases ih h with hmem | hold
    · exact Or.inl (List.mem_cons_of_mem _ hmem)
    · rcases local?_of_define hold with rfl | hold
      · exact Or.inl (by simp)
      · exact Or.inr hold

lemma binds_defineAll (h : f < s.size) :
    (s.defineAll f bindings).Binds f y ↔ s.Binds f y ∨ y ∈ bindings.map Prod.fst := by
  induction bindings generalizing s with
  | nil => simp [defineAll]
  | cons b rest ih =>
    rw [defineAll_cons, ih (by simpa using h), binds_define h]
    simp only [true_and, List.map_cons, List.mem_cons]
    tauto

/-! ## A new frame with its names -/

@[simp] lemma size_extend : (s.extend f bindings).size = s.size + 1 := by
  rw [extend, size_defineAll, size_add]

lemma enclosing?_extend_self : (s.extend f bindings).enclosing? s.size = some f := by
  rw [extend, enclosing?_defineAll, enclosing?_add_self]

lemma enclosing?_extend_of_lt (h : g < s.size) :
    (s.extend f bindings).enclosing? g = s.enclosing? g := by
  rw [extend, enclosing?_defineAll, enclosing?_add_of_ne (Nat.ne_of_lt h)]

lemma local?_extend_of_lt (h : g < s.size) : (s.extend f bindings).local? g x = s.local? g x := by
  rw [extend, local?_defineAll_of_ne (Nat.ne_of_lt h), local?_add_of_ne (Nat.ne_of_lt h)]

lemma local?_of_extend (h : (s.extend f bindings).local? g y = some v) :
    v ∈ bindings.map Prod.snd ∨ s.local? g y = some v := by
  rcases local?_of_defineAll h with hmem | hold
  · exact Or.inl hmem
  · right
    by_cases hg : g = s.size
    · rw [hg, local?_add_self] at hold
      simp at hold
    · rwa [local?_add_of_ne hg] at hold

lemma binds_extend_self : (s.extend f bindings).Binds s.size y ↔ y ∈ bindings.map Prod.fst := by
  rw [extend, binds_defineAll (by rw [size_add]; exact Nat.lt_succ_self _), Binds, local?_add_self]
  simp

end

/-! ## Chains -/

/-- The frames from a frame outwards, all of them, the last one lying in no other. -/
inductive IsChain (s : Store) : FrameId → List FrameId → Prop where
  | last {f : FrameId} : s.enclosing? f = none → IsChain s f [f]
  | inner {f outer : FrameId} {rest : List FrameId} :
      s.enclosing? f = some outer → IsChain s outer rest → IsChain s f (f :: rest)

end Store

end LoxLang
