import LoxLang.Proofs.Store.Frames

/-!
# Laws of the store

Whatever operations a store has come of, each frame is younger than the frame around it, so every
chain of frames comes to an end and search along it finds the nearest frame that binds a name.
Search is then the same as going a certain distance: the least one at which the name is bound.  A
write is seen through all chains that pass through the written frame, and through no others.
-/

namespace LoxLang.Store

variable {s : Store} {f g : FrameId} {d : ℕ} {x : String} {v : Value}

/-! ## Operations -/

/-- What can be done to a store. -/
inductive Operation where
  | new
  | child (outer : FrameId)
  | define (f : FrameId) (x : String) (v : Value)
  | assign (f : FrameId) (x : String) (v : Value)
  | assignAt (f : FrameId) (d : ℕ) (x : String) (v : Value)

/-- The frame that an operation starts from; `new` starts from none. -/
def Operation.frame? : Operation → Option FrameId
  | new => none
  | child f | define f _ _ | assign f _ _ | assignAt f _ _ _ => some f

/-- Whether a change is made, and the store after it or else `s`. -/
def attempt (s : Store) (changed : Option Store) : Bool × Store := (changed.isSome, changed.getD s)

/-- Whether an operation succeeds, and the store after it. -/
def perform (s : Store) : Operation → Bool × Store
  | .new => (true, (s.add none).2)
  | .child outer => (true, (s.add (some outer)).2)
  | .define f x v => (true, s.define f x v)
  | .assign f x v => s.attempt (s.assign? f x v)
  | .assignAt f d x v => s.attempt (s.assignAt? f d x v)

/-- The stores that come of `Store.empty` by operations on frames that there are. -/
inductive Built : Store → Prop where
  | empty : Built .empty
  | step {s : Store} (op : Operation) :
      Built s → (∀ f ∈ op.frame?, f < s.size) → Built (s.perform op).2

lemma eq_define_of_assign? {s' : Store} (h : s.assign? f x v = some s') :
    ∃ g, s' = s.define g x v := by
  obtain ⟨g, -, rfl⟩ := Option.map_eq_some_iff.mp h
  exact ⟨g, rfl⟩

lemma eq_define_of_assignAt? {s' : Store} (h : s.assignAt? f d x v = some s') :
    ∃ g, s.ancestor? f d = some g ∧ s.Binds g x ∧ s' = s.define g x v := by
  obtain ⟨g, hg, rfl⟩ := Option.map_eq_some_iff.mp h
  obtain ⟨hancestor, hbinds⟩ := Option.filter_eq_some_iff.mp hg
  exact ⟨g, hancestor, hbinds, rfl⟩

/-- All that `perform` can do to a store: it adds a frame inside `op.frame?`, or binds a name, or
changes nothing. -/
lemma perform_cases (s : Store) (op : Operation) :
    (∃ o, (∀ outer ∈ o, outer ∈ op.frame?) ∧ (s.perform op).2 = (s.add o).2) ∨
      (∃ g x v, (s.perform op).2 = s.define g x v) ∨ (s.perform op).2 = s := by
  cases op with
  | new => exact .inl ⟨none, by simp, rfl⟩
  | child outer => exact .inl ⟨some outer, fun _ h => h, rfl⟩
  | define f x v => exact .inr (.inl ⟨f, x, v, rfl⟩)
  | assign f x v =>
    rw [perform]
    cases h : s.assign? f x v with
    | none => exact .inr (.inr rfl)
    | some s' =>
      obtain ⟨g, rfl⟩ := eq_define_of_assign? h
      exact .inr (.inl ⟨g, x, v, rfl⟩)
  | assignAt f d x v =>
    rw [perform]
    cases h : s.assignAt? f d x v with
    | none => exact .inr (.inr rfl)
    | some s' =>
      obtain ⟨g, -, -, rfl⟩ := eq_define_of_assignAt? h
      exact .inr (.inl ⟨g, x, v, rfl⟩)

/-! ## Older frames -/

/-- The frame around a frame is older than it, which `Built` stores never lose. -/
def Ordered (s : Store) : Prop := ∀ f g, s.enclosing? f = some g → g < f

lemma ordered_empty : Ordered .empty := by
  intro f g h
  simp [enclosing?, empty] at h

lemma Ordered.add {o : Option FrameId} (h : s.Ordered) (ho : ∀ outer ∈ o, outer < s.size) :
    (s.add o).2.Ordered := by
  intro f g hg
  by_cases hf : f = s.size
  · rw [hf, enclosing?_add_self] at hg
    rw [hf]
    exact ho g hg
  · rw [enclosing?_add_of_ne hf] at hg
    exact h f g hg

lemma Ordered.define (h : s.Ordered) : (s.define f x v).Ordered := by
  intro f' g' hg
  rw [enclosing?_define] at hg
  exact h f' g' hg

lemma Ordered.perform {op : Operation} (h : s.Ordered) (hop : ∀ f ∈ op.frame?, f < s.size) :
    (s.perform op).2.Ordered := by
  obtain ⟨o, ho, heq⟩ | ⟨g, x, v, heq⟩ | heq := s.perform_cases op
  · rw [heq]
    exact h.add fun outer houter => hop outer (ho outer houter)
  · rw [heq]
    exact h.define
  · rw [heq]
    exact h

lemma Built.ordered (h : s.Built) : s.Ordered := by
  induction h with
  | empty => exact ordered_empty
  | step op _ hop ih => exact ih.perform hop

lemma Ordered.exists_isChain (h : s.Ordered) (f : FrameId) : ∃ fs, s.IsChain f fs := by
  induction f using Nat.strong_induction_on with
  | _ f ih =>
    cases hf : s.enclosing? f with
    | none => exact ⟨[f], .last hf⟩
    | some outer =>
      obtain ⟨fs, hfs⟩ := ih outer (h f outer hf)
      exact ⟨f :: fs, .inner hf hfs⟩

lemma ancestor?_succ (s : Store) (f : FrameId) (d : ℕ) :
    s.ancestor? f (d + 1) = (s.enclosing? f).bind fun outer => s.ancestor? outer d := rfl

/-- Each step outwards leads to an older frame, so that the distance `d` is at most the number of
`f`. -/
lemma Ordered.distance_le (h : s.Ordered) (hg : s.ancestor? f d = some g) : d ≤ f := by
  induction d generalizing f with
  | zero => exact Nat.zero_le f
  | succ d ih =>
    rw [ancestor?_succ] at hg
    obtain ⟨outer, houter, hg⟩ := Option.bind_eq_some_iff.mp hg
    exact Nat.lt_of_le_of_lt (ih hg) (h f outer houter)

/-! ## Search -/

/-- None of the frames from `f` outwards binds `x`. -/
def Unbound (s : Store) (f : FrameId) (x : String) : Prop :=
  ∀ d g, s.ancestor? f d = some g → ¬ s.Binds g x

/-- The least distance `d` from `f` at which `x` is bound. -/
structure Nearest (s : Store) (f : FrameId) (x : String) (d : ℕ) : Prop where
  bound : ∃ g, s.ancestor? f d = some g ∧ s.Binds g x
  least : ∀ e < d, ∀ g, s.ancestor? f e = some g → ¬ s.Binds g x

/-- A name that is not `Unbound` is bound at a least distance. -/
lemma exists_nearest (h : ¬ s.Unbound f x) : ∃ d, s.Nearest f x d := by
  classical
  have hbound : ∃ d g, s.ancestor? f d = some g ∧ s.Binds g x := by
    simpa [Unbound] using h
  refine ⟨Nat.find hbound, Nat.find_spec hbound, fun e he g hg hbinds => ?_⟩
  exact Nat.find_min hbound he ⟨g, hg, hbinds⟩

/-- Search stops at the nearest frame that binds the name, if it is given more than `d` steps. -/
lemma Nearest.holderWithin (h : s.Nearest f x d) {steps : ℕ} (hsteps : d < steps) :
    s.holderWithin x steps f = s.ancestor? f d := by
  -- Induction on the steps, of which each frame that does not bind the name takes one.
  induction steps generalizing f d with
  | zero => exact absurd hsteps (Nat.not_lt_zero d)
  | succ steps ih =>
    obtain ⟨g, hg, hbinds⟩ := h.bound
    cases d with
    | zero =>
      obtain rfl : f = g := Option.some.inj hg
      obtain ⟨v, hv⟩ := hbinds.exists
      rw [Store.holderWithin, hv]
      rfl
    | succ d =>
      have hlocal : s.local? f x = none :=
        Option.not_isSome_iff_eq_none.mp (h.least 0 (Nat.zero_lt_succ d) f rfl)
      rw [ancestor?_succ] at hg
      obtain ⟨outer, houter, hg⟩ := Option.bind_eq_some_iff.mp hg
      have hstep : ∀ e, s.ancestor? f (e + 1) = s.ancestor? outer e := by
        intro e
        rw [ancestor?_succ, houter]
        rfl
      -- Seen from the frame around `f`, every distance is one less, the least one too.
      have hnearest : s.Nearest outer x d := by
        refine ⟨⟨g, hg, hbinds⟩, fun e he g' hg' => h.least (e + 1) (Nat.succ_lt_succ he) g' ?_⟩
        rw [hstep, hg']
      rw [Store.holderWithin, hlocal, hstep, ← ih hnearest (Nat.lt_of_succ_lt_succ hsteps), houter]
      rfl

lemma Unbound.holderWithin (h : s.Unbound f x) (steps : ℕ) : s.holderWithin x steps f = none := by
  induction steps generalizing f with
  | zero => rfl
  | succ steps ih =>
    have hlocal : s.local? f x = none := Option.not_isSome_iff_eq_none.mp (h 0 f rfl)
    rw [Store.holderWithin, hlocal]
    cases houter : s.enclosing? f with
    | none => rfl
    | some outer =>
      refine ih fun d g hg => h (d + 1) g ?_
      rw [ancestor?_succ, houter]
      exact hg

/-- In an ordered store search has steps enough, so that it finds the frame at the least
distance. -/
lemma Ordered.holder?_of_nearest (h : s.Ordered) (hnearest : s.Nearest f x d) :
    s.holder? f x = s.holderAt? f d x ∧ (s.holder? f x).isSome := by
  obtain ⟨g, hg, hbinds⟩ := hnearest.bound
  have hholder : s.holder? f x = some g := by
    rw [holder?, hnearest.holderWithin (Nat.lt_succ_of_le (h.distance_le hg)), hg]
  have hat : s.holderAt? f d x = some g := by
    rw [holderAt?, hg]
    exact Option.filter_some_pos hbinds
  rw [hholder, hat]
  exact ⟨rfl, rfl⟩

lemma Ordered.holder?_eq_none_iff (h : s.Ordered) : s.holder? f x = none ↔ s.Unbound f x := by
  constructor
  · intro hnone
    by_contra hbound
    obtain ⟨d, hnearest⟩ := exists_nearest hbound
    have hfound := (h.holder?_of_nearest hnearest).2
    rw [hnone] at hfound
    exact Bool.false_ne_true hfound
  · intro hunbound
    exact hunbound.holderWithin (f + 1)

/-- `get?` fails only where `holder?` finds no frame, as the frame that is found binds the name. -/
lemma get?_eq_none_iff (s : Store) (f : FrameId) (x : String) :
    s.get? f x = none ↔ s.holder? f x = none := by
  rw [get?, Option.bind_eq_none_iff]
  constructor
  · intro h
    by_contra hsome
    obtain ⟨g, hg⟩ := Option.ne_none_iff_exists'.mp hsome
    -- A frame that search stops at binds the name, so that there is a value.
    obtain ⟨v, hv⟩ := (binds_of_holderWithin _ _ hg).exists
    exact absurd (h g hg) (by simp [hv])
  · intro hnone g hg
    exact absurd (hnone.symm.trans hg) (by simp)

/-! ## Writes -/

/-- What is read at the distance `d'` after a write at the distance `d`. -/
lemma getAt?_of_assignAt? {s' : Store} (h : s.assignAt? f d x v = some s') (f' : FrameId) (d' : ℕ)
    (x' : String) :
    s'.ancestor? f' d' = s.ancestor? f' d' ∧
      s'.getAt? f' d' x' =
        if s.ancestor? f' d' = s.ancestor? f d ∧ x' = x then some v else s.getAt? f' d' x' := by
  obtain ⟨g, hg, hbinds, rfl⟩ := eq_define_of_assignAt? h
  have hancestor : (s.define g x v).ancestor? f' d' = s.ancestor? f' d' :=
    ancestor?_congr (fun _ => enclosing?_define) f' d'
  refine ⟨hancestor, ?_⟩
  rw [getAt?, hancestor, getAt?, hg]
  -- Chains are as before, so only the frame that is met decides what is read.
  cases s.ancestor? f' d' with
  | none => simp
  | some g' =>
    have hlt : g < s.size := hbinds.lt_size
    rw [Option.bind_some, Option.bind_some, local?_define]
    simp only [Option.some.injEq, hlt, and_true]

/-- An operation that fails leaves the store alone. -/
lemma perform_of_failed {op : Operation} (h : (s.perform op).1 = false) : (s.perform op).2 = s := by
  have hattempt : ∀ changed, (s.attempt changed).1 = false → (s.attempt changed).2 = s := by
    intro changed hfailed
    cases changed with
    | none => rfl
    | some s' => exact absurd hfailed (by simp [attempt])
  cases op with
  | new | child _ | define _ _ _ => exact absurd h (by simp [perform])
  | assign f x v => exact hattempt _ h
  | assignAt f d x v => exact hattempt _ h

/-! ## The laws -/

/-- The laws of a store: what search, distance and writes have to do with each other. -/
structure Lawful (s : Store) : Prop where
  /-- The frames from `f` outwards come to an end. -/
  chain : ∀ f, ∃ fs, s.IsChain f fs
  /-- Search reads at the least distance at which `x` is bound, with success. -/
  get_nearest : ∀ f x d, s.Nearest f x d → s.get? f x = s.getAt? f d x ∧ (s.get? f x).isSome
  get_fails : ∀ f x, s.get? f x = none ↔ s.Unbound f x
  /-- Search writes at the least distance at which `x` is bound, with success. -/
  assign_nearest : ∀ f x d v, s.Nearest f x d →
    s.assign? f x v = s.assignAt? f d x v ∧ (s.assign? f x v).isSome
  assign_fails : ∀ f x v, s.assign? f x v = none ↔ s.Unbound f x
  /-- A write changes no chain.  It is seen exactly where the written frame is met under the name
  `x`. -/
  written : ∀ f d x v s', s.assignAt? f d x v = some s' → ∀ f' d' x',
    s'.ancestor? f' d' = s.ancestor? f' d' ∧
      s'.getAt? f' d' x' =
        if s.ancestor? f' d' = s.ancestor? f d ∧ x' = x then some v else s.getAt? f' d' x'
  /-- An operation `op` that fails changes nothing. -/
  failed : ∀ op, (s.perform op).1 = false → (s.perform op).2 = s

/-- Every store `s` that is `Built` by operations is `Lawful`: chains are finite, search agrees with
the `Nearest` distance at which a name is bound, both in what it does and in when it fails, a write
by `assignAt?` is seen through all chains that meet its frame and through no others, and an
operation that fails changes nothing. -/
theorem built_stores_lawful (s : Store) (h : s.Built) : s.Lawful := by
  have hordered := h.ordered
  refine ⟨hordered.exists_isChain, ?_, ?_, ?_, ?_, ?_, fun _ => perform_of_failed⟩
  · intro f x d hnearest
    obtain ⟨hholder, hsome⟩ := hordered.holder?_of_nearest hnearest
    have heq : s.get? f x = s.getAt? f d x := by rw [get?, getAt?_eq_bind_holderAt?, hholder]
    refine ⟨heq, Option.isSome_iff_ne_none.mpr fun hnone => ?_⟩
    rw [get?_eq_none_iff] at hnone
    exact absurd hsome (by simp [hnone])
  · intro f x
    rw [get?_eq_none_iff, hordered.holder?_eq_none_iff]
  · intro f x d v hnearest
    obtain ⟨hholder, hsome⟩ := hordered.holder?_of_nearest hnearest
    have heq : s.assign? f x v = s.assignAt? f d x v := by rw [assign?, assignAt?, hholder]
    exact ⟨heq, by rwa [assign?, Option.isSome_map]⟩
  · intro f x v
    rw [assign?, Option.map_eq_none_iff, hordered.holder?_eq_none_iff]
  · intro f d x v s' hwrite f' d' x'
    exact getAt?_of_assignAt? hwrite f' d' x'

/-- The frames `1` and `2` share the frame `0` around them, and `x` is bound there and in `1`.  A
write from `2` is read through `2` and past the binding of `1`, which stays; a write to `y`, which
nothing binds, fails. -/
theorem shared_frame_lawful :
    let shared := ((((Store.empty.perform .new).2.perform (.define 0 "x" .nil)).2.perform
      (.child 0)).2.perform (.child 0)).2
    let written := ((shared.perform (.define 1 "x" .nil)).2.perform (.assign 2 "x" (.bool true))).2
    let left := (written.perform (.assignAt 1 1 "y" .nil)).2
    left.Built ∧ left.Lawful ∧ left.get? 1 "x" = some .nil ∧ left.get? 2 "x" = some (.bool true) ∧
      left.getAt? 1 1 "x" = some (.bool true) ∧
      (written.perform (.assignAt 1 1 "y" .nil)).1 = false := by
  intro shared written left
  have hshared : shared.Built := by
    refine .step _ (.step _ (.step _ (.step _ .empty ?_) ?_) ?_) ?_
    · simp [Operation.frame?]
    all_goals
      rintro f ⟨⟩
      decide
  have hleft : left.Built := by
    refine .step _ (.step _ (.step _ hshared ?_) ?_) ?_
    all_goals
      rintro f ⟨⟩
      decide
  have hwritten : written =
      ⟨#[⟨[("x", .bool true)], none⟩, ⟨[("x", .nil)], some 0⟩, ⟨[], some 0⟩]⟩ := rfl
  -- The write that fails leaves the store as it was.
  have hsame : left = written := by
    show (written.perform (.assignAt 1 1 "y" .nil)).2 = written
    rw [hwritten]
    rfl
  refine ⟨hleft, built_stores_lawful left hleft, ?_⟩
  rw [hsame, hwritten]
  exact ⟨rfl, rfl, rfl, rfl⟩

end LoxLang.Store
