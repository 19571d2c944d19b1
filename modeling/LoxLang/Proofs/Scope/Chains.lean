import LoxLang.Proofs.Machine.Parts
import LoxLang.Proofs.Scope.Sites

/-!
# Scopes at run time

While a program runs, the frames from the current one outwards stand for the scopes that the
resolver had open at the place that is being executed, and the same holds of the frame of every
closure.  To tell what opened each frame, an account is kept of the origins of frames beside the
machine; the program itself does not need it.

`Chain` says that a frame and the ones around it stand for a stack of scopes.  `Account.Sound` is
the invariant of all frames and values, and `Grows` is what any piece of a run leaves as it was.
-/

namespace LoxLang

/-- The name `x` is declared in the scope itself, somewhere. -/
def Origin.Declares (o : Origin) (x : String) : Prop :=
  x ∈ o.parameters.map Token.lexeme ∨ ∃ s ∈ o.body, s.Declares x

/-- What opened each frame; nothing opened the global one. -/
abbrev Account := FrameId → Option Origin

/-- Enter the frame `f`, opened by `o`, into the account. -/
def Account.enter (made : Account) (f : FrameId) (o : Origin) : Account :=
  Function.update made f (some o)

/-! ## Chains of frames -/

/-- A frame and the ones around it, each older than the one before, stand for open scopes, one frame
for each, and then comes the frame `globals`.  A name that is ready is bound, and only in the
innermost scope a name may not be ready. -/
inductive Chain (made : Account) (store : Store) (globals : FrameId) :
    FrameId → List Origin → Scopes → Prop where
  | globals : globals < store.size → Chain made store globals globals [] []
  | inner {f outer : FrameId} {o : Origin} {origins : List Origin} {scope : Scope}
      {scopes : Scopes} :
      made f = some o → store.enclosing? f = some outer → outer < f →
      (∀ x, scope.lookup x = some true → store.Binds f x) → scopes.Settled →
      Chain made store globals outer origins scopes →
      Chain made store globals f (o :: origins) (scope :: scopes)

/-- A function was declared in the frame it keeps, its `closure`: that frame stands for the scopes
around the function. -/
def ValueSound (made : Account) (store : Store) (globals : FrameId) (P : Site → Prop) : Value → Prop
  | .callable (.function _ f closure) =>
    ∃ origins scopes, Chain made store globals closure origins scopes ∧
      scopes.Settled ∧ Stmt.AllShaped f.body ∧ ∀ w ∈ f.sites origins scopes, P w
  | _ => True

/-- What holds of all frames and of all values in them.  `C` tells which frames were opened by what,
and `P` which sites may be evaluated. -/
structure Account.Sound (made : Account) (P : Site → Prop) (C : FrameId → Origin → Prop)
    (m : Machine) : Prop where
  globals_lt : m.globals < m.store.size
  globals_last : m.store.enclosing? m.globals = none
  globals_unmade : made m.globals = none
  lt_size : ∀ f o, made f = some o → f < m.store.size
  created : ∀ f o, made f = some o → C f o
  names : ∀ f o x, made f = some o → m.store.Binds f x → o.Declares x
  values : ∀ f x v, m.store.local? f x = some v → ValueSound made m.store m.globals P v

/-- The current frame stands for open `scopes`, and binds just the names that are ready. -/
structure Standing (made : Account) (m : Machine) (origins : List Origin) (scopes : Scopes) :
    Prop where
  chain : Chain made m.store m.globals m.current origins scopes
  names : ∀ scope outer, scopes = scope :: outer →
    ∀ x, m.store.Binds m.current x ↔ scope.lookup x = some true

/-! ## What a piece of a run leaves as it was -/

/-- Frames stay where they are and keep their names; only the current frame may come to bind `new`
ones. -/
structure Grows (new : String → Prop) (made : Account) (m : Machine) (made' : Account)
    (m' : Machine) : Prop where
  current : m'.current = m.current
  globals : m'.globals = m.globals
  depths : m'.depths = m.depths
  size : m.store.size ≤ m'.store.size
  made : ∀ f < m.store.size, made' f = made f
  enclosing : ∀ f < m.store.size, m'.store.enclosing? f = m.store.enclosing? f
  binds : ∀ f < m.store.size, ∀ x, m.store.Binds f x → m'.store.Binds f x
  fresh : ∀ f < m.store.size, ∀ x, m'.store.Binds f x → m.store.Binds f x ∨ f = m.current ∧ new x

/-- No name at all. -/
abbrev noName : String → Prop := fun _ => False

namespace Grows

variable {new more : String → Prop} {made made₁ made₂ : Account} {m m₁ m₂ : Machine}

lemma refl (new : String → Prop) (made : Account) (m : Machine) : Grows new made m made m where
  current := rfl
  globals := rfl
  depths := rfl
  size := le_rfl
  made _ _ := rfl
  enclosing _ _ := rfl
  binds _ _ _ h := h
  fresh _ _ _ h := Or.inl h

lemma mono (h : Grows new made m made₁ m₁) (hmore : ∀ x, new x → more x) :
    Grows more made m made₁ m₁ :=
  { h with fresh := fun f hf x hx => (h.fresh f hf x hx).imp_right fun ⟨hcurrent, hnew⟩ =>
    ⟨hcurrent, hmore x hnew⟩ }

lemma trans (h : Grows new made m made₁ m₁) (h' : Grows new made₁ m₁ made₂ m₂) :
    Grows new made m made₂ m₂ where
  current := h'.current.trans h.current
  globals := h'.globals.trans h.globals
  depths := h'.depths.trans h.depths
  size := h.size.trans h'.size
  made f hf := (h'.made f (hf.trans_le h.size)).trans (h.made f hf)
  enclosing f hf := (h'.enclosing f (hf.trans_le h.size)).trans (h.enclosing f hf)
  binds f hf x hx := h'.binds f (hf.trans_le h.size) x (h.binds f hf x hx)
  fresh f hf x hx := by
    rcases h'.fresh f (hf.trans_le h.size) x hx with hx | ⟨hcurrent, hnew⟩
    · exact h.fresh f hf x hx
    · exact Or.inr ⟨hcurrent.trans h.current, hnew⟩

/-- A machine that differs only in what frames do not depend on. -/
lemma of_store_eq (hcurrent : m₁.current = m.current) (hglobals : m₁.globals = m.globals)
    (hdepths : m₁.depths = m.depths) (hstore : m₁.store = m.store) : Grows new made m made m₁ where
  current := hcurrent
  globals := hglobals
  depths := hdepths
  size := by rw [hstore]
  made _ _ := rfl
  enclosing _ _ := by rw [hstore]
  binds _ _ _ h := by rwa [hstore]
  fresh _ _ _ h := Or.inl (by rwa [hstore] at h)

end Grows

section

variable {new : String → Prop} {made made' : Account} {m m' : Machine} {P : Site → Prop}
  {C : FrameId → Origin → Prop} {origins : List Origin} {scopes : Scopes} {f : FrameId} {v : Value}

lemma Chain.grow (h : Chain made m.store m.globals f origins scopes)
    (hgrows : Grows new made m made' m') : Chain made' m'.store m'.globals f origins scopes := by
  rw [hgrows.globals]
  induction h with
  | globals hlt => exact .globals (hlt.trans_le hgrows.size)
  | inner hmade henclosing hyounger hready hsettled _ ih =>
    have hlt := Store.lt_size_of_enclosing? henclosing
    refine .inner ?_ ?_ hyounger ?_ hsettled ih
    · rw [hgrows.made _ hlt, hmade]
    · rw [hgrows.enclosing _ hlt, henclosing]
    · exact fun x hx => hgrows.binds _ hlt x (hready x hx)

lemma ValueSound.grow (h : ValueSound made m.store m.globals P v)
    (hgrows : Grows new made m made' m') : ValueSound made' m'.store m'.globals P v := by
  cases v with
  | callable c =>
    cases c with
    | clock id => trivial
    | function id f closure =>
      obtain ⟨origins, scopes, hchain, hrest⟩ := h
      exact ⟨origins, scopes, hchain.grow hgrows, hrest⟩
  | nil | bool b | number x | string s => trivial

/-- More sites do no harm. -/
lemma ValueSound.mono {Q : Site → Prop} {store : Store} {globals : FrameId}
    (h : ValueSound made store globals P v) (hPQ : ∀ w, P w → Q w) :
    ValueSound made store globals Q v := by
  cases v with
  | callable c =>
    cases c with
    | clock id => trivial
    | function id f closure =>
      obtain ⟨origins, scopes, hchain, hsettled, hshaped, hsites⟩ := h
      exact ⟨origins, scopes, hchain, hsettled, hshaped, fun w hw => hPQ w (hsites w hw)⟩
  | nil | bool b | number x | string s => trivial

lemma Account.Sound.mono {Q : Site → Prop} (h : made.Sound P C m) (hPQ : ∀ w, P w → Q w) :
    made.Sound Q C m :=
  { h with values := fun f x v hv => (h.values f x v hv).mono hPQ }

lemma Chain.lt_size (h : Chain made m.store m.globals f origins scopes) : f < m.store.size := by
  cases h with
  | globals hlt => exact hlt
  | inner _ henclosing _ _ _ _ => exact Store.lt_size_of_enclosing? henclosing

lemma Standing.grow (h : Standing made m origins scopes) (hgrows : Grows noName made m made' m') :
    Standing made' m' origins scopes where
  chain := by
    rw [hgrows.current]
    exact h.chain.grow hgrows
  names scope outer hscopes x := by
    subst hscopes
    have hlt := h.chain.lt_size
    rw [hgrows.current, ← h.names scope outer rfl x]
    constructor
    · intro hx
      rcases hgrows.fresh _ hlt x hx with hx | ⟨-, hnone⟩
      · exact hx
      · exact hnone.elim
    · exact hgrows.binds _ hlt x

/-- A chain with another innermost `scope'`, whose ready names are bound too. -/
lemma Chain.replace {scope scope' : Scope}
    (h : Chain made m.store m.globals f origins (scope :: scopes))
    (hready : ∀ x, scope'.lookup x = some true → m.store.Binds f x) :
    Chain made m.store m.globals f origins (scope' :: scopes) := by
  cases h with
  | inner hmade henclosing hyounger _ hsettled hrest =>
    exact .inner hmade henclosing hyounger hready hsettled hrest

/-- Declaring a `name` does not change which names are ready. -/
lemma Standing.declare (h : Standing made m origins scopes) (name : Token) :
    Standing made m origins (scopes.declare name).1 := by
  cases scopes with
  | nil => exact h
  | cons scope outer =>
    obtain ⟨scope', heq, hlookup⟩ := Scopes.declare_cons scope outer name
    have hready : ∀ x, scope'.lookup x = some true ↔ scope.lookup x = some true := by
      intro x
      rw [hlookup]
      split
      · rename_i hx
        simp [hx.2]
      · rfl
    rw [heq]
    refine ⟨h.chain.replace fun x hx => ?_, ?_⟩
    · rw [h.names scope outer rfl]
      exact (hready x).mp hx
    · rintro scope₁ outer₁ ⟨⟩ x
      rw [h.names scope outer rfl, hready]

/-- After a statement `s` the current frame stands for the scopes `s.after` it. -/
lemma Standing.after {s : Stmt} (h : Standing made m origins scopes)
    (hgrows : Grows s.Declares made m made' m')
    (hbound : ∀ x, s.Declares x → m'.store.Binds m.current x) :
    Standing made' m' origins (s.after scopes) := by
  rw [Stmt.after]
  cases hs : s.declared? with
  | none =>
    refine h.grow (hgrows.mono fun x hx => ?_)
    obtain ⟨name, hname, -⟩ := hx
    rw [hs] at hname
    exact absurd hname (by simp)
  | some name =>
    have hdeclares : ∀ x, s.Declares x ↔ x = name.lexeme := by
      intro x
      simp [Stmt.Declares, hs, eq_comm]
    cases scopes with
    | nil =>
      refine ⟨?_, by simp⟩
      rw [hgrows.current]
      exact h.chain.grow hgrows
    | cons scope outer =>
      obtain ⟨scope', heq, hlookup⟩ := Scopes.bind_cons scope outer name
      have hlt := h.chain.lt_size
      -- Only the declared name is new, both to the frame and to the scope.
      have hnames : ∀ x, m'.store.Binds m'.current x ↔ scope'.lookup x = some true := by
        intro x
        rw [hgrows.current, hlookup]
        by_cases hx : x = name.lexeme
        · simpa [hx] using hbound x ((hdeclares x).mpr hx)
        · rw [if_neg hx, ← h.names scope outer rfl x]
          constructor
          · intro hbinds
            rcases hgrows.fresh _ hlt x hbinds with hold | ⟨-, hnew⟩
            · exact hold
            · exact absurd ((hdeclares x).mp hnew) hx
          · exact hgrows.binds _ hlt x
      rw [Option.elim_some, heq]
      refine ⟨?_, ?_⟩
      · rw [hgrows.current]
        refine (h.chain.grow hgrows).replace fun x hx => ?_
        rw [← hgrows.current]
        exact (hnames x).mpr hx
      · rintro scope₁ outer₁ ⟨⟩ x
        exact hnames x

end

/-! ## What single steps do -/

section

variable {new : String → Prop} {made made' : Account} {m m' : Machine} {P : Site → Prop}
  {C : FrameId → Origin → Prop} {origins : List Origin} {scopes : Scopes} {f outer : FrameId}
  {x : String} {v : Value} {o : Origin} {bindings : List (String × Value)}

/-- The invariant `Account.Sound` depends on the frames only. -/
lemma Account.Sound.of_store_eq (h : made.Sound P C m) (hglobals : m'.globals = m.globals)
    (hstore : m'.store = m.store) : made.Sound P C m' where
  globals_lt := by rw [hglobals, hstore]; exact h.globals_lt
  globals_last := by rw [hglobals, hstore]; exact h.globals_last
  globals_unmade := by rw [hglobals]; exact h.globals_unmade
  lt_size := by rw [hstore]; exact h.lt_size
  created := h.created
  names := by rw [hstore]; exact h.names
  values := by rw [hglobals, hstore]; exact h.values

/-- Binding a name that the frame binds already, or a `new` one in the current frame. -/
lemma Grows.define (hf : f < m.store.size) (hx : m.store.Binds f x ∨ f = m.current ∧ new x) :
    Grows new made m made { m with store := m.store.define f x v } where
  current := rfl
  globals := rfl
  depths := rfl
  size := by simp
  made _ _ := rfl
  enclosing _ _ := Store.enclosing?_define
  binds _ _ _ hbinds := (Store.binds_define hf).mpr (Or.inl hbinds)
  fresh g _ y hbinds := by
    rcases (Store.binds_define hf).mp hbinds with hold | ⟨rfl, rfl⟩
    · exact Or.inl hold
    · exact hx

lemma Account.Sound.define (h : made.Sound P C m) (hf : f < m.store.size)
    (hgrows : Grows new made m made { m with store := m.store.define f x v })
    (hv : ValueSound made (m.store.define f x v) m.globals P v) (hx : ∀ o, made f = some o →
      o.Declares x) :
    made.Sound P C { m with store := m.store.define f x v } where
  globals_lt := by simpa using h.globals_lt
  globals_last := by simpa using h.globals_last
  globals_unmade := h.globals_unmade
  lt_size := by simpa using h.lt_size
  created := h.created
  names g o y hmade hbinds := by
    rcases (Store.binds_define hf).mp hbinds with hold | ⟨rfl, rfl⟩
    · exact h.names g o y hmade hold
    · exact hx o hmade
  values g y w hw := by
    rcases Store.local?_of_define hw with rfl | hold
    · exact hv
    · exact (h.values g y w hold).grow hgrows

/-- Adding a frame, as seen from the frame before. -/
lemma Grows.enter (o : Origin) :
    Grows noName made m (made.enter m.store.size o)
      { m.enter outer bindings with current := m.current } where
  current := rfl
  globals := rfl
  depths := rfl
  size := by simp [Machine.enter]
  made g hg := Function.update_of_ne (Nat.ne_of_lt hg) _ _
  enclosing g hg := Store.enclosing?_extend_of_lt hg
  binds g hg y hy := by
    rw [Store.Binds] at hy ⊢
    rwa [show (m.enter outer bindings).store.local? g y =
      m.store.local? g y from Store.local?_extend_of_lt hg]
  fresh g hg y hy := by
    rw [Store.Binds] at hy ⊢
    rw [show (m.enter outer bindings).store.local? g y =
      m.store.local? g y from Store.local?_extend_of_lt hg] at hy
    exact Or.inl hy

/-- Inside a new frame, opened by `o`, everything is in order again. -/
lemma Account.Sound.enter (h : made.Sound P C m) (hC : C m.store.size o)
    (hnames : ∀ y ∈ bindings.map Prod.fst, o.Declares y)
    (hvalues : ∀ w ∈ bindings.map Prod.snd, ValueSound made m.store m.globals P w) :
    (made.enter m.store.size o).Sound P C (m.enter outer bindings) := by
  have hgrows : Grows noName made m (made.enter m.store.size o)
      { m.enter outer bindings with current := m.current } :=
    Grows.enter o
  -- In the new account a frame is the new one or an old one.
  have hmade : ∀ g o', made.enter m.store.size o g = some o' →
      g = m.store.size ∧ o' = o ∨ made g = some o' := by
    intro g o' hg
    by_cases heq : g = m.store.size
    · rw [Account.enter, heq, Function.update_self] at hg
      exact Or.inl ⟨heq, (Option.some.inj hg).symm⟩
    · rw [Account.enter, Function.update_of_ne heq] at hg
      exact Or.inr hg
  refine ⟨?_, ?_, ?_, ?_, ?_, ?_, ?_⟩
  · have := h.globals_lt
    simp only [Machine.enter, Store.size_extend]
    exact this.trans (Nat.lt_succ_self _)
  · exact (hgrows.enclosing _ h.globals_lt).trans h.globals_last
  · exact (hgrows.made _ h.globals_lt).trans h.globals_unmade
  · intro g o' hg
    simp only [Machine.enter, Store.size_extend]
    rcases hmade g o' hg with ⟨rfl, -⟩ | hg
    · exact Nat.lt_succ_self _
    · exact (h.lt_size g o' hg).trans (Nat.lt_succ_self _)
  · intro g o' hg
    rcases hmade g o' hg with ⟨rfl, rfl⟩ | hg
    · exact hC
    · exact h.created g o' hg
  · intro g o' y hg hy
    rcases hmade g o' hg with ⟨rfl, rfl⟩ | hg
    · exact hnames y (Store.binds_extend_self.mp hy)
    · rcases hgrows.fresh g (h.lt_size g o' hg) y hy with hy | ⟨-, hnone⟩
      · exact h.names g o' y hg hy
      · exact hnone.elim
  · intro g y w hw
    rcases Store.local?_of_extend hw with hnew | hold
    · have hsound := (hvalues w hnew).grow hgrows
      exact hsound
    · have hsound := (h.values g y w hold).grow hgrows
      exact hsound

/-- The new frame stands for a `scope` inside the ones that the frame around it stands for. -/
lemma Standing.enter {scope : Scope}
    (hchain : Chain made m.store m.globals outer origins scopes) (hsettled : scopes.Settled)
    (hscope : ∀ y, scope.lookup y = some true ↔ y ∈ bindings.map Prod.fst) :
    Standing (made.enter m.store.size o) (m.enter outer bindings) (o :: origins)
      (scope :: scopes) where
  chain := by
    have hgrows : Grows noName made m (made.enter m.store.size o)
        { m.enter outer bindings with current := m.current } := Grows.enter o
    have houter := hchain.grow hgrows
    refine .inner (Function.update_self _ _ _) Store.enclosing?_extend_self hchain.lt_size ?_
      hsettled houter
    exact fun y hy => Store.binds_extend_self.mpr ((hscope y).mp hy)
  names := by
    rintro scope' outer' ⟨⟩ y
    rw [hscope]
    exact Store.binds_extend_self

/-- A piece of a run inside a new frame, as seen from the frame before. -/
lemma Grows.leave
    (hgrows : Grows new (made.enter m.store.size o) (m.enter outer bindings) made' m') :
    Grows noName made m made' { m' with current := m.current } := by
  have hfirst : Grows noName made m (made.enter m.store.size o)
      { m.enter outer bindings with current := m.current } :=
    Grows.enter o
  have hsize : m.store.size < (m.enter outer bindings).store.size := by simp [Machine.enter]
  refine ⟨rfl, hgrows.globals, hgrows.depths, hfirst.size.trans hgrows.size, ?_, ?_, ?_, ?_⟩
  · exact fun g hg => (hgrows.made g (hg.trans hsize)).trans (hfirst.made g hg)
  · exact fun g hg => (hgrows.enclosing g (hg.trans hsize)).trans (hfirst.enclosing g hg)
  · exact fun g hg y hy => hgrows.binds g (hg.trans hsize) y (hfirst.binds g hg y hy)
  · intro g hg y hy
    rcases hgrows.fresh g (hg.trans hsize) y hy with hy | ⟨hcurrent, -⟩
    · exact hfirst.fresh g hg y hy
    · exact absurd (hcurrent ▸ hg) (Nat.lt_irrefl _)

end

end LoxLang
