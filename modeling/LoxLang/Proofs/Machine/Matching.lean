import LoxLang.Proofs.Machine.Parts
import LoxLang.Proofs.Tree.Matching

/-!
# Machines that match

Two machines match if they have the same frames, which bind the same names to values that match, and
the same clock and output.  Their depth tables may be different: what counts is that they hold the
same depths for node ids that are related.
-/

namespace LoxLang

open LoxLang.Action

/-! ## Values -/

/-- Values that are the same but for functions, which have the same object id and closure and are
related by `functions`. -/
inductive Value.Alike (functions : Function → Function → FrameId → Prop) :
    Value → Value → Prop where
  | nil : Alike functions .nil .nil
  | bool (b : Bool) : Alike functions (.bool b) (.bool b)
  | number (x : Float) : Alike functions (.number x) (.number x)
  | string (s : String) : Alike functions (.string s) (.string s)
  | clock (id : ObjectId) : Alike functions (.callable (.clock id)) (.callable (.clock id))
  | function {f f' : Function} (id : ObjectId) (closure : FrameId) :
      functions f f' closure →
      Alike functions (.callable (.function id f closure)) (.callable (.function id f' closure))

namespace Value.Alike

variable {functions functions' : Function → Function → FrameId → Prop} {v v' w w' : Value}

lemma ofConstant (c : Constant) : Alike functions (.ofConstant c) (.ofConstant c) := by
  cases c with
  | nil => exact .nil
  | bool b => exact .bool b
  | number x => exact .number x
  | string s => exact .string s

lemma truthy_eq (h : Alike functions v v') : v.truthy = v'.truthy := by
  cases h <;> rfl

lemma text_eq (hname : ∀ f f' closure, functions f f' closure → f.name.lexeme = f'.name.lexeme)
    (h : Alike functions v v') : v.text = v'.text := by
  cases h with
  | function id closure hf =>
    rw [Value.text, Value.text, Callable.text, Callable.text, hname _ _ _ hf]
  | nil | bool b | number x | string s | clock id => rfl

lemma equals_eq (h : Alike functions v v') (h' : Alike functions w w') :
    v.equals w = v'.equals w' := by
  cases h <;> cases h' <;> rfl

lemma settles_eq (h : Alike functions v v') (operator : Kind) :
    settles operator v = settles operator v' := by
  rw [settles, settles, h.truthy_eq]

/-- Operators come to the same on values that are `Alike`, and never to a function. -/
lemma unaryOperation_eq (h : Alike functions v v') (operator : Kind) :
    unaryOperation operator v = unaryOperation operator v' := by
  unfold unaryOperation
  rw [h.truthy_eq]
  cases h <;> rfl

lemma of_unaryOperation {operator : Kind} (h : unaryOperation operator v = .ok w) :
    Alike functions w w := by
  unfold unaryOperation at h
  split at h
  · cases h
    exact .bool _
  · split at h
    · cases h
      exact .number _
    · cases h
  · cases h

lemma binaryOperation_eq (h : Alike functions v v') (h' : Alike functions w w') (operator : Kind) :
    binaryOperation operator v w = binaryOperation operator v' w' := by
  unfold binaryOperation
  rw [h.equals_eq h']
  cases h <;> cases h' <;> rfl

lemma of_onNumbers {f : Float → Float → Value} (hf : ∀ a b, Alike functions (f a b) (f a b))
    {u : Value} (h : onNumbers f v w = .ok u) : Alike functions u u := by
  unfold onNumbers at h
  split at h
  · cases h
    exact hf _ _
  · cases h

lemma of_binaryOperation {operator : Kind} {u : Value} (h : binaryOperation operator v w = .ok u) :
    Alike functions u u := by
  unfold binaryOperation at h
  split at h
  · unfold addition at h
    split at h
    · cases h
      exact .number _
    · cases h
      exact .string _
    · cases h
  · exact of_onNumbers (fun _ _ => .number _) h
  · exact of_onNumbers (fun _ _ => .number _) h
  · exact of_onNumbers (fun _ _ => .number _) h
  · exact of_onNumbers (fun _ _ => .bool _) h
  · exact of_onNumbers (fun _ _ => .bool _) h
  · exact of_onNumbers (fun _ _ => .bool _) h
  · exact of_onNumbers (fun _ _ => .bool _) h
  · cases h
    exact .bool _
  · cases h
    exact .bool _
  · cases h

lemma mono (hfunctions : ∀ f f' closure, functions f f' closure → functions' f f' closure)
    (h : Alike functions v v') : Alike functions' v v' := by
  cases h with
  | nil => exact .nil
  | bool b => exact .bool b
  | number x => exact .number x
  | string s => exact .string s
  | clock id => exact .clock id
  | function id closure hf => exact .function id closure (hfunctions _ _ _ hf)

end Value.Alike

inductive Value.Matches (ids : NodeId → NodeId → Prop) (tokens : Token → Token → Prop) :
    Value → Value → Prop where
  | nil : Matches ids tokens .nil .nil
  | bool (b : Bool) : Matches ids tokens (.bool b) (.bool b)
  | number (x : Float) : Matches ids tokens (.number x) (.number x)
  | string (s : String) : Matches ids tokens (.string s) (.string s)
  | clock (id : ObjectId) : Matches ids tokens (.callable (.clock id)) (.callable (.clock id))
  | function {f f' : Function} (id : ObjectId) (closure : FrameId) :
      f.Matches ids tokens f' →
      Matches ids tokens (.callable (.function id f closure)) (.callable (.function id f' closure))

namespace Value.Matches

variable {ids ids' : NodeId → NodeId → Prop} {tokens tokens' : Token → Token → Prop}
  {v v' w w' : Value}

lemma iff_alike :
    Matches ids tokens v v' ↔ Value.Alike (fun f f' _ => f.Matches ids tokens f') v v' := by
  constructor
  · rintro (_ | b | x | s | id | ⟨id, closure, hf⟩)
    exacts [.nil, .bool b, .number x, .string s, .clock id, .function id closure hf]
  · rintro (_ | b | x | s | id | ⟨id, closure, hf⟩)
    exacts [.nil, .bool b, .number x, .string s, .clock id, .function id closure hf]

lemma ofConstant (c : Constant) : Matches ids tokens (.ofConstant c) (.ofConstant c) :=
  iff_alike.mpr (.ofConstant c)

lemma truthy_eq (h : Matches ids tokens v v') : v.truthy = v'.truthy := (iff_alike.mp h).truthy_eq

lemma text_eq (hlexeme : ∀ t t', tokens t t' → t.lexeme = t'.lexeme) (h : Matches ids tokens v v') :
    v.text = v'.text :=
  (iff_alike.mp h).text_eq fun _ _ _ hf => hlexeme _ _ hf.name

lemma settles_eq (h : Matches ids tokens v v') (operator : Kind) :
    settles operator v = settles operator v' :=
  (iff_alike.mp h).settles_eq operator

lemma unaryOperation_eq (h : Matches ids tokens v v') (operator : Kind) :
    unaryOperation operator v = unaryOperation operator v' :=
  (iff_alike.mp h).unaryOperation_eq operator

lemma of_unaryOperation {operator : Kind} (h : unaryOperation operator v = .ok w) :
    Matches ids tokens w w :=
  iff_alike.mpr (.of_unaryOperation h)

lemma binaryOperation_eq (h : Matches ids tokens v v') (h' : Matches ids tokens w w')
    (operator : Kind) : binaryOperation operator v w = binaryOperation operator v' w' :=
  (iff_alike.mp h).binaryOperation_eq (iff_alike.mp h') operator

lemma of_binaryOperation {operator : Kind} {u : Value} (h : binaryOperation operator v w = .ok u) :
    Matches ids tokens u u := iff_alike.mpr (.of_binaryOperation h)

lemma mono {ids' : NodeId → NodeId → Prop} {tokens' : Token → Token → Prop}
    (hids : ∀ i i', ids i i' → ids' i i') (htokens : ∀ t t', tokens t t' → tokens' t t')
    (h : Matches ids tokens v v') : Matches ids' tokens' v v' :=
  iff_alike.mpr ((iff_alike.mp h).mono fun _ _ _ hf => hf.mono htokens fun o _ => hids o.id)

end Value.Matches

/-! ## Stores -/

structure Store.Matches (ids : NodeId → NodeId → Prop) (tokens : Token → Token → Prop)
    (s s' : Store) : Prop where
  size : s.size = s'.size
  enclosing : ∀ f, s.enclosing? f = s'.enclosing? f
  values : ∀ f x, Option.Rel (Value.Matches ids tokens) (s.local? f x) (s'.local? f x)

namespace Store.Matches

variable {ids : NodeId → NodeId → Prop} {tokens : Token → Token → Prop} {s s' : Store}
  {f : FrameId} {x : String} {v v' : Value}

lemma isSome_eq (h : s.Matches ids tokens s') (f : FrameId) (x : String) :
    (s.local? f x).isSome = (s'.local? f x).isSome := by
  have hrel := h.values f x
  generalize s.local? f x = found, s'.local? f x = found' at hrel
  cases hrel <;> rfl

lemma mono {ids' : NodeId → NodeId → Prop} {tokens' : Token → Token → Prop}
    (hids : ∀ i i', ids i i' → ids' i i') (htokens : ∀ t t', tokens t t' → tokens' t t')
    (h : s.Matches ids tokens s') : s.Matches ids' tokens' s' where
  size := h.size
  enclosing := h.enclosing
  values f x := by
    have hrel := h.values f x
    generalize s.local? f x = found, s'.local? f x = found' at hrel ⊢
    cases hrel with
    | none => exact .none
    | some hv => exact .some (hv.mono hids htokens)

lemma holderAt?_eq (h : s.Matches ids tokens s') (f : FrameId) (d : ℕ) (x : String) :
    s.holderAt? f d x = s'.holderAt? f d x := by
  rw [Store.holderAt?, Store.holderAt?, ancestor?_congr h.enclosing]
  simp only [h.isSome_eq]

lemma holder?_eq (h : s.Matches ids tokens s') (f : FrameId) (x : String) :
    s.holder? f x = s'.holder? f x := by
  have hwithin : ∀ n f, s.holderWithin x n f = s'.holderWithin x n f := by
    intro n
    induction n with
    | zero => intro f; rfl
    | succ n ih =>
      intro f
      have hrel := h.values f x
      rw [Store.holderWithin, Store.holderWithin, h.enclosing, funext ih]
      generalize s.local? f x = found, s'.local? f x = found' at hrel
      cases hrel <;> rfl
  exact hwithin _ f

lemma define (h : s.Matches ids tokens s') (hv : v.Matches ids tokens v') (f : FrameId)
    (x : String) : (s.define f x v).Matches ids tokens (s'.define f x v') where
  size := by rw [size_define, size_define, h.size]
  enclosing g := by rw [enclosing?_define, enclosing?_define, h.enclosing]
  values g y := by
    rw [local?_define, local?_define, h.size]
    split
    · exact .some hv
    · exact h.values g y

lemma defineAll (h : s.Matches ids tokens s') (f : FrameId)
    {bindings bindings' : List (String × Value)}
    (hb : List.Forall₂ (fun b b' => b.1 = b'.1 ∧ b.2.Matches ids tokens b'.2) bindings bindings') :
    (s.defineAll f bindings).Matches ids tokens (s'.defineAll f bindings') := by
  induction hb generalizing s s' with
  | nil => exact h
  | cons hb _ ih =>
    rw [defineAll_cons, defineAll_cons, ← hb.1]
    exact ih (h.define hb.2 f _)

lemma add (h : s.Matches ids tokens s') (o : Option FrameId) :
    (s.add o).2.Matches ids tokens (s'.add o).2 where
  size := by rw [size_add, size_add, h.size]
  enclosing g := by
    by_cases hg : g = s.size
    · have hg' : g = s'.size := hg.trans h.size
      nth_rewrite 1 [hg]
      rw [hg', enclosing?_add_self, enclosing?_add_self]
    · rw [enclosing?_add_of_ne hg, enclosing?_add_of_ne (h.size ▸ hg), h.enclosing]
  values g y := by
    by_cases hg : g = s.size
    · have hg' : g = s'.size := hg.trans h.size
      nth_rewrite 1 [hg]
      rw [hg', local?_add_self, local?_add_self]
      exact .none
    · rw [local?_add_of_ne hg, local?_add_of_ne (h.size ▸ hg)]
      exact h.values g y

lemma extend (h : s.Matches ids tokens s') (outer : FrameId)
    {bindings bindings' : List (String × Value)}
    (hb : List.Forall₂ (fun b b' => b.1 = b'.1 ∧ b.2.Matches ids tokens b'.2) bindings bindings') :
    (s.extend outer bindings).Matches ids tokens (s'.extend outer bindings') := by
  rw [Store.extend, Store.extend, h.size]
  exact (h.add (some outer)).defineAll _ hb

end Store.Matches

/-! ## Machines -/

/-- How two runs are compared: which node `ids` and which `tokens` of their trees are related, and
their depth tables.  Related tokens mean the same to a machine, and related ids have the same
depth. -/
structure Pairing where
  ids : NodeId → NodeId → Prop
  tokens : Token → Token → Prop
  depths : Depths
  depths' : Depths
  get?_eq : ∀ id id', ids id id' → depths.get? id = depths'.get? id'
  kind_eq : ∀ t t', tokens t t' → t.kind = t'.kind
  lexeme_eq : ∀ t t', tokens t t' → t.lexeme = t'.lexeme

structure Machine.Matches (p : Pairing) (m m' : Machine) : Prop where
  store : m.store.Matches p.ids p.tokens m'.store
  globals : m.globals = m'.globals
  current : m.current = m'.current
  depths : m.depths = p.depths
  depths' : m'.depths = p.depths'
  nextObject : m.nextObject = m'.nextObject
  clock : m.clock = m'.clock
  sink : m.sink = m'.sink

inductive Stop.Matches (ids : NodeId → NodeId → Prop) (tokens : Token → Token → Prop) :
    Stop → Stop → Prop where
  | error {t t' : Token} (fault : RuntimeFault) :
      tokens t t' → Matches ids tokens (.error ⟨fault, t⟩) (.error ⟨fault, t'⟩)
  | returned {v v' : Value} :
      v.Matches ids tokens v' → Matches ids tokens (.returned v) (.returned v')
  | sink (fault : SinkFault) : Matches ids tokens (.sink fault) (.sink fault)

/-- The results of two runs match.  A run that is `exhausted`, having been given too few steps, is
not compared. -/
def Result.Matches {α : Type} (p : Pairing) (value : α → α → Prop) : Result α → Result α → Prop
  | .ok v m, .ok v' m' => value v v' ∧ m.Matches p m'
  | .stop reason m, .stop reason' m' => reason.Matches p.ids p.tokens reason' ∧ m.Matches p m'
  | .exhausted, _ => True
  | _, _ => False

section

variable {p : Pairing} {m m' : Machine} {f : FrameId} {x : String} {v v' : Value}

lemma Machine.Matches.holder?_eq (h : m.Matches p m') {id id' : NodeId} (hid : p.ids id id')
    (lookup : Lookup) (x : String) : m.holder? lookup id x = m'.holder? lookup id' x := by
  cases lookup with
  | byName =>
    rw [Machine.holder?, Machine.holder?, h.current]
    exact h.store.holder?_eq _ x
  | byDepth =>
    rw [Machine.holder?, Machine.holder?, h.depths, h.depths', p.get?_eq id id' hid,
      h.current, h.globals]
    cases p.depths'.get? id' with
    | none => exact h.store.holder?_eq _ x
    | some d => exact h.store.holderAt?_eq _ d x

lemma Machine.Matches.read? (h : m.Matches p m') {id id' : NodeId} (hid : p.ids id id')
    (lookup : Lookup) (x : String) :
    Option.Rel (Value.Matches p.ids p.tokens) (m.read? lookup id x) (m'.read? lookup id' x) := by
  rw [Machine.read?_eq_bind_holder?, Machine.read?_eq_bind_holder?, h.holder?_eq hid]
  cases m'.holder? lookup id' x with
  | none => exact .none
  | some f => exact h.store.values f x

lemma Machine.Matches.define (h : m.Matches p m') (hv : v.Matches p.ids p.tokens v') (f : FrameId)
    (x : String) :
    Machine.Matches p { m with store := m.store.define f x v }
      { m' with store := m'.store.define f x v' } :=
  { h with store := h.store.define hv f x }

lemma Machine.Matches.enter (h : m.Matches p m') (outer : FrameId)
    {bindings bindings' : List (String × Value)} (hb : List.Forall₂ (fun b b' => b.1 = b'.1 ∧
      b.2.Matches p.ids p.tokens b'.2) bindings bindings') :
    (m.enter outer bindings).Matches p (m'.enter outer bindings') :=
  { h with store := h.store.extend outer hb, current := h.store.size }

/-- Machines that match also match in another pairing `q`, after their depth tables have been
replaced. -/
lemma Machine.Matches.mono (h : m.Matches p m') {q : Pairing}
    (hids : ∀ i i', p.ids i i' → q.ids i i') (htokens : ∀ t t', p.tokens t t' → q.tokens t t') :
    Machine.Matches q { m with depths := q.depths } { m' with depths := q.depths' } :=
  { h with
    store := h.store.mono hids htokens
    depths := rfl
    depths' := rfl }

lemma Machine.Matches.leave {m₁ m₁' : Machine} (h : m₁.Matches p m₁') {outer outer' : FrameId}
    (houter : outer = outer') :
    Machine.Matches p { m₁ with current := outer } { m₁' with current := outer' } :=
  { h with current := houter }

/-! ## Results -/

namespace Result.Matches

variable {α β : Type} {value : α → α → Prop} {final : β → β → Prop} {act act' : Action α}
  {g g' : α → Action β}

/-- One action after another. -/
lemma bind (h : (act m).Matches p value (act' m'))
    (hg : ∀ v v' m₁ m₁', value v v' → m₁.Matches p m₁' → (g v m₁).Matches p final (g' v' m₁')) :
    ((act >>= g) m).Matches p final ((act' >>= g') m') := by
  cases hr : act m with
  | ok v m₁ =>
    cases hr' : act' m' with
    | ok v' m₁' =>
      rw [hr, hr'] at h
      rw [bind_eq_of_ok hr, bind_eq_of_ok hr']
      exact hg v v' m₁ m₁' h.1 h.2
    | stop reason' m₁' | exhausted =>
      rw [hr, hr'] at h
      exact h.elim
  | stop reason m₁ =>
    cases hr' : act' m' with
    | stop reason' m₁' =>
      rw [hr, hr'] at h
      rw [bind_eq_of_stop hr, bind_eq_of_stop hr']
      exact h
    | ok v' m₁' | exhausted =>
      rw [hr, hr'] at h
      exact h.elim
  | exhausted =>
    rw [bind_eq_of_exhausted hr]
    trivial

lemma leave {r r' : Result α} (h : r.Matches p value r') {outer outer' : FrameId}
    (houter : outer = outer') : (r.leave outer).Matches p value (r'.leave outer') := by
  cases r with
  | ok v m => cases r' with
    | ok v' m' => exact ⟨h.1, h.2.leave houter⟩
    | stop reason' m' | exhausted => exact h.elim
  | stop reason m => cases r' with
    | stop reason' m' => exact ⟨h.1, h.2.leave houter⟩
    | ok v' m' | exhausted => exact h.elim
  | exhausted => trivial

lemma returned {done : Unit → Unit → Prop} {r r' : Result Unit} (h : r.Matches p done r')
    {outer outer' : FrameId} (houter : outer = outer') :
    (r.returned outer).Matches p (Value.Matches p.ids p.tokens) (r'.returned outer') := by
  cases r with
  | ok v m => cases r' with
    | ok v' m' => exact ⟨.nil, h.2.leave houter⟩
    | stop reason' m' | exhausted => exact h.elim
  | stop reason m => cases r' with
    | stop reason' m' =>
      obtain ⟨hreason, hm⟩ := h
      cases hreason with
      | error fault ht => exact ⟨.error fault ht, hm.leave houter⟩
      | returned hv => exact ⟨hv, hm.leave houter⟩
      | sink fault => exact ⟨.sink fault, hm.leave houter⟩
    | ok v' m' | exhausted => exact h.elim
  | exhausted => trivial

end Result.Matches

end

end LoxLang
