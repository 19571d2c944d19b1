import LoxLang.Proofs.Machine.Moments
import LoxLang.Proofs.Scope.Chains

/-!
# Scopes along a run

Wherever a run has come to, the current frame stands for the scopes that the resolver had open at
that place.  The argument goes by the steps a task has left: if it holds of the tasks that a task
starts, then the invariant of frames and values holds after the task, and every task that it starts
begins at a place with the right frames.
-/

namespace LoxLang

open LoxLang.Action

/-! ## Entering scopes -/

/-- A task adds a frame: by entering a `block`, or by a `call` of a function. -/
inductive Enters (lookup : Lookup) (steps : ℕ) : Task → Machine → FrameId → Origin → Prop where
  | block {body : List Stmt} {m : Machine} :
      Enters lookup steps (.execute (.block body)) m m.store.size (.block body)
  | call {callee : Expr} {paren : Token} {arguments : List Expr} {id : ObjectId} {f : Function}
      {closure : FrameId} {vs : List Value} {m m' : Machine} :
      evaluateAll (evaluate lookup steps) (callee :: arguments) m =
        .ok (.callable (.function id f closure) :: vs) m' →
      vs.length = f.arity →
      Enters lookup steps (.evaluate (.call callee paren arguments)) m m'.store.size (.function f)

/-- The frame `f` is added for the origin `o` at one of the moments `M`. -/
def OpenedAt (lookup : Lookup) (M : ℕ → Task → Machine → Prop) (f : FrameId) (o : Origin) : Prop :=
  ∃ k t m, M (k + 1) t m ∧ Enters lookup k t m f o

/-! ## Places -/

/-- An expression `e` is about to be evaluated inside `scopes` that the current frame stands for. -/
structure ExprAt (P : Site → Prop) (made : Account) (m : Machine) (origins : List Origin)
    (scopes : Scopes) (initializing : Option Token) (e : Expr) : Prop where
  standing : Standing made m origins scopes
  sites : ∀ w ∈ e.sites origins scopes initializing, P w

/-- A statement `s` is about to be executed inside `scopes` that the current frame stands for. -/
structure StmtAt (P : Site → Prop) (made : Account) (m : Machine) (inFunction : Bool)
    (origins : List Origin) (scopes : Scopes) (s : Stmt) : Prop where
  standing : Standing made m origins scopes
  settled : scopes.Settled
  shaped : s.Shaped
  declares : ∀ o ∈ origins.head?, ∀ x, s.Declares x → o.Declares x
  sites : ∀ w ∈ s.sites inFunction origins scopes, P w

/-- The statements `ss` are about to be executed in a row. -/
structure StmtsAt (P : Site → Prop) (made : Account) (m : Machine) (inFunction : Bool)
    (origins : List Origin) (scopes : Scopes) (ss : List Stmt) : Prop where
  standing : Standing made m origins scopes
  settled : scopes.Settled
  shaped : Stmt.AllShaped ss
  declares : ∀ o ∈ origins.head?, ∀ s ∈ ss, ∀ x, s.Declares x → o.Declares x
  sites : ∀ w ∈ Stmt.allSites inFunction origins ss scopes, P w

/-- A task is about to be done at a place that the current frame stands for: `ExprAt` or
`StmtAt`. -/
def TaskAt (P : Site → Prop) (made : Account) (m : Machine) : Task → Prop
  | .evaluate e => ∃ origins scopes initializing, ExprAt P made m origins scopes initializing e
  | .execute s => ∃ inFunction origins scopes, StmtAt P made m inFunction origins scopes s

/-- The first of statements in a row, `front`. -/
lemma StmtsAt.front {P : Site → Prop} {made : Account} {m : Machine} {inFunction : Bool}
    {origins : List Origin} {scopes : Scopes} {ss front back : List Stmt}
    (h : StmtsAt P made m inFunction origins scopes ss) (hss : ss = front ++ back) :
    StmtsAt P made m inFunction origins scopes front where
  standing := h.standing
  settled := h.settled
  shaped := by
    rw [Stmt.allShaped_iff]
    exact fun s hs => (Stmt.allShaped_iff ss).mp h.shaped s
      (by rw [hss]; exact List.mem_append_left _ hs)
  declares o ho s hs := h.declares o ho s (by rw [hss]; exact List.mem_append_left _ hs)
  sites w hw := by
    refine h.sites w ?_
    rw [hss, Stmt.allSites_append]
    exact List.mem_append_left _ hw

lemma Stmt.settled_resolveAll (inFunction : Bool) (ss : List Stmt) {scopes : Scopes}
    (hshaped : Stmt.AllShaped ss) (h : scopes.Settled) :
    (Stmt.resolveAll inFunction ss scopes).1.Settled := by
  induction ss generalizing scopes with
  | nil => exact h
  | cons s rest ih =>
    rw [Stmt.AllShaped] at hshaped
    rw [Stmt.resolveAll]
    refine ih hshaped.2 ?_
    rw [Stmt.resolve_fst inFunction s scopes hshaped.1]
    exact s.settled_after h

/-- The next of statements in a row, `s`, after the ones `before` it. -/
lemma StmtsAt.next {P : Site → Prop} {made made' : Account} {m m' : Machine} {inFunction : Bool}
    {origins : List Origin} {scopes : Scopes} {ss before after : List Stmt} {s : Stmt}
    (h : StmtsAt P made m inFunction origins scopes ss) (hss : ss = before ++ s :: after)
    (hstanding : Standing made' m' origins (Stmt.resolveAll inFunction before scopes).1) :
    StmtAt P made' m' inFunction origins (Stmt.resolveAll inFunction before scopes).1 s where
  standing := hstanding
  settled := Stmt.settled_resolveAll inFunction before (h.front hss).shaped h.settled
  shaped := (Stmt.allShaped_iff ss).mp h.shaped s (by rw [hss]; simp)
  declares o ho := h.declares o ho s (by rw [hss]; simp)
  sites w hw := by
    refine h.sites w ?_
    rw [hss, Stmt.allSites_append, Stmt.allSites]
    exact List.mem_append_right _ (List.mem_append_left _ hw)

/-! ## Results -/

/-- A value on its way out, because a call has `returned` it, is in order. -/
def StopSound (made : Account) (P : Site → Prop) (m : Machine) (reason : Stop) : Prop :=
  ∀ v, reason = .returned v → ValueSound made m.store m.globals P v

/-- The run leaves the frames as they were, but for `new` names in the current one, and the
invariant `Account.Sound` holds after it. -/
def Leads (P : Site → Prop) (C : FrameId → Origin → Prop) (new : String → Prop) (made : Account)
    (m : Machine) {α : Type} (r : Result α) (ok : Account → Machine → α → Prop) : Prop :=
  r.Meets (fun v m' => ∃ made', Grows new made m made' m' ∧ made'.Sound P C m' ∧ ok made' m' v)
    (fun reason m' => ∃ made', Grows new made m made' m' ∧ made'.Sound P C m' ∧
      StopSound made' P m' reason)

/-- The value `v` is in order with the machine `m`. -/
abbrev SoundValue (P : Site → Prop) (made : Account) (m : Machine) (v : Value) : Prop :=
  ValueSound made m.store m.globals P v

namespace Leads

variable {P : Site → Prop} {C : FrameId → Origin → Prop} {new more : String → Prop} {made : Account}
  {m : Machine} {α β : Type} {act : Action α} {f : α → Action β} {r : Result α}
  {ok ok' : Account → Machine → α → Prop} {final : Account → Machine → β → Prop}

lemma of_ok {v : α} {m' : Machine} (hr : r = .ok v m') (hgrows : Grows new made m made m')
    (hsound : made.Sound P C m') (hok : ok made m' v) : Leads P C new made m r ok := by
  subst hr
  exact ⟨made, hgrows, hsound, hok⟩

lemma of_stop {reason : Stop} {m' : Machine} (hr : r = .stop reason m')
    (hgrows : Grows new made m made m') (hsound : made.Sound P C m')
    (hstop : StopSound made P m' reason) : Leads P C new made m r ok := by
  subst hr
  exact ⟨made, hgrows, hsound, hstop⟩

lemma pure {v : α} (hsound : made.Sound P C m) (hok : ok made m v) :
    Leads P C new made m ((Pure.pure v : Action α) m) ok :=
  of_ok rfl (Grows.refl new made m) hsound hok

lemma fail {fault : RuntimeFault} {token : Token} (hsound : made.Sound P C m) :
    Leads P C new made m ((Action.fail fault token : Action α) m) ok :=
  of_stop rfl (Grows.refl new made m) hsound nofun

lemma mono (h : Leads P C new made m r ok) (hnew : ∀ x, new x → more x)
    (hok : ∀ made' m' v, ok made' m' v → ok' made' m' v) : Leads P C more made m r ok' := by
  refine Result.Meets.mono h ?_ ?_
  · rintro v m' ⟨made', hgrows, hsound, hv⟩
    exact ⟨made', hgrows.mono hnew, hsound, hok made' m' v hv⟩
  · rintro reason m' ⟨made', hgrows, hrest⟩
    exact ⟨made', hgrows.mono hnew, hrest⟩

/-- One action after another, where the first one may bind fewer `new` names. -/
lemma bind_of_le (h : Leads P C new made m (act m) ok) (hnew : ∀ x, new x → more x)
    (hf : ∀ v made' m', act m = .ok v m' → Grows new made m made' m' → made'.Sound P C m' →
      ok made' m' v →
      Leads P C more made' m' (f v m') final) :
    Leads P C more made m ((act >>= f) m) final := by
  refine Result.Meets.bind (Result.Meets.mono h (fun _ _ hdone => hdone) ?_) fun v m' hr hdone => ?_
  · rintro reason m' ⟨made', hgrows, hrest⟩
    exact ⟨made', hgrows.mono hnew, hrest⟩
  · obtain ⟨made', hgrows, hsound, hv⟩ := hdone
    refine Result.Meets.mono (hf v made' m' hr hgrows hsound hv) ?_ ?_
    · rintro w m'' ⟨made'', hgrows', hrest⟩
      exact ⟨made'', (hgrows.mono hnew).trans hgrows', hrest⟩
    · rintro reason m'' ⟨made'', hgrows', hrest⟩
      exact ⟨made'', (hgrows.mono hnew).trans hgrows', hrest⟩

/-- One action after another. -/
lemma bind (h : Leads P C new made m (act m) ok)
    (hf : ∀ v made' m', act m = .ok v m' → Grows new made m made' m' → made'.Sound P C m' →
      ok made' m' v →
      Leads P C new made' m' (f v m') final) :
    Leads P C new made m ((act >>= f) m) final :=
  h.bind_of_le (fun _ hx => hx) hf

/-- What a run that came to a value `v` has led to. -/
lemma ok_of_eq {v : α} {m' : Machine} (h : Leads P C new made m r ok) (hr : r = .ok v m') :
    ∃ made', Grows new made m made' m' ∧ made'.Sound P C m' ∧ ok made' m' v :=
  Result.Meets.of_ok h hr

end Leads

/-! ## Statements and expressions in a row -/

section

variable {P : Site → Prop} {C : FrameId → Origin → Prop} {made : Account} {m : Machine}
  {origins : List Origin} {scopes : Scopes} {initializing : Option Token} {inFunction : Bool}
  {eval : Expr → Action Value} {exec : Stmt → Action Unit}

/-- Expressions are evaluated in a row if each can be evaluated where it is started (`heval`). -/
lemma evaluateAll_leads (es : List Expr) (hsound : made.Sound P C m)
    (hstanding : Standing made m origins scopes) (heval : ∀ before p after vs made' m',
      es = before ++ p :: after → evaluateAll eval before m = .ok vs m' →
      made'.Sound P C m' → Standing made' m' origins scopes →
      Leads P C noName made' m' (eval p m') (SoundValue P)) :
    Leads P C noName made m (evaluateAll eval es m)
      (fun made' m' vs => ∀ v ∈ vs, SoundValue P made' m' v) := by
  induction es generalizing made m with
  | nil => exact Leads.pure hsound (by simp)
  | cons e rest ih =>
    rw [evaluateAll_cons]
    refine (heval [] e rest [] made m rfl rfl hsound hstanding).bind
      fun v made₁ m₁ hv hgrows hsound₁ hvsound => ?_
    have hrest :=
      ih hsound₁ (hstanding.grow hgrows) fun before p after vs made' m' hsplit hbefore => by
      refine heval (e :: before) p after (v :: vs) made' m' (by rw [hsplit]; rfl) ?_
      rw [evaluateAll_cons, bind_eq_of_ok hv, bind_eq_of_ok hbefore]
      rfl
    refine hrest.bind fun vs made₂ m₂ _ hgrows₂ hsound₂ hvs => Leads.pure hsound₂ ?_
    rintro w (_ | ⟨_, hw⟩)
    · exact hvsound.grow hgrows₂
    · exact hvs w hw

/-- Statements are executed in a row if each can be executed where it is started (`hexec`). -/
lemma executeAll_leads (ss : List Stmt) (hsound : made.Sound P C m)
    (hat : StmtsAt P made m inFunction origins scopes ss)
    (hexec : ∀ before s after scopes' made' m', ss = before ++ s :: after →
      executeAll exec before m = .ok () m' →
      made'.Sound P C m' → StmtAt P made' m' inFunction origins scopes' s →
      Leads P C s.Declares made' m' (exec s m')
        (fun _ m' _ => ∀ x, s.Declares x → m'.store.Binds m'.current x)) :
    Leads P C (fun x => ∃ s ∈ ss, s.Declares x) made m (executeAll exec ss m)
      (fun made' m' _ => Standing made' m' origins (Stmt.resolveAll inFunction ss scopes).1) := by
  induction ss generalizing made m scopes with
  | nil => exact Leads.pure hsound hat.standing
  | cons s rest ih =>
    have hshaped : s.Shaped ∧ Stmt.AllShaped rest := by simpa only [Stmt.AllShaped] using hat.shaped
    have hfst := Stmt.resolve_fst inFunction s scopes hshaped.1
    have hsites : ∀ w, w ∈ s.sites inFunction origins scopes ∨
        w ∈ Stmt.allSites inFunction origins rest (s.after scopes) → P w := by
      intro w hw
      rw [← hfst] at hw
      exact hat.sites w (by rw [Stmt.allSites]; exact List.mem_append.mpr hw)
    have hfirst : StmtAt P made m inFunction origins scopes s :=
      ⟨hat.standing, hat.settled, hshaped.1, fun o ho => hat.declares o ho s (by simp),
        fun w hw => hsites w (.inl hw)⟩
    rw [executeAll_cons]
    refine (hexec [] s rest scopes made m rfl rfl hsound hfirst).bind_of_le
      (fun x hx => ⟨s, by simp, hx⟩) fun _ made₁ m₁ hs hgrows hsound₁ hbound => ?_
    -- The first statement has bound the name it declares, so the frame stands for the scopes
    -- after it, and the rest is a row of statements again.
    have hstanding : Standing made₁ m₁ origins (s.after scopes) :=
      hat.standing.after hgrows fun x hx => hgrows.current ▸ hbound x hx
    have hnext : StmtsAt P made₁ m₁ inFunction origins (s.after scopes) rest :=
      ⟨hstanding, s.settled_after hat.settled, hshaped.2,
        fun o ho t ht => hat.declares o ho t (List.mem_cons_of_mem s ht),
        fun w hw => hsites w (.inr hw)⟩
    have hrest := ih hsound₁ hnext fun before t after scopes' made' m' hsplit hbefore => by
      refine hexec (s :: before) t after scopes' made' m' (by rw [hsplit]; rfl) ?_
      rw [executeAll_cons, bind_eq_of_ok hs, hbefore]
    refine hrest.mono (fun x ⟨t, ht, hx⟩ => ⟨t, List.mem_cons_of_mem s ht, hx⟩)
      fun made' m' _ hend => ?_
    rw [Stmt.resolveAll]
    simp only [hfst]
    exact hend

end

/-! ## Values -/

section

variable {P : Site → Prop} {C : FrameId → Origin → Prop} {made : Account} {m : Machine}
  {store : Store} {globals : FrameId}

lemma valueSound_ofConstant (c : Constant) : ValueSound made store globals P (.ofConstant c) := by
  cases c <;> trivial

lemma valueSound_of_unaryOperation {operator : Kind} {v w : Value}
    (h : unaryOperation operator v = .ok w) : ValueSound made store globals P w := by
  unfold unaryOperation at h
  split at h
  · obtain rfl := Except.ok.inj h
    trivial
  · split at h
    · obtain rfl := Except.ok.inj h
      trivial
    · cases h
  · cases h

lemma valueSound_of_onNumbers {f : Float → Float → Value} {u v w : Value}
    (h : onNumbers f u v = .ok w) (hf : ∀ a b, ValueSound made store globals P (f a b)) :
    ValueSound made store globals P w := by
  unfold onNumbers at h
  split at h
  · obtain rfl := Except.ok.inj h
    exact hf _ _
  · cases h

lemma valueSound_of_binaryOperation {operator : Kind} {u v w : Value}
    (h : binaryOperation operator u v = .ok w) : ValueSound made store globals P w := by
  unfold binaryOperation at h
  split at h
  · unfold addition at h
    split at h
    · obtain rfl := Except.ok.inj h
      trivial
    · obtain rfl := Except.ok.inj h
      trivial
    · cases h
  all_goals
    first
    | exact valueSound_of_onNumbers h fun _ _ => trivial
    | (obtain rfl := Except.ok.inj h; trivial)
    | cases h

lemma Machine.binds_of_holder? {lookup : Lookup} {id : NodeId} {x : String} {f : FrameId}
    (h : m.holder? lookup id x = some f) : m.store.Binds f x := by
  unfold Machine.holder? at h
  split at h
  · split at h
    · exact (Option.filter_eq_some_iff.mp h).2
    · exact Store.binds_of_holderWithin _ _ h
  · exact Store.binds_of_holderWithin _ _ h

/-- A value that is read is a `local?` value of some frame of the store. -/
lemma Machine.local?_of_read? {lookup : Lookup} {id : NodeId} {x : String} {v : Value}
    (h : m.read? lookup id x = some v) : ∃ f, m.store.local? f x = some v := by
  unfold Machine.read? at h
  split at h
  · split at h
    all_goals
      obtain ⟨f, -, hv⟩ := Option.bind_eq_some_iff.mp h
      exact ⟨f, hv⟩
  · obtain ⟨f, -, hv⟩ := Option.bind_eq_some_iff.mp h
    exact ⟨f, hv⟩

lemma check_leads {token : Token} {r : Except RuntimeFault Value} (hsound : made.Sound P C m)
    (hr : ∀ w, r = .ok w → SoundValue P made m w) :
    Leads P C noName made m (check token r m) (SoundValue P) := by
  cases r with
  | ok w => exact Leads.pure hsound (hr w rfl)
  | error fault => exact Leads.fail hsound

lemma readVariable_leads {lookup : Lookup} {id : NodeId} {name : Token}
    (hsound : made.Sound P C m) :
    Leads P C noName made m (readVariable lookup id name m) (SoundValue P) := by
  unfold readVariable
  cases h : m.read? lookup id name.lexeme with
  | none => exact Leads.of_stop rfl (Grows.refl _ _ _) hsound nofun
  | some v =>
    obtain ⟨f, hf⟩ := Machine.local?_of_read? h
    exact Leads.of_ok rfl (Grows.refl _ _ _) hsound (hsound.values f _ v hf)

lemma assignVariable_leads {lookup : Lookup} {id : NodeId} {name : Token} {v : Value}
    (hsound : made.Sound P C m) (hv : SoundValue P made m v) :
    Leads P C noName made m (assignVariable lookup id name v m)
      (fun made' m' _ => SoundValue P made' m' v) := by
  unfold assignVariable
  cases h : m.holder? lookup id name.lexeme with
  | none => exact Leads.of_stop rfl (Grows.refl _ _ _) hsound nofun
  | some f =>
    have hbinds := Machine.binds_of_holder? h
    have hgrows : Grows noName made m made { m with store := m.store.define f name.lexeme v } :=
      Grows.define hbinds.lt_size (Or.inl hbinds)
    have hv' := hv.grow hgrows
    refine Leads.of_ok rfl hgrows ?_ hv'
    exact hsound.define hbinds.lt_size hgrows hv' fun o ho => hsound.names f o _ ho hbinds

end

/-! ## New frames -/

section

variable {P : Site → Prop} {C : FrameId → Origin → Prop} {new : String → Prop} {made : Account}
  {m : Machine} {origins : List Origin} {scopes : Scopes} {o : Origin} {outer : FrameId}
  {bindings : List (String × Value)} {r : Result Unit} {ok : Account → Machine → Unit → Prop}
  {inFunction : Bool} {body : List Stmt}

/-- What was done inside a new frame leaves the frames before it as they were. -/
lemma Leads.leave (h : Leads P C new (made.enter m.store.size o) (m.enter outer bindings) r ok) :
    Leads P C noName made m (r.leave m.current) (fun _ _ _ => True) := by
  cases r with
  | ok v m' =>
    obtain ⟨made', hgrows, hsound, -⟩ := h
    exact ⟨made', hgrows.leave, hsound.of_store_eq rfl rfl, trivial⟩
  | stop reason m' =>
    obtain ⟨made', hgrows, hsound, hstop⟩ := h
    exact ⟨made', hgrows.leave, hsound.of_store_eq rfl rfl, hstop⟩
  | exhausted => trivial

lemma Leads.returned (h : Leads P C new (made.enter m.store.size o) (m.enter outer bindings) r ok) :
    Leads P C noName made m (r.returned m.current) (SoundValue P) := by
  cases r with
  | ok v m' =>
    obtain ⟨made', hgrows, hsound, -⟩ := h
    exact ⟨made', hgrows.leave, hsound.of_store_eq rfl rfl, trivial⟩
  | stop reason m' =>
    obtain ⟨made', hgrows, hsound, hstop⟩ := h
    cases reason with
    | returned v => exact ⟨made', hgrows.leave, hsound.of_store_eq rfl rfl, hstop v rfl⟩
    | error e => exact ⟨made', hgrows.leave, hsound.of_store_eq rfl rfl, nofun⟩
    | sink fault => exact ⟨made', hgrows.leave, hsound.of_store_eq rfl rfl, nofun⟩
  | exhausted => trivial

/-- The statements of a block, in its new frame: the scope of the block is still empty. -/
lemma StmtAt.enter_block (h : StmtAt P made m inFunction origins scopes (.block body)) :
    StmtsAt P (made.enter m.store.size (.block body)) (m.enter m.current []) inFunction
      (.block body :: origins) ([] :: scopes) body where
  standing := Standing.enter h.standing.chain h.settled fun x => by simp
  settled := h.settled.cons_nil
  shaped := by simpa only [Stmt.Shaped] using h.shaped
  declares := by
    intro o ho s hs x hx
    obtain rfl : Origin.block body = o := by simpa using ho
    exact Or.inr ⟨s, hs, hx⟩
  sites := h.sites

/-- The names and the values that a call binds, with as many values as the `arity` asks for. -/
lemma bindings_of_length {f : Function} {vs : List Value} (h : vs.length = f.arity) :
    ((f.parameters.map Token.lexeme).zip vs).map Prod.fst = f.parameters.map Token.lexeme ∧
      ((f.parameters.map Token.lexeme).zip vs).map Prod.snd = vs := by
  have hlength : (f.parameters.map Token.lexeme).length = vs.length := by
    rw [List.length_map, h, Function.arity]
  exact ⟨List.map_fst_zip hlength.le, List.map_snd_zip hlength.ge⟩

/-- The statements of the body of a function `f`, in the new frame of a call. -/
lemma enter_function {f : Function} {vs : List Value} {closure : FrameId}
    (hlength : vs.length = f.arity) (hchain : Chain made m.store m.globals closure origins scopes)
    (hsettled : scopes.Settled) (hshaped : Stmt.AllShaped f.body)
    (hsites : ∀ w ∈ f.sites origins scopes, P w) :
    StmtsAt P (made.enter m.store.size (.function f))
      (m.enter closure ((f.parameters.map Token.lexeme).zip vs)) true
      (.function f :: origins) (Scopes.declareAll ([] :: scopes) f.parameters).1 f.body := by
  obtain ⟨scope, heq, hlookup⟩ := Scopes.foldl_bind_cons [] scopes f.parameters
  have hinner : (Scopes.declareAll ([] :: scopes) f.parameters).1 = scope :: scopes := by
    rw [Scopes.declareAll_fst, heq]
  refine ⟨?_, ?_, hshaped, ?_, hsites⟩
  · rw [hinner]
    refine Standing.enter hchain hsettled fun x => ?_
    rw [hlookup, (bindings_of_length hlength).1]
    by_cases hx : x ∈ f.parameters.map Token.lexeme <;> simp [hx]
  · rw [Scopes.declareAll_fst]
    exact hsettled.cons_nil.foldl_bind f.parameters
  · intro o ho s hs x hx
    obtain rfl : Origin.function f = o := by simpa using ho
    exact Or.inr ⟨s, hs, hx⟩

/-- The frame of a call is in order: it binds the parameters of `f` to values in order. -/
lemma Account.Sound.enter_function {f : Function} {vs : List Value} {closure : FrameId}
    (hsound : made.Sound P C m) (hlength : vs.length = f.arity) (hC : C m.store.size (.function f))
    (hvs : ∀ v ∈ vs, SoundValue P made m v) :
    (made.enter m.store.size (.function f)).Sound P C
      (m.enter closure ((f.parameters.map Token.lexeme).zip vs)) := by
  obtain ⟨hfst, hsnd⟩ := bindings_of_length hlength
  refine hsound.enter hC ?_ ?_
  · rw [hfst]
    exact fun y hy => Or.inl hy
  · rw [hsnd]
    exact hvs

end

/-! ## Tasks -/

section

variable {lookup : Lookup} {P : Site → Prop} {M : ℕ → Task → Machine → Prop}

/-- Expressions with `k` steps lead to values in order. -/
def EvaluateLeads (lookup : Lookup) (P : Site → Prop) (M : ℕ → Task → Machine → Prop)
    (k : ℕ) : Prop :=
  ∀ e made m origins scopes initializing, M k (.evaluate e) m → made.Sound P (OpenedAt lookup M) m →
    ExprAt P made m origins scopes initializing e →
    Leads P (OpenedAt lookup M) noName made m (evaluate lookup k e m) (SoundValue P)

/-- Statements with `k` steps leave everything in order and bind the name that they declare. -/
def ExecuteLeads (lookup : Lookup) (P : Site → Prop) (M : ℕ → Task → Machine → Prop)
    (k : ℕ) : Prop :=
  ∀ s made m inFunction origins scopes, M k (.execute s) m → made.Sound P (OpenedAt lookup M) m →
    StmtAt P made m inFunction origins scopes s →
    Leads P (OpenedAt lookup M) s.Declares made m (execute lookup k s m)
      (fun _ m' _ => ∀ x, s.Declares x → m'.store.Binds m'.current x)

lemma Expr.sites_of_mem_parts {e p : Expr} (hp : p ∈ e.parts) {origins : List Origin}
    {scopes : Scopes} {initializing : Option Token} {w : Site}
    (hw : w ∈ p.sites origins scopes initializing) : w ∈ e.sites origins scopes initializing := by
  obtain ⟨o, ho, rfl⟩ := List.mem_map.mp hw
  refine List.mem_map.mpr ⟨o, ?_, rfl⟩
  cases e with
  | literal value | read id name => simp [Expr.parts] at hp
  | grouping inner | unary operator inner =>
    obtain rfl : p = inner := by simpa [Expr.parts] using hp
    exact ho
  | binary left operator right | logical left operator right =>
    rw [Expr.occurrences]
    rcases List.mem_pair.mp hp with rfl | rfl
    · exact List.mem_append_left _ ho
    · exact List.mem_append_right _ ho
  | assign id name value =>
    obtain rfl : p = value := by simpa [Expr.parts] using hp
    exact List.mem_append_left _ ho
  | call callee paren arguments =>
    rw [Expr.occurrences]
    rcases List.mem_cons.mp hp with rfl | hp
    · exact List.mem_append_left _ ho
    · refine List.mem_append_right _ ?_
      rw [Expr.allOccurrences_eq_flatMap]
      exact List.mem_flatMap.mpr ⟨p, hp, ho⟩

end

end LoxLang
