import LoxLang.Proofs.Scope.Runs

/-!
# Every task stands at its place

One step of the induction for each kind of task: given that tasks with `k` steps lead where they
should, so do tasks with `k + 1` steps.  From this the place of every moment of a run is known.
-/

namespace LoxLang

open LoxLang.Action

section

variable {lookup : Lookup} {P : Site → Prop} {M : ℕ → Task → Machine → Prop} {k : ℕ}
  {made : Account} {m : Machine} {inFunction : Bool} {origins : List Origin} {scopes : Scopes}
  {initializing : Option Token} (hclosed : StartClosed lookup M)
  (hevaluate : EvaluateLeads lookup P M k) (hexecute : ExecuteLeads lookup P M k)

/-! ## Expressions -/

lemma Expr.goesOn_of_ne {e : Expr} (h : ∀ left operator right, e ≠ .logical left operator right)
    (vs : List Value) : e.goesOn vs = true := by
  cases e with
  | logical left operator right => exact absurd rfl (h left operator right)
  | literal value | grouping inner | unary operator right | binary left operator right
  | read id name
  | assign id name value | call callee paren arguments => rfl

/-- A part `q` that stands before another one is evaluated in any case. -/
lemma Expr.goesOn_of_parts {e p q : Expr} {before middle after : List Expr} {vs : List Value}
    (hparts : e.parts = (before ++ q :: middle) ++ p :: after) (hvs : vs.length = before.length) :
    e.goesOn vs = true := by
  by_cases hlogical : ∃ left operator right, e = .logical left operator right
  · obtain ⟨left, operator, right, rfl⟩ := hlogical
    have hlength := congrArg List.length hparts
    simp only [Expr.parts, List.length_append, List.length_cons, List.length_nil] at hlength
    obtain rfl : vs = [] := List.length_eq_zero_iff.mp (by omega)
    rfl
  · exact Expr.goesOn_of_ne (fun left operator right h => hlogical ⟨left, operator, right, h⟩) vs

include hclosed hevaluate in
/-- The first parts of an expression, as long as it goes on (`hgoes`). -/
lemma parts_leads {e : Expr} {front back : List Expr} (hparts : e.parts = front ++ back)
    (hm : M (k + 1) (.evaluate e) m) (hsound : made.Sound P (OpenedAt lookup M) m)
    (hat : ExprAt P made m origins scopes initializing e)
    (hgoes : ∀ before p after vs, front = before ++ p :: after → vs.length = before.length →
      e.goesOn vs = true) :
    Leads P (OpenedAt lookup M) noName made m (evaluateAll (evaluate lookup k) front m)
      (fun made' m' vs => ∀ v ∈ vs, SoundValue P made' m' v) := by
  refine evaluateAll_leads front hsound hat.standing
    fun before p after vs made' m' hfront hbefore hsound' hstanding => ?_
  have hsplit : e.parts = before ++ p :: (after ++ back) := by rw [hparts, hfront]; simp
  have hstart : Starts lookup k (.evaluate e) m (.evaluate p) m' :=
    .part hsplit hbefore (hgoes before p after vs hfront (length_of_evaluateAll hbefore))
  refine hevaluate p made' m' origins scopes initializing (hclosed _ _ _ _ _ hm hstart) hsound'
    ⟨hstanding, ?_⟩
  intro w hw
  exact hat.sites w (Expr.sites_of_mem_parts (by rw [hsplit]; simp) hw)

include hclosed hexecute in
/-- A call of a function, from where its arguments have been evaluated to the values `vs`. -/
lemma function_leads {callee : Expr} {paren : Token} {arguments : List Expr} {id : ObjectId}
    {f : Function} {closure : FrameId} {vs : List Value} {made' : Account} {m' : Machine}
    {front back : List Stmt} (hm : M (k + 1) (.evaluate (.call callee paren arguments)) m)
    (hvalues : evaluateAll (evaluate lookup k) (callee :: arguments) m =
      .ok (.callable (.function id f closure) :: vs) m')
    (hlength : vs.length = f.arity) (hsound : made'.Sound P (OpenedAt lookup M) m')
    (hf : SoundValue P made' m' (.callable (.function id f closure)))
    (hvs : ∀ v ∈ vs, SoundValue P made' m' v) (hbody : f.body = front ++ back) :
    ∃ origins scopes, StmtsAt P (made'.enter m'.store.size (.function f))
        (m'.enter closure ((f.parameters.map Token.lexeme).zip vs)) true
        (.function f :: origins) scopes f.body ∧
      Leads P (OpenedAt lookup M) (fun x => ∃ s ∈ front, s.Declares x)
        (made'.enter m'.store.size (.function f))
        (m'.enter closure ((f.parameters.map Token.lexeme).zip vs))
        (executeAll (execute lookup k) front
          (m'.enter closure ((f.parameters.map Token.lexeme).zip vs)))
        (fun made'' m'' _ => Standing made'' m'' (.function f :: origins)
          (Stmt.resolveAll true front scopes).1) := by
  obtain ⟨origins, scopes, hchain, hsettled, hshaped, hsites⟩ := hf
  have hat := enter_function hlength hchain hsettled hshaped hsites
  have hopened : OpenedAt lookup M m'.store.size (.function f) :=
    ⟨k, _, m, hm, .call hvalues hlength⟩
  refine ⟨origins, _, hat, ?_⟩
  refine executeAll_leads front (hsound.enter_function hlength hopened hvs) (hat.front hbody) ?_
  intro before s after scopes' made'' m'' hfront hbefore hsound'' hat'
  have hsplit : f.body = before ++ s :: (after ++ back) := by rw [hbody, hfront]; simp
  have hstart : Starts lookup k (.evaluate (.call callee paren arguments)) m (.execute s) m'' :=
    .body hvalues hlength hsplit hbefore
  exact hexecute s made'' m'' true _ scopes' (hclosed _ _ _ _ _ hm hstart) hsound'' hat'

include hclosed hexecute in
/-- How an expression finishes, by `Expr.finish`, once its parts have been evaluated. -/
lemma finish_leads {e : Expr} {vs : List Value} {made' : Account} {m' : Machine}
    (hm : M (k + 1) (.evaluate e) m)
    (hvalues : evaluateAll (evaluate lookup k) e.parts m = .ok vs m')
    (hsound : made'.Sound P (OpenedAt lookup M) m') (hvs : ∀ v ∈ vs, SoundValue P made' m' v) :
    Leads P (OpenedAt lookup M) noName made' m' (e.finish lookup (execute lookup k) vs m')
      (SoundValue P) := by
  have hlast : SoundValue P made' m' (vs.getLastD .nil) := by
    rcases List.eq_nil_or_concat vs with rfl | ⟨front, last, rfl⟩
    · trivial
    · simpa using hvs last (by simp)
  have hlength := length_of_evaluateAll hvalues
  cases e with
  | literal value => exact Leads.pure hsound (valueSound_ofConstant value)
  | grouping inner => exact Leads.pure hsound hlast
  | unary operator right =>
    obtain ⟨v, rfl⟩ := List.length_eq_one_iff.mp hlength
    exact check_leads hsound fun w hw => valueSound_of_unaryOperation hw
  | binary left operator right =>
    obtain ⟨u, v, rfl⟩ := List.length_eq_two.mp hlength
    exact check_leads hsound fun w hw => valueSound_of_binaryOperation hw
  | logical left operator right => exact Leads.pure hsound hlast
  | read id name => exact readVariable_leads hsound
  | assign id name value =>
    obtain ⟨v, rfl⟩ := List.length_eq_one_iff.mp hlength
    refine (assignVariable_leads hsound (hvs v (by simp))).bind
      fun _ made'' m'' _ _ hsound'' hv => ?_
    exact Leads.pure hsound'' hv
  | call callee paren arguments =>
    -- Only a function that is called with as many values as it has parameters enters a frame.
    obtain ⟨c, vs, rfl⟩ := List.exists_cons_of_length_pos (by rw [hlength]; exact Nat.succ_pos _)
    cases c with
    | nil | bool b | number x | string s => exact Leads.fail hsound
    | callable c =>
      rw [Expr.finish, callWith]
      by_cases harity : vs.length = c.arity
      · rw [if_pos harity]
        cases c with
        | clock id =>
          refine Leads.of_ok rfl (Grows.of_store_eq rfl rfl rfl rfl)
            (hsound.of_store_eq rfl rfl) trivial
        | function id f closure =>
          rw [applyWith_function]
          have hbody : f.body = f.body ++ [] := (List.append_nil _).symm
          obtain ⟨origins, scopes, -, hlead⟩ :=
            function_leads hclosed hexecute hm hvalues harity hsound
              (hvs _ (by simp)) (fun v hv => hvs v (List.mem_cons_of_mem _ hv)) hbody
          exact hlead.returned
      · rw [if_neg harity]
        exact Leads.fail hsound

include hclosed hevaluate hexecute in
lemma evaluate_leads : EvaluateLeads lookup P M (k + 1) := by
  intro e made m origins scopes initializing hm hsound hat
  rw [evaluate]
  by_cases hlogical : ∃ left operator right, e = .logical left operator right
  · -- The right side is evaluated only if the left side does not settle the result.
    obtain ⟨left, operator, right, rfl⟩ := hlogical
    have hsplit : (Expr.logical left operator right).parts = [] ++ left :: [right] := rfl
    have hleft : Starts lookup k (.evaluate (.logical left operator right)) m (.evaluate left) m :=
      .part hsplit evaluateAll_nil rfl
    refine (hevaluate left made m origins scopes initializing (hclosed _ _ _ _ _ hm hleft) hsound
      ⟨hat.standing, fun w hw =>
        hat.sites w (Expr.sites_of_mem_parts (by simp [Expr.parts]) hw)⟩).bind
      fun v made' m' hv hgrows hsound' hvsound => ?_
    by_cases hsettles : settles operator.kind v
    · rw [if_pos hsettles]
      exact Leads.pure hsound' hvsound
    · rw [if_neg hsettles]
      have hsplit' : (Expr.logical left operator right).parts = [left] ++ right :: [] := rfl
      have hbefore : evaluateAll (evaluate lookup k) [left] m = .ok [v] m' := by
        rw [evaluateAll_cons, bind_eq_of_ok hv]
        rfl
      have hright : Starts lookup k (.evaluate (.logical left operator right)) m
          (.evaluate right) m' :=
        .part hsplit' hbefore (by simpa [Expr.goesOn] using hsettles)
      exact hevaluate right made' m' origins scopes initializing
        (hclosed _ _ _ _ _ hm hright) hsound'
        ⟨hat.standing.grow hgrows, fun w hw =>
          hat.sites w (Expr.sites_of_mem_parts (by simp [Expr.parts]) hw)⟩
  · have hne : ∀ left operator right, e ≠ .logical left operator right :=
      fun left operator right h => hlogical ⟨left, operator, right, h⟩
    rw [evaluateWith_eq hne]
    refine (parts_leads hclosed hevaluate (List.append_nil _).symm hm hsound hat
      fun _ _ _ vs _ _ => Expr.goesOn_of_ne hne vs).bind fun vs made' m' hvs _ hsound' hvsound => ?_
    exact finish_leads hclosed hexecute hm hvs hsound' hvsound

/-! ## Statements -/

/-- The first expression of a statement, its `head?`, stands in the scopes of the statement; an
initializer also has the name of its variable around it. -/
lemma StmtAt.head {s : Stmt} {e : Expr} (h : StmtAt P made m inFunction origins scopes s)
    (hs : s.head? = some e) :
    ∃ scopes' initializing, ExprAt P made m origins scopes' initializing e := by
  cases s with
  | expression e' | print e' =>
    obtain rfl := Option.some.inj hs
    exact ⟨scopes, none, h.standing, h.sites⟩
  | var name initializer =>
    obtain rfl : initializer = some e := hs
    exact ⟨_, some name, h.standing.declare name, h.sites⟩
  | ret keyword value =>
    obtain rfl : value = some e := hs
    exact ⟨scopes, none, h.standing, h.sites⟩
  | branch condition thenBranch elseBranch =>
    obtain rfl := Option.some.inj hs
    refine ⟨scopes, none, h.standing, fun w hw => h.sites w ?_⟩
    rw [Stmt.sites, List.append_assoc]
    exact List.mem_append_left _ hw
  | block body | loop condition body | function name parameters body =>
    exact absurd hs (by simp [Stmt.head?])

/-- A branch `t` stands where its statement stands, and declares nothing there. -/
lemma StmtAt.branch {s t : Stmt} {v : Value} {made' : Account} {m' : Machine}
    (h : StmtAt P made m inFunction origins scopes s) (hs : s.branch? v = some t)
    (hgrows : Grows noName made m made' m') :
    StmtAt P made' m' inFunction origins scopes t ∧ ∀ x, ¬ t.Declares x := by
  cases s with
  | branch condition thenBranch elseBranch =>
    have hshaped := h.shaped
    rw [Stmt.Shaped] at hshaped
    have hthen := Stmt.resolve_fst inFunction thenBranch scopes hshaped.2.1
    rw [Stmt.after, hshaped.1, Option.elim_none] at hthen
    -- A branch that is `Shaped` declares nothing, so it is in the scopes of the statement.
    suffices ht : t.declared? = none ∧ t.Shaped ∧ ∀ w ∈ t.sites inFunction origins scopes, P w by
      have hnone : ∀ x, ¬ t.Declares x := by
        rintro x ⟨name, hname, -⟩
        rw [ht.1] at hname
        exact absurd hname (by simp)
      exact ⟨⟨h.standing.grow hgrows, h.settled, ht.2.1, fun o _ x hx => (hnone x hx).elim, ht.2.2⟩,
        hnone⟩
    rw [Stmt.branch?] at hs
    split at hs
    · obtain rfl := Option.some.inj hs
      refine ⟨hshaped.1, hshaped.2.1, fun w hw => h.sites w ?_⟩
      rw [Stmt.sites]
      exact List.mem_append_left _ (List.mem_append_right _ hw)
    · subst hs
      rw [Stmt.OptionalShaped] at hshaped
      refine ⟨hshaped.2.2.1, hshaped.2.2.2, fun w hw => h.sites w ?_⟩
      rw [Stmt.sites, hthen, Stmt.optionalSites]
      exact List.mem_append_right _ hw
  | expression e | print e | var name initializer | block body | loop condition body
  | function name parameters body
  | ret keyword value => exact absurd hs (by simp [Stmt.branch?])

/-- The `condition` and the `body` of a loop stand where the loop stands, and the body declares
nothing there. -/
lemma StmtAt.loop {condition : Expr} {body : Stmt}
    (h : StmtAt P made m inFunction origins scopes (.loop condition body))
    {made' : Account} {m' : Machine} (hgrows : Grows noName made m made' m') :
    ExprAt P made' m' origins scopes none condition ∧
      StmtAt P made' m' inFunction origins scopes body ∧
      ∀ x, ¬ body.Declares x := by
  have hshaped := h.shaped
  rw [Stmt.Shaped] at hshaped
  have hnone : ∀ x, ¬ body.Declares x := by
    rintro x ⟨name, hname, -⟩
    rw [hshaped.1] at hname
    exact absurd hname (by simp)
  have hsites : ∀ w, w ∈ condition.sites origins scopes none ∨
      w ∈ body.sites inFunction origins scopes → P w := by
    intro w hw
    refine h.sites w ?_
    rw [Stmt.sites]
    exact List.mem_append.mpr hw
  have hstanding := h.standing.grow hgrows
  exact ⟨⟨hstanding, fun w hw => hsites w (.inl hw)⟩,
    ⟨hstanding, h.settled, hshaped.2, fun o _ x hx => (hnone x hx).elim,
      fun w hw => hsites w (.inr hw)⟩, hnone⟩

include hclosed hevaluate in
/-- The first expression of a statement, its `head?`, which may be absent. -/
lemma head_leads {s : Stmt} (hm : M (k + 1) (.execute s) m)
    (hsound : made.Sound P (OpenedAt lookup M) m)
    (hat : StmtAt P made m inFunction origins scopes s) :
    Leads P (OpenedAt lookup M) noName made m (evaluateOptional (evaluate lookup k) s.head? m)
      (SoundValue P) := by
  cases hs : s.head? with
  | none => exact Leads.pure hsound trivial
  | some e =>
    obtain ⟨scopes', initializing, he⟩ := hat.head hs
    exact hevaluate e made m origins scopes' initializing
      (hclosed _ _ _ _ _ hm (.head hs)) hsound he

include hclosed hevaluate hexecute in
/-- Whole rounds of a loop, as many as `Rounds` counts. -/
lemma rounds_leads {condition : Expr} {body : Stmt} {n : ℕ} {m' : Machine}
    (hrounds : Rounds lookup k condition body n m m') (hn : n ≤ k)
    (hm : M (k + 1) (.execute (.loop condition body)) m)
    (hsound : made.Sound P (OpenedAt lookup M) m)
    (hat : StmtAt P made m inFunction origins scopes (.loop condition body)) :
    ∃ made', Grows noName made m made' m' ∧ made'.Sound P (OpenedAt lookup M) m' := by
  induction hrounds with
  | none => exact ⟨made, Grows.refl _ _ _, hsound⟩
  | @more n m m₁ m₂ m₃ v hrounds hcondition hv hbody ih =>
    obtain ⟨made₁, hgrows₁, hsound₁⟩ := ih (Nat.le_of_succ_le hn) hm hsound hat
    obtain ⟨hconditionAt, -, -⟩ := hat.loop hgrows₁
    have hstart := Starts.condition hrounds hn
    obtain ⟨made₂, hgrows₂, hsound₂, -⟩ := (hevaluate condition made₁ m₁ origins scopes none
      (hclosed _ _ _ _ _ hm hstart) hsound₁ hconditionAt).ok_of_eq hcondition
    obtain ⟨-, hbodyAt, hnone⟩ := hat.loop (hgrows₁.trans hgrows₂)
    have hstart' := Starts.round hrounds hn hcondition hv
    obtain ⟨made₃, hgrows₃, hsound₃, -⟩ := (hexecute body made₂ m₂ inFunction origins scopes
      (hclosed _ _ _ _ _ hm hstart') hsound₂ hbodyAt).ok_of_eq hbody
    have hgrows₃' : Grows noName made₂ m₂ made₃ m₃ := hgrows₃.mono fun x hx => hnone x hx
    exact ⟨made₃, (hgrows₁.trans hgrows₂).trans hgrows₃', hsound₃⟩

/-- What opened the current frame is the innermost of the `origins`. -/
lemma Standing.mem_head? {C : FrameId → Origin → Prop} {o : Origin}
    (h : Standing made m origins scopes) (hsound : made.Sound P C m)
    (ho : made m.current = some o) : o ∈ origins.head? := by
  have hchain := h.chain
  generalize m.current = f at hchain ho
  cases hchain with
  | globals _ => exact absurd (hsound.globals_unmade.symm.trans ho) (by simp)
  | inner hmade _ _ _ _ _ =>
    rw [hmade] at ho
    simpa using ho

/-- A declaration of a `name` binds it in the current frame. -/
lemma define_leads {C : FrameId → Origin → Prop} {s : Stmt} {name : Token} {v : Value}
    (hs : s.declared? = some name) (hsound : made.Sound P C m)
    (hat : StmtAt P made m inFunction origins scopes s)
    (hv : ValueSound made (m.store.define m.current name.lexeme v) m.globals P v) :
    Leads P C s.Declares made m (define name.lexeme v m)
      (fun _ m' _ => ∀ x, s.Declares x → m'.store.Binds m'.current x) := by
  have hlt := hat.standing.chain.lt_size
  have hdeclares : s.Declares name.lexeme := ⟨name, hs, rfl⟩
  have hgrows :
      Grows s.Declares made m made { m with store := m.store.define m.current name.lexeme v } :=
    Grows.define hlt (Or.inr ⟨rfl, hdeclares⟩)
  refine Leads.of_ok rfl hgrows ?_ ?_
  · refine hsound.define hlt hgrows hv fun o ho => ?_
    exact hat.declares o (hat.standing.mem_head? hsound ho) _ hdeclares
  · rintro x ⟨name', hname', rfl⟩
    obtain rfl : name = name' := by simpa [hs] using hname'
    exact (Store.binds_define hlt).mpr (Or.inr ⟨rfl, rfl⟩)

/-- A function that has just been declared keeps the current frame as its closure, which stands for
the `scopes` around the function. -/
lemma declaration_leads {C : FrameId → Origin → Prop} {name : Token} {parameters : List Token}
    {body : List Stmt} {id : ObjectId} {v : Value}
    (hv : v = .callable (.function id ⟨name, parameters, body⟩ m.current))
    (hsound : made.Sound P C m)
    (hat : StmtAt P made m inFunction origins scopes (.function name parameters body)) :
    Leads P C (Stmt.function name parameters body).Declares made m (define name.lexeme v m)
      (fun _ m' _ => ∀ x, (Stmt.function name parameters body).Declares x →
        m'.store.Binds m'.current x) := by
  have hlt := hat.standing.chain.lt_size
  have hgrows : Grows (Stmt.function name parameters body).Declares made m made
      { m with store := m.store.define m.current name.lexeme v } :=
    Grows.define hlt (Or.inr ⟨rfl, name, rfl, rfl⟩)
  have hafter := hat.standing.after hgrows (by
    rintro x ⟨name', hname', rfl⟩
    obtain rfl : name = name' := by simpa [Stmt.declared?] using hname'
    exact (Store.binds_define hlt).mpr (Or.inr ⟨rfl, rfl⟩))
  have hshaped : Stmt.AllShaped body := by simpa only [Stmt.Shaped] using hat.shaped
  refine define_leads rfl hsound hat ?_
  have hfunction : ValueSound made (m.store.define m.current name.lexeme v) m.globals P
      (.callable (.function id ⟨name, parameters, body⟩ m.current)) :=
    ⟨origins, _, hafter.chain, Stmt.settled_after _ hat.settled, hshaped, hat.sites⟩
  rw [← hv] at hfunction
  exact hfunction

/-- Nothing is declared by a statement without a name in `declared?`. -/
lemma Stmt.not_declares {s : Stmt} (h : s.declared? = none) (x : String) : ¬ s.Declares x := by
  rintro ⟨name, hname, -⟩
  rw [h] at hname
  exact absurd hname (by simp)

include hclosed hexecute in
/-- How a statement finishes, by `Stmt.finish`, once its first expression has been evaluated. -/
lemma finishStmt_leads {s : Stmt} {v : Value} {made' : Account} {m' : Machine}
    (hm : M (k + 1) (.execute s) m) (hsound : made'.Sound P (OpenedAt lookup M) m')
    (hat : StmtAt P made m inFunction origins scopes s) (hgrows : Grows noName made m made' m')
    (hv : SoundValue P made' m' v)
    (hvalue : evaluateOptional (evaluate lookup k) s.head? m = .ok v m') :
    Leads P (OpenedAt lookup M) s.Declares made' m' (s.finish (execute lookup k) v m')
      (fun _ m' _ => ∀ x, s.Declares x → m'.store.Binds m'.current x) := by
  have hat' : StmtAt P made' m' inFunction origins scopes s :=
    { hat with standing := hat.standing.grow hgrows }
  cases s with
  | expression e => exact Leads.pure hsound fun x hx => (Stmt.not_declares rfl x hx).elim
  | print e =>
    rw [Stmt.finish, printLine]
    rcases hwrite : m'.sink.writeLine v.text with ⟨_ | fault, sink⟩
    · exact Leads.of_ok rfl (Grows.of_store_eq rfl rfl rfl rfl) (hsound.of_store_eq rfl rfl)
        fun x hx => (Stmt.not_declares rfl x hx).elim
    · refine Leads.of_stop rfl (Grows.of_store_eq rfl rfl rfl rfl) (hsound.of_store_eq rfl rfl) ?_
      rintro w ⟨⟩
  | var name initializer =>
    have hgrows' : Grows (Stmt.var name initializer).Declares made' m' made'
        { m' with store := m'.store.define m'.current name.lexeme v } :=
      Grows.define hat'.standing.chain.lt_size (Or.inr ⟨rfl, name, rfl, rfl⟩)
    have hv' := hv.grow hgrows'
    exact define_leads rfl hsound hat' hv'
  | block body | loop condition body =>
    exact Leads.pure hsound fun x hx => (Stmt.not_declares rfl x hx).elim
  | branch condition thenBranch elseBranch =>
    have hnot := Stmt.not_declares (s := .branch condition thenBranch elseBranch) rfl
    rw [Stmt.finish]
    cases ht : (Stmt.branch condition thenBranch elseBranch).branch? v with
    | none => exact Leads.pure hsound fun x hx => (hnot x hx).elim
    | some t =>
      obtain ⟨htAt, hnone⟩ := hat.branch ht hgrows
      have hstart : Starts lookup k (.execute (.branch condition thenBranch elseBranch)) m
          (.execute t) m' :=
        .branch rfl hvalue ht
      exact (hexecute t made' m' inFunction origins scopes (hclosed _ _ _ _ _ hm hstart)
        hsound htAt).mono (fun x hx => (hnone x hx).elim) fun _ _ _ _ x hx => (hnot x hx).elim
  | function name parameters body =>
    -- Taking a number for the new function changes no frame.
    have hfresh : Grows noName made' m' made' { m' with nextObject := m'.nextObject + 1 } :=
      Grows.of_store_eq rfl rfl rfl rfl
    have hsound' : made'.Sound P (OpenedAt lookup M) { m' with nextObject := m'.nextObject + 1 } :=
      hsound.of_store_eq rfl rfl
    have hat'' : StmtAt P made' { m' with nextObject := m'.nextObject + 1 } inFunction
        origins scopes (.function name parameters body) :=
      { hat' with standing := hat'.standing.grow hfresh }
    refine Result.Meets.mono (declaration_leads rfl hsound' hat'') ?_ ?_
    · rintro _ m'' ⟨made'', hgrows'', hrest⟩
      exact ⟨made'', (hfresh.mono fun _ h => h.elim).trans hgrows'', hrest⟩
    · rintro reason m'' ⟨made'', hgrows'', hrest⟩
      exact ⟨made'', (hfresh.mono fun _ h => h.elim).trans hgrows'', hrest⟩
  | ret keyword value =>
    refine Leads.of_stop rfl (Grows.refl _ _ _) hsound ?_
    rintro w ⟨⟩
    exact hv

include hclosed hevaluate hexecute in
/-- A loop, from the end of a round on, with the `remaining` rounds that its steps allow. -/
lemma repeatWhile_leads {condition : Expr} {body : Stmt}
    (hm : M (k + 1) (.execute (.loop condition body)) m)
    (hat : StmtAt P made m inFunction origins scopes (.loop condition body)) (remaining : ℕ) :
    ∀ (n : ℕ) (made' : Account) (m' : Machine), n + remaining = k →
      Rounds lookup k condition body n m m' →
      Grows noName made m made' m' → made'.Sound P (OpenedAt lookup M) m' →
      Leads P (OpenedAt lookup M) noName made' m'
        (repeatWhile (evaluate lookup k condition) (execute lookup k body) remaining m')
        (fun _ _ _ => True) := by
  induction remaining with
  | zero => exact fun _ _ _ _ _ _ _ => trivial
  | succ remaining ih =>
    intro n made' m' hn hrounds hgrows hsound
    have hlt : n < k := by omega
    obtain ⟨hconditionAt, -, -⟩ := hat.loop hgrows
    rw [repeatWhile_succ]
    refine (hevaluate condition made' m' origins scopes none
      (hclosed _ _ _ _ _ hm (.condition hrounds hlt)) hsound hconditionAt).bind
      fun v made₁ m₁ hv hgrows₁ hsound₁ _ => ?_
    by_cases htruthy : v.truthy
    · -- One more round: the induction goes on with `n + 1` rounds behind it and one less to come.
      obtain ⟨-, hbodyAt, hnone⟩ := hat.loop (hgrows.trans hgrows₁)
      rw [if_pos htruthy]
      refine (hexecute body made₁ m₁ inFunction origins scopes
        (hclosed _ _ _ _ _ hm (.round hrounds hlt hv htruthy)) hsound₁ hbodyAt).bind_of_le hnone
          fun _ made₂ m₂ hb hgrows₂ hsound₂ _ => ?_
      have hround := (hgrows.trans hgrows₁).trans (hgrows₂.mono hnone)
      exact ih (n + 1) made₂ m₂ (by omega) (.more hrounds hv htruthy hb) hround hsound₂
    · rw [if_neg htruthy]
      exact Leads.pure hsound₁ trivial

include hclosed hexecute in
/-- The first statements of a block, `front`, in its new frame. -/
lemma block_leads {body front back : List Stmt} (hm : M (k + 1) (.execute (.block body)) m)
    (hsound : made.Sound P (OpenedAt lookup M) m)
    (hat : StmtAt P made m inFunction origins scopes (.block body))
    (hbody : body = front ++ back) :
    Leads P (OpenedAt lookup M) (fun x => ∃ s ∈ front, s.Declares x)
      (made.enter m.store.size (.block body)) (m.enter m.current [])
      (executeAll (execute lookup k) front (m.enter m.current []))
      (fun made' m' _ => Standing made' m' (.block body :: origins)
        (Stmt.resolveAll inFunction front ([] :: scopes)).1) := by
  have hopened : OpenedAt lookup M m.store.size (.block body) := ⟨k, _, m, hm, .block⟩
  have hsound' : (made.enter m.store.size (.block body)).Sound P (OpenedAt lookup M)
      (m.enter m.current []) :=
    hsound.enter hopened (by simp) (by simp)
  refine executeAll_leads front hsound' (hat.enter_block.front hbody) ?_
  intro before s after scopes' made' m' hfront hbefore hsound'' hat'
  have hsplit : body = before ++ s :: (after ++ back) := by rw [hbody, hfront]; simp
  have hstart : Starts lookup k (.execute (.block body)) m (.execute s) m' := by
    rw [hsplit]
    exact .block hbefore
  exact hexecute s made' m' inFunction _ scopes' (hclosed _ _ _ _ _ hm hstart) hsound'' hat'

include hclosed hevaluate hexecute in
lemma execute_leads : ExecuteLeads lookup P M (k + 1) := by
  intro s made m inFunction origins scopes hm hsound hat
  rw [execute]
  by_cases hblock : ∃ body, s = .block body
  · obtain ⟨body, rfl⟩ := hblock
    rw [executeWith_block]
    have hlead := block_leads hclosed hexecute hm hsound hat (List.append_nil body).symm
    exact hlead.leave.mono (fun _ hx => hx.elim) fun _ _ _ _ x hx =>
      (Stmt.not_declares rfl x hx).elim
  · by_cases hloop : ∃ condition body, s = .loop condition body
    · obtain ⟨condition, body, rfl⟩ := hloop
      have hlead := repeatWhile_leads hclosed hevaluate hexecute hm hat k 0 made m
        (Nat.zero_add k) .none (Grows.refl _ _ _) hsound
      exact hlead.mono (fun _ hx => hx.elim) fun _ _ _ _ x hx => (Stmt.not_declares rfl x hx).elim
    · rw [executeWith_eq k (fun body h => hblock ⟨body, h⟩) fun condition body h =>
        hloop ⟨condition, body, h⟩]
      refine (head_leads hclosed hevaluate hm hsound hat).bind_of_le (fun _ hx => hx.elim)
        fun v made' m' hv hgrows hsound' hvsound => ?_
      exact finishStmt_leads hclosed hexecute hm hsound' hat hgrows hvsound hv

end

/-! ## Whole runs -/

/-- The machine `m'` of a later moment has the same depth table and the same global frame. -/
def SameTables (m m' : Machine) : Prop := m'.depths = m.depths ∧ m'.globals = m.globals

lemma Grows.sameTables {new : String → Prop} {made made' : Account} {m m' : Machine}
    (h : Grows new made m made' m') :
    SameTables m m' := ⟨h.depths, h.globals⟩

lemma SameTables.trans {m m₁ m₂ : Machine} (h : SameTables m m₁) (h' : SameTables m₁ m₂) :
    SameTables m m₂ :=
  ⟨h'.1.trans h.1, h'.2.trans h.2⟩

section

variable {lookup : Lookup} {P : Site → Prop} {M : ℕ → Task → Machine → Prop}
  (hclosed : StartClosed lookup M)

include hclosed

/-- With any number `k` of steps, tasks lead where they should. -/
theorem tasks_lead (k : ℕ) : EvaluateLeads lookup P M k ∧ ExecuteLeads lookup P M k := by
  induction k with
  | zero =>
    constructor
    · exact fun _ _ _ _ _ _ _ _ _ => trivial
    · exact fun _ _ _ _ _ _ _ _ _ => trivial
  | succ k ih => exact ⟨evaluate_leads hclosed ih.1 ih.2, execute_leads hclosed ih.1 ih.2⟩

/-- A task that is started stands at its place if the task that starts it does: `TaskAt` is kept. -/
theorem Starts.taskAt {k : ℕ} {t t' : Task} {m m' : Machine} {made : Account}
    (h : Starts lookup k t m t' m') (hm : M (k + 1) t m)
    (hsound : made.Sound P (OpenedAt lookup M) m) (hat : TaskAt P made m t) :
    ∃ made', made'.Sound P (OpenedAt lookup M) m' ∧ TaskAt P made' m' t' ∧ SameTables m m' := by
  obtain ⟨hevaluate, hexecute⟩ := tasks_lead (P := P) hclosed k
  cases h with
  | part hparts hbefore hgoes =>
    obtain ⟨origins, scopes, initializing, hat⟩ := hat
    have hlead := parts_leads hclosed hevaluate hparts hm hsound hat
      fun before q middle vs hfront hvs => Expr.goesOn_of_parts (hfront ▸ hparts) hvs
    obtain ⟨made', hgrows, hsound', -⟩ := hlead.ok_of_eq hbefore
    refine ⟨made', hsound', ⟨origins, scopes, initializing, hat.standing.grow hgrows, ?_⟩,
      hgrows.sameTables⟩
    exact fun w hw => hat.sites w (Expr.sites_of_mem_parts (by rw [hparts]; simp) hw)
  | @body callee paren arguments id f closure vs before after s _ m₁ _ hvalues hlength
      hbody hbefore =>
    obtain ⟨origins, scopes, initializing, hat⟩ := hat
    -- First come the callee and the arguments, then the new frame, then the statements before `s`.
    have hparts : (Expr.call callee paren arguments).parts = (callee :: arguments) ++ [] :=
      (List.append_nil _).symm
    have hlead := parts_leads hclosed hevaluate hparts hm hsound hat fun _ _ _ vs _ _ => rfl
    obtain ⟨made₁, hgrows₁, hsound₁, hvs⟩ := hlead.ok_of_eq hvalues
    obtain ⟨origins', scopes', hat', hlead'⟩ :=
      function_leads hclosed hexecute hm hvalues hlength hsound₁
        (hvs _ (by simp)) (fun v hv => hvs v (List.mem_cons_of_mem _ hv)) hbody
    obtain ⟨made', hgrows, hsound', hstanding⟩ := hlead'.ok_of_eq hbefore
    exact ⟨made', hsound', ⟨true, _, _, hat'.next hbody hstanding⟩,
      hgrows₁.sameTables.trans ⟨hgrows.depths, hgrows.globals⟩⟩
  | head hs =>
    obtain ⟨inFunction, origins, scopes, hat⟩ := hat
    obtain ⟨scopes', initializing, he⟩ := hat.head hs
    exact ⟨made, hsound, ⟨origins, scopes', initializing, he⟩, rfl, rfl⟩
  | branch hs hv ht =>
    obtain ⟨inFunction, origins, scopes, hat⟩ := hat
    obtain ⟨scopes', initializing, he⟩ := hat.head hs
    have hlead :=
      hevaluate _ made m origins scopes' initializing (hclosed _ _ _ _ _ hm (.head hs)) hsound he
    obtain ⟨made', hgrows, hsound', -⟩ := hlead.ok_of_eq hv
    exact ⟨made', hsound', ⟨inFunction, origins, scopes, (hat.branch ht hgrows).1⟩,
      hgrows.sameTables⟩
  | block hbefore =>
    obtain ⟨inFunction, origins, scopes, hat⟩ := hat
    have hlead := block_leads hclosed hexecute hm hsound hat rfl
    obtain ⟨made', hgrows, hsound', hstanding⟩ := hlead.ok_of_eq hbefore
    exact ⟨made', hsound', ⟨inFunction, _, _, hat.enter_block.next rfl hstanding⟩, hgrows.depths,
      hgrows.globals⟩
  | condition hrounds hn =>
    obtain ⟨inFunction, origins, scopes, hat⟩ := hat
    obtain ⟨made', hgrows, hsound'⟩ :=
      rounds_leads hclosed hevaluate hexecute hrounds hn.le hm hsound hat
    exact ⟨made', hsound', ⟨origins, scopes, none, (hat.loop hgrows).1⟩, hgrows.sameTables⟩
  | round hrounds hn hv htruthy =>
    obtain ⟨inFunction, origins, scopes, hat⟩ := hat
    obtain ⟨made₁, hgrows₁, hsound₁⟩ :=
      rounds_leads hclosed hevaluate hexecute hrounds hn.le hm hsound hat
    have hlead := hevaluate _ made₁ _ origins scopes none
      (hclosed _ _ _ _ _ hm (.condition hrounds hn)) hsound₁ (hat.loop hgrows₁).1
    obtain ⟨made', hgrows, hsound', -⟩ := hlead.ok_of_eq hv
    have hgrows' := hgrows₁.trans hgrows
    exact ⟨made', hsound', ⟨inFunction, origins, scopes, (hat.loop hgrows').2.1⟩,
      hgrows'.sameTables⟩

/-- Every moment that a task reaches stands at its place, as the task does (`hat`). -/
theorem Reaches.taskAt {steps k : ℕ} {t t' : Task} {m m' : Machine} {made : Account}
    (h : Reaches lookup steps t m k t' m') (hm : M steps t m)
    (hsound : made.Sound P (OpenedAt lookup M) m) (hat : TaskAt P made m t) :
    M k t' m' ∧ ∃ made', made'.Sound P (OpenedAt lookup M) m' ∧ TaskAt P made' m' t' ∧
      SameTables m m' := by
  induction h with
  | self => exact ⟨hm, made, hsound, hat, rfl, rfl⟩
  | next _ hstart ih =>
    obtain ⟨hm₁, made₁, hsound₁, hat₁, hsame₁⟩ := ih
    obtain ⟨made', hsound', hat', hsame⟩ := hstart.taskAt hclosed hm₁ hsound₁ hat₁
    exact ⟨hclosed _ _ _ _ _ hm₁ hstart, made', hsound', hat', hsame₁.trans hsame⟩

/-- Statements in a row lead where they should, up to the end of `front`. -/
theorem statements_lead {steps : ℕ} {statements front back : List Stmt} {m : Machine}
    {made : Account} {inFunction : Bool} {origins : List Origin} {scopes : Scopes}
    (hstatements : statements = front ++ back)
    (hm : ∀ k t m', ReachesIn lookup steps statements m k t m' → M k t m')
    (hsound : made.Sound P (OpenedAt lookup M) m)
    (hat : StmtsAt P made m inFunction origins scopes statements) :
    Leads P (OpenedAt lookup M) (fun x => ∃ s ∈ front, s.Declares x) made m
      (executeAll (execute lookup steps) front m)
      (fun made' m' _ =>
        Standing made' m' origins (Stmt.resolveAll inFunction front scopes).1) := by
  refine executeAll_leads front hsound (hat.front hstatements) ?_
  intro before s after scopes' made' m' hfront hbefore hsound' hat'
  have hsplit : statements = before ++ s :: (after ++ back) := by rw [hstatements, hfront]; simp
  have hmoment : M steps (.execute s) m' := hm _ _ _ ⟨before, s, _, m', hsplit, hbefore, .self⟩
  exact (tasks_lead hclosed steps).2 s made' m' inFunction origins scopes' hmoment hsound' hat'

/-- Every moment of statements in a row stands at its place: `TaskAt` holds of it. -/
theorem ReachesIn.taskAt {steps k : ℕ} {statements : List Stmt} {t : Task} {m m' : Machine}
    {made : Account} {inFunction : Bool} {origins : List Origin} {scopes : Scopes}
    (h : ReachesIn lookup steps statements m k t m')
    (hm : ∀ k t m', ReachesIn lookup steps statements m k t m' → M k t m')
    (hsound : made.Sound P (OpenedAt lookup M) m)
    (hat : StmtsAt P made m inFunction origins scopes statements) :
    ∃ made', made'.Sound P (OpenedAt lookup M) m' ∧ TaskAt P made' m' t ∧ SameTables m m' := by
  obtain ⟨before, s, after, m₁, hsplit, hbefore, hreach⟩ := h
  obtain ⟨made₁, hgrows, hsound₁, hstanding⟩ :=
    (statements_lead hclosed hsplit hm hsound hat).ok_of_eq hbefore
  have hmoment : M steps (.execute s) m₁ := hm _ _ _ ⟨before, s, after, m₁, hsplit, hbefore, .self⟩
  obtain ⟨-, made', hsound', hat', hsame⟩ :=
    hreach.taskAt hclosed hmoment hsound₁ ⟨inFunction, origins, _, hat.next hsplit hstanding⟩
  exact ⟨made', hsound', hat', hgrows.sameTables.trans hsame⟩

end

end LoxLang
