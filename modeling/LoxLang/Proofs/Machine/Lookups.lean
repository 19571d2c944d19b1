import LoxLang.Proofs.Machine.Moments

/-!
# Two ways to find variables

A variable is found at the depth that is recorded for it, or by search.  Where both ways find the
same variable at every moment that looks one up, they cannot be told apart: all runs come to the
same.
-/

namespace LoxLang

open LoxLang.Action

section

variable {eval eval' : Expr → Action Value} {exec exec' : Stmt → Action Unit}

/-- Expressions `es` in a row come to the same if each of them does on the machine it is started
on. -/
lemma evaluateAll_congr (es : List Expr) (m : Machine)
    (h : ∀ before e after vs m', es = before ++ e :: after → evaluateAll eval before m = .ok vs m' →
      eval e m' = eval' e m') :
    evaluateAll eval es m = evaluateAll eval' es m := by
  induction es generalizing m with
  | nil => rfl
  | cons e es ih =>
    rw [evaluateAll_cons, evaluateAll_cons]
    refine bind_congr (h [] e es [] m rfl rfl) fun v m₁ hv => ?_
    refine bind_congr ?_ fun _ _ _ => rfl
    apply ih
    intro before e' after vs m' hsplit hbefore
    refine h (e :: before) e' after (v :: vs) m' (by rw [hsplit]; rfl) ?_
    rw [evaluateAll_cons, bind_eq_of_ok hv, bind_eq_of_ok hbefore]
    rfl

/-- Statements `ss` in a row come to the same if each of them does on the machine it is started
on. -/
lemma executeAll_congr (ss : List Stmt) (m : Machine)
    (h : ∀ before s after m', ss = before ++ s :: after → executeAll exec before m = .ok () m' →
      exec s m' = exec' s m') :
    executeAll exec ss m = executeAll exec' ss m := by
  induction ss generalizing m with
  | nil => rfl
  | cons s ss ih =>
    rw [executeAll_cons, executeAll_cons]
    refine bind_congr (h [] s ss m rfl rfl) fun _ m₁ hs => ?_
    apply ih
    intro before s' after m' hsplit hbefore
    refine h (s :: before) s' after m' (by rw [hsplit]; rfl) ?_
    rw [executeAll_cons, bind_eq_of_ok hs]
    exact hbefore

end

/-- Two ways to find variables agree wherever one is looked up, at the moments `M`. -/
structure FindAlike (lookup lookup' : Lookup) (M : ℕ → Task → Machine → Prop) : Prop where
  read : ∀ k id name m, M (k + 1) (.evaluate (.read id name)) m →
    m.read? lookup id name.lexeme = m.read? lookup' id name.lexeme
  assign : ∀ k id name value m v m', M (k + 1) (.evaluate (.assign id name value)) m →
    evaluate lookup k value m = .ok v m' →
      m'.holder? lookup id name.lexeme = m'.holder? lookup' id name.lexeme

section

variable {lookup lookup' : Lookup} {M : ℕ → Task → Machine → Prop} {k : ℕ} {m : Machine}
  (hclosed : StartClosed lookup M) (halike : FindAlike lookup lookup' M)
  (hevaluate : ∀ e m, M k (.evaluate e) m → evaluate lookup k e m = evaluate lookup' k e m)
  (hexecute : ∀ s m, M k (.execute s) m → execute lookup k s m = execute lookup' k s m)

include hclosed hexecute in
lemma callWith_alike {callee : Expr} {paren : Token} {arguments : List Expr} {v : Value}
    {vs : List Value} {m' : Machine} (hm : M (k + 1) (.evaluate (.call callee paren arguments)) m)
    (hparts : evaluateAll (evaluate lookup k) (callee :: arguments) m = .ok (v :: vs) m') :
    callWith (execute lookup k) paren v vs m' = callWith (execute lookup' k) paren v vs m' := by
  cases v with
  | nil | bool b | number x | string s => rfl
  | callable c =>
    rw [callWith, callWith]
    split
    · rename_i hlength
      cases c with
      | clock id => rfl
      | function id f closure =>
        rw [applyWith_function, applyWith_function]
        refine congrArg _ (executeAll_congr f.body _ fun before s after m'' hbody hbefore => ?_)
        exact hexecute s m'' (hclosed _ _ _ _ _ hm (.body hparts hlength hbody hbefore))
    · rfl

include hclosed halike hexecute in
lemma finish_alike {e : Expr} {vs : List Value} {m' : Machine} (hm : M (k + 1) (.evaluate e) m)
    (hparts : evaluateAll (evaluate lookup k) e.parts m = .ok vs m') :
    e.finish lookup (execute lookup k) vs m' = e.finish lookup' (execute lookup' k) vs m' := by
  have hlength := length_of_evaluateAll hparts
  cases e with
  | literal value | grouping inner | logical left operator right => rfl
  | unary operator right =>
    obtain ⟨v, rfl⟩ := List.length_eq_one_iff.mp hlength
    rfl
  | binary left operator right =>
    obtain ⟨v, v', rfl⟩ := List.length_eq_two.mp hlength
    rfl
  | read id name =>
    obtain ⟨rfl, rfl⟩ : [] = vs ∧ m = m' := by simpa [Expr.parts] using hparts
    rw [Expr.finish, Expr.finish, readVariable, readVariable, halike.read k id name m hm]
  | assign id name value =>
    obtain ⟨v, rfl⟩ := List.length_eq_one_iff.mp hlength
    have hvalue : evaluate lookup k value m = .ok v m' := by
      rw [Expr.parts, evaluateAll_cons] at hparts
      obtain ⟨u, m₁, hu, hparts⟩ := bind_eq_ok hparts
      obtain ⟨rfl, rfl⟩ : u = v ∧ m₁ = m' := by
        simpa [bind, Action.bind, pure, Action.pure] using hparts
      exact hu
    -- The variable is looked up after the value has been evaluated.
    have hholder := halike.assign k id name value m v m' hm hvalue
    refine bind_congr ?_ fun _ _ _ => rfl
    rw [assignVariable, assignVariable, hholder]
  | call callee paren arguments =>
    obtain ⟨v, vs, rfl⟩ := List.exists_cons_of_length_eq_add_one hlength
    exact callWith_alike hclosed hexecute hm hparts

include hclosed halike hevaluate hexecute in
lemma evaluate_alike {e : Expr} (hm : M (k + 1) (.evaluate e) m) :
    evaluate lookup (k + 1) e m = evaluate lookup' (k + 1) e m := by
  rw [evaluate, evaluate]
  -- Only `and` and `or` may leave a part out; all other expressions evaluate their parts in a row.
  by_cases hlogical : ∃ left operator right, e = .logical left operator right
  · obtain ⟨left, operator, right, rfl⟩ := hlogical
    have hleft : (Expr.logical left operator right).parts = [] ++ left :: [right] := rfl
    have hright : (Expr.logical left operator right).parts = [left] ++ right :: [] := rfl
    refine bind_congr (hevaluate left m (hclosed _ _ _ _ _ hm (.part hleft evaluateAll_nil rfl)))
      fun v m₁ hv => ?_
    by_cases hsettles : settles operator.kind v
    · simp only [hsettles, if_true]
    · simp only [hsettles]
      have hone : evaluateAll (evaluate lookup k) [left] m = .ok [v] m₁ := by
        rw [evaluateAll_cons, bind_eq_of_ok hv]
        rfl
      exact hevaluate right m₁
        (hclosed _ _ _ _ _ hm (.part hright hone (by simp [Expr.goesOn, hsettles])))
  · have hne : ∀ left operator right, e ≠ .logical left operator right :=
      fun left operator right he => hlogical ⟨left, operator, right, he⟩
    have hgoesOn : ∀ vs, e.goesOn vs = true := by
      intro vs
      cases e with
      | logical left operator right => exact absurd rfl (hne left operator right)
      | literal _ | grouping _ | unary _ _ | binary _ _ _ | read _ _ | assign _ _ _ | call _ _ _ =>
        rfl
    rw [evaluateWith_eq hne, evaluateWith_eq hne]
    refine bind_congr (evaluateAll_congr e.parts m ?_) fun vs m' hparts => ?_
    · intro before p after vs m' hsplit hbefore
      exact hevaluate p m' (hclosed _ _ _ _ _ hm (.part hsplit hbefore (hgoesOn vs)))
    · exact finish_alike hclosed halike hexecute hm hparts

include hclosed hevaluate hexecute in
/-- The rounds of a loop that are `left` after some. -/
lemma repeatWhile_alike {condition : Expr} {body : Stmt}
    (hm : M (k + 1) (.execute (.loop condition body)) m) (left n : ℕ) (m' : Machine)
    (hleft : n + left = k) (hrounds : Rounds lookup k condition body n m m') :
    repeatWhile (evaluate lookup k condition) (execute lookup k body) left m' =
      repeatWhile (evaluate lookup' k condition) (execute lookup' k body) left m' := by
  induction left generalizing n m' with
  | zero => rfl
  | succ left ih =>
    have hlt : n < k := by omega
    rw [repeatWhile_succ, repeatWhile_succ]
    refine bind_congr (hevaluate condition m' (hclosed _ _ _ _ _ hm (.condition hrounds hlt)))
      fun v m₁ hv => ?_
    by_cases htruthy : v.truthy
    · rw [if_pos htruthy, if_pos htruthy]
      refine bind_congr (hexecute body m₁ (hclosed _ _ _ _ _ hm (.round hrounds hlt hv htruthy)))
        fun _ m₂ hbody => ?_
      exact ih (n + 1) m₂ (by omega) (.more hrounds hv htruthy hbody)
    · rw [if_neg htruthy, if_neg htruthy]

include hclosed hevaluate hexecute in
lemma execute_alike {s : Stmt} (hm : M (k + 1) (.execute s) m) :
    execute lookup (k + 1) s m = execute lookup' (k + 1) s m := by
  rw [execute, execute]
  -- Blocks and loops run statements more than once or in a frame of their own; of the others one
  -- expression is evaluated and then at most one statement run.
  by_cases hblock : ∃ body, s = .block body
  · obtain ⟨body, rfl⟩ := hblock
    rw [executeWith_block, executeWith_block]
    refine congrArg _ (executeAll_congr body _ fun before s after m' hbody hbefore => ?_)
    subst hbody
    exact hexecute s m' (hclosed _ _ _ _ _ hm (.block hbefore))
  by_cases hloop : ∃ condition body, s = .loop condition body
  · obtain ⟨condition, body, rfl⟩ := hloop
    exact repeatWhile_alike hclosed hevaluate hexecute hm k 0 m (Nat.zero_add k) .none
  have hnoBlock : ∀ body, s ≠ .block body := fun body hs => hblock ⟨body, hs⟩
  have hnoLoop : ∀ condition body, s ≠ .loop condition body :=
    fun condition body hs => hloop ⟨condition, body, hs⟩
  rw [executeWith_eq k hnoBlock hnoLoop, executeWith_eq k hnoBlock hnoLoop]
  refine bind_congr ?_ fun v m' hv => ?_
  · cases hhead : s.head? with
    | none => rfl
    | some e => exact hevaluate e m (hclosed _ _ _ _ _ hm (.head hhead))
  · cases s with
    | branch condition thenBranch elseBranch =>
      rw [Stmt.finish, Stmt.finish]
      cases hbranch : (Stmt.branch condition thenBranch elseBranch).branch? v with
      | none => rfl
      | some t => exact hexecute t m' (hclosed _ _ _ _ _ hm (.branch rfl hv hbranch))
    | expression _ | print _ | var _ _ | block _ | loop _ _ | function _ _ _ | ret _ _ => rfl

end

/-- If two ways to find variables agree at all moments of runs (`FindAlike`), `evaluate` and
`execute` come to the same with both. -/
theorem runs_alike {lookup lookup' : Lookup} {M : ℕ → Task → Machine → Prop}
    (hclosed : StartClosed lookup M) (halike : FindAlike lookup lookup' M) (k : ℕ) :
    (∀ e m, M k (.evaluate e) m → evaluate lookup k e m = evaluate lookup' k e m) ∧
      (∀ s m, M k (.execute s) m → execute lookup k s m = execute lookup' k s m) := by
  induction k with
  | zero => exact ⟨fun _ _ _ => by rw [evaluate, evaluate], fun _ _ _ => by rw [execute, execute]⟩
  | succ k ih =>
    obtain ⟨hevaluate, hexecute⟩ := ih
    exact ⟨fun _ _ hm => evaluate_alike hclosed halike hevaluate hexecute hm,
      fun _ _ hm => execute_alike hclosed hevaluate hexecute hm⟩

end LoxLang
