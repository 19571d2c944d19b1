import LoxLang.Proofs.Machine.Parts

/-!
# The moments of a run

A moment of a run is a task, an expression to evaluate or a statement to execute, together with the
machine on which it is started and the steps it has left.  `Starts` says which tasks a task starts
itself, and `Reaches` follows the starts through a whole run.
-/

namespace LoxLang

/-- What a run does at a moment. -/
inductive Task where
  | evaluate (e : Expr)
  | execute (s : Stmt)

/-- Whole rounds of a loop, from one machine to another. -/
inductive Rounds (lookup : Lookup) (steps : ℕ) (condition : Expr) (body : Stmt) :
    ℕ → Machine → Machine → Prop where
  | none {m : Machine} : Rounds lookup steps condition body 0 m m
  | more {n : ℕ} {m m₁ m₂ m₃ : Machine} {v : Value} :
      Rounds lookup steps condition body n m m₁ → evaluate lookup steps condition m₁ = .ok v m₂ →
      v.truthy = true → execute lookup steps body m₂ = .ok () m₃ →
      Rounds lookup steps condition body (n + 1) m m₃

/-- The tasks that a task with `steps + 1` steps starts itself, and the machines it starts them
on. -/
inductive Starts (lookup : Lookup) (steps : ℕ) : Task → Machine → Task → Machine → Prop where
  | part {e p : Expr} {before after : List Expr} {vs : List Value} {m m' : Machine} :
      e.parts = before ++ p :: after → evaluateAll (evaluate lookup steps) before m = .ok vs m' →
      e.goesOn vs = true → Starts lookup steps (.evaluate e) m (.evaluate p) m'
  /-- A statement of the body of a function that is called. -/
  | body {callee : Expr} {paren : Token} {arguments : List Expr} {id : ObjectId} {f : Function}
      {closure : FrameId} {vs : List Value} {before after : List Stmt} {s : Stmt}
          {m m' m'' : Machine} :
      evaluateAll (evaluate lookup steps) (callee :: arguments) m =
        .ok (.callable (.function id f closure) :: vs) m' →
      vs.length = f.arity → f.body = before ++ s :: after →
      executeAll (execute lookup steps) before
        (m'.enter closure ((f.parameters.map Token.lexeme).zip vs)) =
        .ok () m'' →
      Starts lookup steps (.evaluate (.call callee paren arguments)) m (.execute s) m''
  | head {s : Stmt} {e : Expr} {m : Machine} :
      s.head? = some e → Starts lookup steps (.execute s) m (.evaluate e) m
  | branch {s t : Stmt} {condition : Expr} {v : Value} {m m' : Machine} :
      s.head? = some condition → evaluate lookup steps condition m = .ok v m' →
      s.branch? v = some t →
      Starts lookup steps (.execute s) m (.execute t) m'
  | block {before after : List Stmt} {s : Stmt} {m m' : Machine} :
      executeAll (execute lookup steps) before (m.enter m.current []) = .ok () m' →
      Starts lookup steps (.execute (.block (before ++ s :: after))) m (.execute s) m'
  | condition {condition : Expr} {body : Stmt} {n : ℕ} {m m' : Machine} :
      Rounds lookup steps condition body n m m' → n < steps →
      Starts lookup steps (.execute (.loop condition body)) m (.evaluate condition) m'
  | round {condition : Expr} {body : Stmt} {n : ℕ} {v : Value} {m m' m'' : Machine} :
      Rounds lookup steps condition body n m m' → n < steps →
      evaluate lookup steps condition m' = .ok v m'' →
      v.truthy = true → Starts lookup steps (.execute (.loop condition body)) m (.execute body) m''

/-- Moments `M` with all that they start (`Starts`). -/
def StartClosed (lookup : Lookup) (M : ℕ → Task → Machine → Prop) : Prop :=
  ∀ k t m t' m', M (k + 1) t m → Starts lookup k t m t' m' → M k t' m'

/-- The moments of a run that begins with the task `t`, each with the steps it has left. -/
inductive Reaches (lookup : Lookup) (steps : ℕ) (t : Task) (m : Machine) :
    ℕ → Task → Machine → Prop where
  | self : Reaches lookup steps t m steps t m
  | next {k : ℕ} {t₁ t₂ : Task} {m₁ m₂ : Machine} :
      Reaches lookup steps t m (k + 1) t₁ m₁ → Starts lookup k t₁ m₁ t₂ m₂ →
      Reaches lookup steps t m k t₂ m₂

/-- The moments of a run of `statements` in a row. -/
def ReachesIn (lookup : Lookup) (steps : ℕ) (statements : List Stmt) (m : Machine)
    (k : ℕ) (t : Task) (m' : Machine) : Prop :=
  ∃ before s after m₁, statements = before ++ s :: after ∧
    executeAll (execute lookup steps) before m = .ok () m₁ ∧
    Reaches lookup steps (.execute s) m₁ k t m'

end LoxLang
