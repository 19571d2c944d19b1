import LoxLang.Grammar.Program
import LoxLang.Proofs.Tree.WellFormed

/-!
# The grammar

The grammar of the language as rules, stated apart from any reader:

    program     = declaration*
    declaration = "fun" NAME "(" parameters? ")" block | variable | statement
    variable    = "var" NAME ( "=" expression )? ";"
    statement   = simple | "if" … | "while" … | "for" … | block
    simple      = expression ";" | "print" expression ";" | "return" expression? ";"
    block       = "{" declaration* "}"
    expression  = NAME "=" expression | disjunction
    disjunction = conjunction ( "or" conjunction )*
    …
    factor      = unary ( ( "/" | "*" ) unary )*
    unary       = ( "!" | "-" ) unary | call
    call        = primary ( "(" arguments? ")" )*
    primary     = NUMBER | STRING | "true" | "false" | "nil" | NAME | "(" expression ")"

A derivation relates a rule and a token list to the tree they stand for.  A function has at most 255
parameters and a call at most 255 arguments.  Node ids are free: a derivation holds for any choice
of them.

The rules leave open which `if` an `else` belongs to.  `ElseRule.nearest` settles it.

The operators of each level, the trees they make, the constants and the loop of a `for` are the
rules' own.  The last section says that the tables the reader goes by (`Level.has`, `Level.node`,
`isUnaryOperator`, `constantOf`, `forLoop`) agree with them.
-/

namespace LoxLang.Grammar

/-! ## Expressions -/

/-- The rules of the expression grammar; those of the binary operators are one for each `Level`. -/
inductive ExprRule where
  | expression
  | level (l : Level)
  | unary
  | call
  | primary
  deriving Repr, DecidableEq

/-- The rule of the operands of a binary level: the next tighter level, and `unary` in the end. -/
def Level.operand : Level → ExprRule
  | disjunction => .level conjunction
  | conjunction => .level equality
  | equality => .level comparison
  | comparison => .level term
  | term => .level factor
  | factor => .unary

/-- The operators of a binary level. -/
def Level.operators : Level → List Kind
  | disjunction => [.orWord]
  | conjunction => [.andWord]
  | equality => [.bangEqual, .equalEqual]
  | comparison => [.greater, .greaterEqual, .less, .lessEqual]
  | term => [.minus, .plus]
  | factor => [.slash, .star]

/-- The tree of two operands and the operator between them; the `logicalOperators` have trees of
their own. -/
def operatorTree (left : Expr) (operator : Token) (right : Expr) : Expr :=
  if operator.kind ∈ logicalOperators then .logical left operator right
  else .binary left operator right

/-- The constant that a number or string token stands for, given the literal it carries. -/
inductive Stands : Option Literal → Constant → Prop where
  | number (x : Float) : Stands (some (.number x)) (.number x)
  | string (s : String) : Stands (some (.string s)) (.string s)
  /-- A token that carries no literal stands for nil. -/
  | missing : Stands none .nil

/-- Token lists set apart by commas; there may be none at all. -/
inductive Listed : List (List Token) → List Token → Prop where
  | none : Listed [] []
  | one (ts : List Token) : Listed [ts] ts
  | more {ts us vs : List Token} {rest : List (List Token)} {comma : Token} :
      comma.kind = .comma → Listed (vs :: rest) us → Listed (ts :: vs :: rest) (ts ++ comma :: us)

/-- The token lists of an `ExprRule`, with their trees. -/
inductive DerivesExpr : ExprRule → List Token → Expr → Prop where
  | assignment {name equal : Token} {ts : List Token} {value : Expr} (id : NodeId) :
      name.kind = .identifier → equal.kind = .equal → DerivesExpr .expression ts value →
      DerivesExpr .expression (name :: equal :: ts) (.assign id name value)
  | loosest {ts : List Token} {e : Expr} :
      DerivesExpr (.level .disjunction) ts e → DerivesExpr .expression ts e
  | operand {l : Level} {ts : List Token} {e : Expr} :
      DerivesExpr l.operand ts e → DerivesExpr (.level l) ts e
  | operator {l : Level} {ts us : List Token} {operator : Token} {left right : Expr} :
      DerivesExpr (.level l) ts left → operator.kind ∈ l.operators →
      DerivesExpr l.operand us right →
      DerivesExpr (.level l) (ts ++ operator :: us) (operatorTree left operator right)
  | sign {operator : Token} {ts : List Token} {right : Expr} :
      operator.kind ∈ unaryOperators → DerivesExpr .unary ts right →
      DerivesExpr .unary (operator :: ts) (.unary operator right)
  | unsigned {ts : List Token} {e : Expr} : DerivesExpr .call ts e → DerivesExpr .unary ts e
  | callee {ts : List Token} {e : Expr} : DerivesExpr .primary ts e → DerivesExpr .call ts e
  | arguments {ts us : List Token} {opening closing : Token} {callee : Expr}
      (parts : List (List Token × Expr)) :
      DerivesExpr .call ts callee → opening.kind = .leftParen →
      (∀ p ∈ parts, DerivesExpr .expression p.1 p.2) → parts.length ≤ 255 →
      Listed (parts.map Prod.fst) us → closing.kind = .rightParen →
      DerivesExpr .call (ts ++ opening :: (us ++ [closing]))
        (.call callee closing (parts.map Prod.snd))
  | falsity {t : Token} : t.kind = .falseWord → DerivesExpr .primary [t] (.literal (.bool false))
  | truth {t : Token} : t.kind = .trueWord → DerivesExpr .primary [t] (.literal (.bool true))
  | nil {t : Token} : t.kind = .nilWord → DerivesExpr .primary [t] (.literal .nil)
  | constant {t : Token} {value : Constant} :
      t.kind = .number ∨ t.kind = .string → Stands t.literal value →
      DerivesExpr .primary [t] (.literal value)
  | named {t : Token} (id : NodeId) : t.kind = .identifier → DerivesExpr .primary [t] (.read id t)
  | grouping {opening closing : Token} {ts : List Token} {e : Expr} :
      opening.kind = .leftParen → DerivesExpr .expression ts e → closing.kind = .rightParen →
      DerivesExpr .primary (opening :: (ts ++ [closing])) (.grouping e)

/-! ## Statements -/

/-- An `item` that may be absent. -/
inductive Perhaps {α : Type} (item : List Token → α → Prop) : List Token → Option α → Prop where
  | absent : Perhaps item [] none
  | present {ts : List Token} {x : α} : item ts x → Perhaps item ts (some x)

inductive DerivesVariable : List Token → Stmt → Prop where
  | bare {word name semicolon : Token} :
      word.kind = .varWord → name.kind = .identifier → semicolon.kind = .semicolon →
      DerivesVariable [word, name, semicolon] (.var name none)
  | initialized {word name equal semicolon : Token} {ts : List Token} {e : Expr} :
      word.kind = .varWord → name.kind = .identifier → equal.kind = .equal →
      DerivesExpr .expression ts e → semicolon.kind = .semicolon →
      DerivesVariable (word :: name :: equal :: (ts ++ [semicolon])) (.var name (some e))

inductive DerivesExpressionStmt : List Token → Stmt → Prop where
  | mk {semicolon : Token} {ts : List Token} {e : Expr} :
      DerivesExpr .expression ts e → semicolon.kind = .semicolon →
      DerivesExpressionStmt (ts ++ [semicolon]) (.expression e)

/-- What stands first in the parentheses of a `for`. -/
inductive DerivesInitializer : List Token → Option Stmt → Prop where
  | bare {semicolon : Token} : semicolon.kind = .semicolon → DerivesInitializer [semicolon] none
  | declared {ts : List Token} {s : Stmt} : DerivesVariable ts s → DerivesInitializer ts (some s)
  | expression {ts : List Token} {s : Stmt} :
      DerivesExpressionStmt ts s → DerivesInitializer ts (some s)

/-- A round of a `for` loop: its `body`, with the increment behind it. -/
def roundOf (body : Stmt) : Option Expr → Stmt
  | none => body
  | some increment => .block [body, .expression increment]

/-- The loop that a `for` stands for.  It goes on for ever without a `condition`, and an initializer
`first` stands in front of it in a block of their own. -/
def loopOf (first : Option Stmt) (condition increment : Option Expr) (body : Stmt) : Stmt :=
  let loop := Stmt.loop (condition.getD (.literal (.bool true))) (roundOf body increment)
  match first with
  | none => loop
  | some s => .block [s, loop]

/-- Which `if` an `else` may belong to. -/
inductive ElseRule where
  | any
  /-- The nearest one before it that has no `else` yet. -/
  | nearest
  deriving Repr, DecidableEq

inductive StmtRule where
  | declaration
  | statement
  deriving Repr, DecidableEq

/-- The token lists of a `StmtRule`, with their trees.  The flag `dangling` tells whether the text
ends in an `if` without `else`; an `else` behind such a text would be nearest to that `if`. -/
inductive DerivesStmt (elses : ElseRule) : StmtRule → List Token → Stmt → Bool → Prop where
  | statement {ts : List Token} {s : Stmt} {dangling : Bool} :
      DerivesStmt elses .statement ts s dangling → DerivesStmt elses .declaration ts s dangling
  | declared {ts : List Token} {s : Stmt} :
      DerivesVariable ts s → DerivesStmt elses .declaration ts s false
  | function {word name opening closing left right : Token} {us : List Token}
      (parameters : List Token) (parts : List (List Token × Stmt × Bool)) :
      word.kind = .funWord → name.kind = .identifier → opening.kind = .leftParen →
      (∀ p ∈ parameters, p.kind = .identifier) → parameters.length ≤ 255 →
      Listed (parameters.map fun p => [p]) us → closing.kind = .rightParen →
      left.kind = .leftBrace →
      (∀ p ∈ parts, DerivesStmt elses .declaration p.1 p.2.1 p.2.2) → right.kind = .rightBrace →
      DerivesStmt elses .declaration
        (word :: name :: opening :: (us ++ closing :: left :: (parts.flatMap Prod.fst ++ [right])))
        (.function name parameters (parts.map fun p => p.2.1)) false
  | expression {ts : List Token} {s : Stmt} :
      DerivesExpressionStmt ts s → DerivesStmt elses .statement ts s false
  | print {word semicolon : Token} {ts : List Token} {e : Expr} :
      word.kind = .printWord → DerivesExpr .expression ts e → semicolon.kind = .semicolon →
      DerivesStmt elses .statement (word :: (ts ++ [semicolon])) (.print e) false
  | ret {word semicolon : Token} {ts : List Token} {value : Option Expr} :
      word.kind = .returnWord → Perhaps (DerivesExpr .expression) ts value →
      semicolon.kind = .semicolon →
      DerivesStmt elses .statement (word :: (ts ++ [semicolon])) (.ret word value) false
  | block {left right : Token} (parts : List (List Token × Stmt × Bool)) :
      left.kind = .leftBrace → (∀ p ∈ parts, DerivesStmt elses .declaration p.1 p.2.1 p.2.2) →
      right.kind = .rightBrace →
      DerivesStmt elses .statement (left :: (parts.flatMap Prod.fst ++ [right]))
        (.block (parts.map fun p => p.2.1)) false
  | ifOnly {word opening closing : Token} {cs ts : List Token} {condition : Expr}
      {thenBranch : Stmt} {dangling : Bool} :
      word.kind = .ifWord → opening.kind = .leftParen → DerivesExpr .expression cs condition →
      closing.kind = .rightParen → DerivesStmt elses .statement ts thenBranch dangling →
      DerivesStmt elses .statement (word :: opening :: (cs ++ closing :: ts))
        (.branch condition thenBranch none) true
  | ifElse {word opening closing otherwise : Token} {cs ts us : List Token} {condition : Expr}
      {thenBranch elseBranch : Stmt} {inThen dangling : Bool} :
      word.kind = .ifWord → opening.kind = .leftParen → DerivesExpr .expression cs condition →
      closing.kind = .rightParen → DerivesStmt elses .statement ts thenBranch inThen →
      (elses = .nearest → inThen = false) → otherwise.kind = .elseWord →
      DerivesStmt elses .statement us elseBranch dangling →
      DerivesStmt elses .statement (word :: opening :: (cs ++ closing :: (ts ++ otherwise :: us)))
        (.branch condition thenBranch (some elseBranch)) dangling
  | loop {word opening closing : Token} {cs ts : List Token} {condition : Expr} {body : Stmt}
      {dangling : Bool} :
      word.kind = .whileWord → opening.kind = .leftParen → DerivesExpr .expression cs condition →
      closing.kind = .rightParen → DerivesStmt elses .statement ts body dangling →
      DerivesStmt elses .statement (word :: opening :: (cs ++ closing :: ts))
        (.loop condition body) dangling
  | forLoop {word opening semicolon closing : Token} {fs cs us ts : List Token}
      {first : Option Stmt} {condition increment : Option Expr} {body : Stmt} {dangling : Bool} :
      word.kind = .forWord → opening.kind = .leftParen → DerivesInitializer fs first →
      Perhaps (DerivesExpr .expression) cs condition → semicolon.kind = .semicolon →
      Perhaps (DerivesExpr .expression) us increment → closing.kind = .rightParen →
      DerivesStmt elses .statement ts body dangling →
      DerivesStmt elses .statement
        (word :: opening :: (fs ++ (cs ++ semicolon :: (us ++ closing :: ts))))
        (loopOf first condition increment body) dangling

/-- The token lists of programs, with their trees: declarations one behind the other. -/
def DerivesProgram (elses : ElseRule) (tokens : List Token) (statements : List Stmt) : Prop :=
  ∃ parts : List (List Token × Stmt × Bool),
    (∀ p ∈ parts, DerivesStmt elses .declaration p.1 p.2.1 p.2.2) ∧
      parts.flatMap Prod.fst = tokens ∧ (parts.map fun p => p.2.1) = statements

/-- What is read as a program: the tokens before the first end of input. -/
abbrev textOf (tokens : List Token) : List Token := tokens.takeWhile (·.kind ≠ .eof)

/-! ## The tables of the reader -/

lemma Level.has_iff {l : Level} {k : Kind} : l.has k = true ↔ k ∈ l.operators := by
  cases l <;> cases k <;> decide

/-- Among the operators of one level, `Level.node` and `operatorTree` make the same trees. -/
lemma Level.node_eq {l : Level} {operator : Token} (h : operator.kind ∈ l.operators)
    (left right : Expr) : l.node left operator right = operatorTree left operator right := by
  have hlogical : operator.kind ∈ logicalOperators ↔ l = .disjunction ∨ l = .conjunction := by
    revert h
    cases l <;> cases operator.kind <;> decide
  unfold operatorTree
  simp only [hlogical]
  cases l <;> rfl

lemma isUnaryOperator_iff {k : Kind} : isUnaryOperator k = true ↔ k ∈ unaryOperators := by
  cases k <;> decide

lemma stands_iff {t : Token} {value : Constant} :
    Stands t.literal value ↔ value = constantOf t := by
  unfold constantOf
  generalize t.literal = literal
  constructor
  · intro h
    cases h <;> rfl
  · rintro rfl
    split <;> constructor

lemma forLoop_eq (first : Option Stmt) (condition increment : Option Expr) (body : Stmt) :
    forLoop first condition increment body = loopOf first condition increment body := by
  cases first <;> cases increment <;> rfl

end LoxLang.Grammar
