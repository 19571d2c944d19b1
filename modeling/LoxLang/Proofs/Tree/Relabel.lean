import Mathlib.Tactic
import LoxLang.Tree.Basic

/-!
# Trees with other ids and tokens

`relabel` replaces the node ids and the tokens of a tree and leaves its shape as it is.  Two trees
are the same up to node ids if they become equal when every id is replaced by zero.
-/

namespace LoxLang

mutual

def Expr.relabel (ids : NodeId → NodeId) (tokens : Token → Token) : Expr → Expr
  | .literal value => .literal value
  | .grouping inner => .grouping (inner.relabel ids tokens)
  | .unary operator right => .unary (tokens operator) (right.relabel ids tokens)
  | .binary left operator right =>
    .binary (left.relabel ids tokens) (tokens operator) (right.relabel ids tokens)
  | .logical left operator right =>
    .logical (left.relabel ids tokens) (tokens operator) (right.relabel ids tokens)
  | .read id name => .read (ids id) (tokens name)
  | .assign id name value => .assign (ids id) (tokens name) (value.relabel ids tokens)
  | .call callee paren arguments =>
    .call (callee.relabel ids tokens) (tokens paren) (Expr.relabelAll ids tokens arguments)

def Expr.relabelAll (ids : NodeId → NodeId) (tokens : Token → Token) : List Expr → List Expr
  | [] => []
  | e :: rest => e.relabel ids tokens :: Expr.relabelAll ids tokens rest

end

mutual

def Stmt.relabel (ids : NodeId → NodeId) (tokens : Token → Token) : Stmt → Stmt
  | .expression e => .expression (e.relabel ids tokens)
  | .print e => .print (e.relabel ids tokens)
  | .var name initializer => .var (tokens name) (initializer.map (Expr.relabel ids tokens))
  | .block body => .block (Stmt.relabelAll ids tokens body)
  | .branch condition thenBranch elseBranch =>
    .branch (condition.relabel ids tokens) (thenBranch.relabel ids tokens)
      (Stmt.relabelOptional ids tokens elseBranch)
  | .loop condition body => .loop (condition.relabel ids tokens) (body.relabel ids tokens)
  | .function name parameters body =>
    .function (tokens name) (parameters.map tokens) (Stmt.relabelAll ids tokens body)
  | .ret keyword value => .ret (tokens keyword) (value.map (Expr.relabel ids tokens))

def Stmt.relabelAll (ids : NodeId → NodeId) (tokens : Token → Token) : List Stmt → List Stmt
  | [] => []
  | s :: rest => s.relabel ids tokens :: Stmt.relabelAll ids tokens rest

def Stmt.relabelOptional (ids : NodeId → NodeId) (tokens : Token → Token) :
    Option Stmt → Option Stmt
  | none => none
  | some s => some (s.relabel ids tokens)

end

/-- An expression without the ids of its nodes: `relabel` makes them all zero. -/
def Expr.anonymous (e : Expr) : Expr := e.relabel (fun _ => 0) id

/-- A statement without the ids of its nodes. -/
def Stmt.anonymous (s : Stmt) : Stmt := s.relabel (fun _ => 0) id

variable {ids : NodeId → NodeId} {tokens : Token → Token}

lemma Expr.relabelAll_eq_map (es : List Expr) :
    Expr.relabelAll ids tokens es = es.map (Expr.relabel ids tokens) := by
  induction es with
  | nil => rfl
  | cons e rest ih => rw [Expr.relabelAll, ih, List.map_cons]

lemma Stmt.relabelAll_eq_map (ss : List Stmt) :
    Stmt.relabelAll ids tokens ss = ss.map (Stmt.relabel ids tokens) := by
  induction ss with
  | nil => rfl
  | cons s rest ih => rw [Stmt.relabelAll, ih, List.map_cons]

/-! ## The same ids and tokens -/

mutual

lemma Expr.relabel_id (e : Expr) : e.relabel id id = e := by
  cases e with
  | literal | read => rfl
  | grouping inner => rw [Expr.relabel, Expr.relabel_id inner]
  | unary operator right => rw [Expr.relabel, Expr.relabel_id right, id]
  | binary left operator right | logical left operator right =>
    rw [Expr.relabel, Expr.relabel_id left, Expr.relabel_id right, id]
  | assign id' name value => rw [Expr.relabel, Expr.relabel_id value, id, id]
  | call callee paren arguments =>
    rw [Expr.relabel, Expr.relabel_id callee, Expr.relabelAll_id arguments, id]

lemma Expr.relabelAll_id (es : List Expr) : Expr.relabelAll id id es = es := by
  cases es with
  | nil => rfl
  | cons e rest => rw [Expr.relabelAll, Expr.relabel_id e, Expr.relabelAll_id rest]

end

lemma Expr.map_relabel_id (e : Option Expr) : e.map (Expr.relabel id id) = e := by
  cases e with
  | none => rfl
  | some e => rw [Option.map_some, e.relabel_id]

mutual

lemma Stmt.relabel_id (s : Stmt) : s.relabel id id = s := by
  cases s with
  | expression e | print e => rw [Stmt.relabel, e.relabel_id]
  | var name e | ret name e => rw [Stmt.relabel, Expr.map_relabel_id e, id]
  | block body => rw [Stmt.relabel, Stmt.relabelAll_id body]
  | branch condition thenBranch elseBranch =>
    rw [Stmt.relabel, condition.relabel_id, Stmt.relabel_id thenBranch,
      Stmt.relabelOptional_id elseBranch]
  | loop condition body => rw [Stmt.relabel, condition.relabel_id, Stmt.relabel_id body]
  | function name parameters body => rw [Stmt.relabel, Stmt.relabelAll_id body, List.map_id, id]

lemma Stmt.relabelAll_id (ss : List Stmt) : Stmt.relabelAll id id ss = ss := by
  cases ss with
  | nil => rfl
  | cons s rest => rw [Stmt.relabelAll, Stmt.relabel_id s, Stmt.relabelAll_id rest]

lemma Stmt.relabelOptional_id (s : Option Stmt) : Stmt.relabelOptional id id s = s := by
  cases s with
  | none => rfl
  | some s => rw [Stmt.relabelOptional, Stmt.relabel_id s]

end

end LoxLang
