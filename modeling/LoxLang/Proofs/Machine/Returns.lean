import LoxLang.Proofs.Machine.Parts
import LoxLang.Proofs.Scope.Sites

/-!
# Where a `return` ends

A `return` ends at the call that it belongs to.  So no expression ends with one, and neither does a
statement whose `return`s all stand inside functions, as they do in every program that is accepted.
-/

namespace LoxLang

open LoxLang.Action

/-! ## Statements without a `return` of their own -/

mutual

/-- Whether every `return` of a statement stands inside a function that it declares. -/
def Stmt.ReturnFree : Stmt → Prop
  | .expression _ | .print _ | .var _ _ | .function _ _ _ => True
  | .block body => Stmt.AllReturnFree body
  | .branch _ thenBranch elseBranch => thenBranch.ReturnFree ∧ Stmt.OptionalReturnFree elseBranch
  | .loop _ body => body.ReturnFree
  | .ret _ _ => False

def Stmt.AllReturnFree : List Stmt → Prop
  | [] => True
  | s :: rest => s.ReturnFree ∧ Stmt.AllReturnFree rest

def Stmt.OptionalReturnFree : Option Stmt → Prop
  | none => True
  | some s => s.ReturnFree

end

mutual

/-- The resolver finds a fault at every `return` outside of functions, so a `Faultless` statement is
`ReturnFree`. -/
lemma Stmt.returnFree_of_faultless (s : Stmt) (scopes : Scopes)
    (h : Faultless (s.resolve false scopes).2) : s.ReturnFree := by
  cases s with
  | expression | print | var | function => trivial
  | block body => exact Stmt.allReturnFree_of_faultless body _ h
  | branch condition thenBranch elseBranch =>
    simp only [Stmt.resolve, faultless_append] at h
    exact ⟨Stmt.returnFree_of_faultless thenBranch scopes h.1.2,
      Stmt.optionalReturnFree_of_faultless elseBranch _ h.2⟩
  | loop condition body =>
    simp only [Stmt.resolve, faultless_append] at h
    exact Stmt.returnFree_of_faultless body scopes h.2
  | ret keyword value =>
    simp only [Stmt.resolve, faultless_append] at h
    exact absurd (h.1 _ (List.mem_singleton.mpr rfl)) (by simp [Finding.fault?])
termination_by structural s

lemma Stmt.allReturnFree_of_faultless (ss : List Stmt) (scopes : Scopes)
    (h : Faultless (Stmt.resolveAll false ss scopes).2) : Stmt.AllReturnFree ss := by
  cases ss with
  | nil => trivial
  | cons s rest =>
    simp only [Stmt.resolveAll, faultless_append] at h
    exact ⟨Stmt.returnFree_of_faultless s scopes h.1, Stmt.allReturnFree_of_faultless rest _ h.2⟩
termination_by structural ss

lemma Stmt.optionalReturnFree_of_faultless (s : Option Stmt) (scopes : Scopes)
    (h : Faultless (Stmt.resolveOptional false s scopes).2) : Stmt.OptionalReturnFree s := by
  cases s with
  | none => trivial
  | some s => exact Stmt.returnFree_of_faultless s scopes h
termination_by structural s

end

/-! ## Results without a `return` on its way -/

/-- A result that is no `return` on its way to the call it ends. -/
abbrev Result.Contained {α : Type} (r : Result α) : Prop :=
  r.Meets (fun _ _ => True) fun reason _ => ∀ value, reason ≠ .returned value

lemma Stop.error_ne_returned (e : RuntimeError) (value : Value) :
    Stop.error e ≠ .returned value := by
  simp

lemma Stop.sink_ne_returned (fault : SinkFault) (value : Value) :
    Stop.sink fault ≠ .returned value := by
  simp

section

variable {eval : Expr → Action Value} {exec : Stmt → Action Unit} {m : Machine}

lemma check_contained (token : Token) (r : Except RuntimeFault Value) :
    (check token r m).Contained := by
  cases r with
  | ok v => trivial
  | error fault => exact Stop.error_ne_returned _

lemma readVariable_contained (lookup : Lookup) (id : NodeId) (name : Token) :
    (readVariable lookup id name m).Contained := by
  unfold readVariable
  cases m.read? lookup id name.lexeme with
  | none => exact Stop.error_ne_returned _
  | some v => trivial

lemma assignVariable_contained (lookup : Lookup) (id : NodeId) (name : Token) (v : Value) :
    (assignVariable lookup id name v m).Contained := by
  unfold assignVariable
  cases m.holder? lookup id name.lexeme with
  | none => exact Stop.error_ne_returned _
  | some f => trivial

lemma printLine_contained (text : String) : (printLine text m).Contained := by
  unfold printLine
  rcases m.sink.writeLine text with ⟨fault, sink⟩
  cases fault with
  | none => trivial
  | some fault => exact Stop.sink_ne_returned fault

/-- A call ends every `return` of the body. -/
lemma Result.contained_returned (outer : FrameId) (r : Result Unit) :
    (r.returned outer).Contained := by
  cases r with
  | ok v m => trivial
  | stop reason m =>
    cases reason with
    | returned v => trivial
    | error e => exact Stop.error_ne_returned e
    | sink fault => exact Stop.sink_ne_returned fault
  | exhausted => trivial

lemma Result.Contained.leave {r : Result Unit} (h : r.Contained) (outer : FrameId) :
    (r.leave outer).Contained := by
  cases r with
  | ok | exhausted => trivial
  | stop reason m => exact h

lemma callWith_contained (paren : Token) (callee : Value) (arguments : List Value) :
    (callWith exec paren callee arguments m).Contained := by
  unfold callWith
  cases callee with
  | callable c =>
    dsimp only
    split
    · cases c with
      | clock id => trivial
      | function id f closure =>
        rw [applyWith_function]
        exact Result.contained_returned _ _
    · exact Stop.error_ne_returned _
  | nil | bool | number | string => exact Stop.error_ne_returned _

lemma evaluateAll_contained (heval : ∀ e m, (eval e m).Contained) (es : List Expr) (m : Machine) :
    (evaluateAll eval es m).Contained := by
  induction es generalizing m with
  | nil => trivial
  | cons e es ih =>
    rw [evaluateAll_cons]
    exact (heval e m).bind fun v m₁ _ _ => (ih m₁).bind fun vs m₂ _ _ => trivial

lemma executeAll_contained (hexec : ∀ s m, s.ReturnFree → (exec s m).Contained) (ss : List Stmt)
    (hss : Stmt.AllReturnFree ss) (m : Machine) : (executeAll exec ss m).Contained := by
  induction ss generalizing m with
  | nil => trivial
  | cons s ss ih =>
    rw [executeAll_cons]
    exact (hexec s m hss.1).bind fun _ m₁ _ _ => ih hss.2 m₁

lemma finish_contained (lookup : Lookup) (e : Expr) (vs : List Value) (m : Machine) :
    (e.finish lookup exec vs m).Contained := by
  unfold Expr.finish
  split
  · trivial
  · exact readVariable_contained _ _ _
  · exact check_contained _ _
  · exact check_contained _ _
  · exact (assignVariable_contained _ _ _ _).bind fun _ _ _ _ => trivial
  · exact callWith_contained _ _ _
  · trivial

lemma evaluateWith_contained (lookup : Lookup) (heval : ∀ e m, (eval e m).Contained) (e : Expr)
    (m : Machine) : (evaluateWith lookup eval exec e m).Contained := by
  by_cases hlogical : ∃ left operator right, e = .logical left operator right
  · obtain ⟨left, operator, right, rfl⟩ := hlogical
    refine (heval left m).bind fun v m₁ _ _ => ?_
    split
    · trivial
    · exact heval right m₁
  · rw [evaluateWith_eq fun left operator right he => hlogical ⟨left, operator, right, he⟩]
    exact (evaluateAll_contained heval e.parts m).bind fun vs m₁ _ _ =>
      finish_contained lookup e vs m₁

lemma repeatWhile_contained {condition : Action Value} {body : Action Unit}
    (hcondition : ∀ m, (condition m).Contained) (hbody : ∀ m, (body m).Contained) (steps : ℕ)
    (m : Machine) : (repeatWhile condition body steps m).Contained := by
  induction steps generalizing m with
  | zero => trivial
  | succ steps ih =>
    rw [repeatWhile_succ]
    refine (hcondition m).bind fun v m₁ _ _ => ?_
    split
    · exact (hbody m₁).bind fun _ m₂ _ _ => ih m₂
    · trivial

lemma executeWith_contained (heval : ∀ e m, (eval e m).Contained)
    (hexec : ∀ s m, s.ReturnFree → (exec s m).Contained) (steps : ℕ) (s : Stmt) (hs : s.ReturnFree)
    (m : Machine) : (executeWith eval exec steps s m).Contained := by
  have hoptional : ∀ e : Option Expr, (evaluateOptional eval e m).Contained := by
    intro e
    cases e with
    | none => trivial
    | some e => exact heval e m
  cases s with
  | expression e => exact (heval e m).bind fun _ _ _ _ => trivial
  | print e => exact (heval e m).bind fun v m₁ _ _ => printLine_contained _
  | var name initializer => exact (hoptional initializer).bind fun _ _ _ _ => trivial
  | block body =>
    rw [executeWith_block]
    exact (executeAll_contained hexec body hs _).leave _
  | branch condition thenBranch elseBranch =>
    refine (heval condition m).bind fun v m₁ _ _ => ?_
    split
    · exact hexec thenBranch m₁ hs.1
    · cases elseBranch with
      | none => trivial
      | some s => exact hexec s m₁ hs.2
  | loop condition body =>
    exact repeatWhile_contained (heval condition) (fun m => hexec body m hs) steps m
  -- Declaring a function does not run its body, whatever stands in that.
  | function name parameters body => trivial
  | ret keyword value => exact hs.elim

end

/-- An expression never ends with a `return`, and neither does a statement that is `ReturnFree`. -/
theorem returns_contained (lookup : Lookup) (k : ℕ) :
    (∀ e m, (evaluate lookup k e m).Contained) ∧
      ∀ s m, s.ReturnFree → (execute lookup k s m).Contained := by
  induction k with
  | zero =>
    refine ⟨fun e m => ?_, fun s m _ => ?_⟩
    · rw [evaluate]
      trivial
    · rw [execute]
      trivial
  | succ k ih =>
    obtain ⟨heval, hexec⟩ := ih
    refine ⟨fun e m => ?_, fun s m hs => ?_⟩
    · rw [evaluate]
      exact evaluateWith_contained lookup heval e m
    · rw [execute]
      exact executeWith_contained heval hexec k s hs m

end LoxLang
