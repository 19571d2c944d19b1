import LoxLang.Proofs.Grammar.Parallel
import LoxLang.Proofs.Grammar.Replaced
import LoxLang.Proofs.Grammar.Shapes
import LoxLang.Proofs.Grammar.Totality
import LoxLang.Proofs.Machine.Parts
import LoxLang.Proofs.Tree.Printing
import LoxLang.Session

/-!
# What is read and printed

The trees that are read from sources are made of scanned tokens, each of a kind that fits its place,
whatever errors the source has.  So any two statements in them that are printed alike are the same
but for node ids and lines, and so are any two expressions, as long as there are no strings and no
infinities in them.
-/

namespace LoxLang

/-! ## The trees of sources -/

/-- The expressions that stand in a statement itself. -/
def Stmt.expressions : Stmt → List Expr
  | .expression e | .print e => [e]
  | .var _ value | .ret _ value => value.toList
  | .branch condition _ _ | .loop condition _ => [condition]
  | .block _ | .function _ _ _ => []

/-- The statements that a statement is made of. -/
def Stmt.parts : Stmt → List Stmt
  | .block body | .function _ _ body => body
  | .branch _ thenBranch elseBranch => thenBranch :: elseBranch.toList
  | .loop _ body => [body]
  | .expression _ | .print _ | .var _ _ | .ret _ _ => []

/-- A statement that is `read` from a source, or stands in one that is. -/
inductive Stmt.FromSource : Stmt → Prop where
  | read {source : String} {nextId : NodeId} {s : Stmt} :
      s ∈ (Program.read source nextId).statements → FromSource s
  | part {s t : Stmt} : FromSource s → t ∈ s.parts → FromSource t

/-- An expression that is `read` from a source, or stands in a statement or in an expression that
is. -/
inductive Expr.FromSource : Expr → Prop where
  | read {source : String} {nextId : NodeId} {e : Expr} :
      (Grammar.parseExpression (Source.tokens source) nextId).result = .ok e → FromSource e
  | within {s : Stmt} {e : Expr} : s.FromSource → e ∈ s.expressions → FromSource e
  | part {e p : Expr} : FromSource e → p ∈ e.parts → FromSource p

/-! ## What they are made of -/

section

variable {K : Constant → Prop} {T : Token → Prop}

lemma Expr.Spelled.parts {e p : Expr} (h : e.Spelled K T) (hp : p ∈ e.parts) : p.Spelled K T := by
  cases h with
  | literal | read => exact absurd hp List.not_mem_nil
  | grouping h | unary _ _ h | assign _ _ h =>
    obtain rfl := List.mem_singleton.mp hp
    exact h
  | binary _ _ hleft hright | logical _ _ hleft hright =>
    rcases List.mem_pair.mp hp with rfl | rfl
    · exact hleft
    · exact hright
  | call hcallee _ _ harguments =>
    rcases List.mem_cons.mp hp with rfl | hp
    · exact hcallee
    · exact harguments p hp

lemma Stmt.Spelled.expressions {s : Stmt} {e : Expr} (h : s.Spelled K T) (he : e ∈ s.expressions) :
    e.Spelled K T := by
  cases h with
  | expression h | print h | branch h _ _ | loop h _ =>
    obtain rfl := List.mem_singleton.mp he
    exact h
  | var _ _ hvalue | ret _ _ hvalue => exact hvalue e (Option.mem_toList.mp he)
  | block | function => exact absurd he List.not_mem_nil

lemma Stmt.Spelled.parts {s t : Stmt} (h : s.Spelled K T) (ht : t ∈ s.parts) : t.Spelled K T := by
  cases h with
  | expression | print | var | ret => exact absurd ht List.not_mem_nil
  | block hbody | function _ _ _ hbody => exact hbody t ht
  | branch _ hthen helse =>
    rcases List.mem_cons.mp ht with rfl | ht
    · exact hthen
    · exact helse t (Option.mem_toList.mp ht)
  | loop _ hbody =>
    obtain rfl := List.mem_singleton.mp ht
    exact hbody

end

/-- Trees that are read are `Spelled`: their tokens have kinds that fit their places. -/
lemma Grammar.spelled_composedFreely :
    ComposedFreely (Expr.Spelled (fun _ => True) fun _ => True)
      (Stmt.Spelled (fun _ => True) fun _ => True) where
  literal _ := .literal trivial
  grouping := .grouping
  unary := .unary trivial
  binary := .binary trivial
  logical := .logical trivial
  read _ _ hkind := .read trivial hkind
  assign _ _ _ _ hread hvalue := by
    cases hread with
    | read _ hkind => exact .assign trivial hkind hvalue
  expression := .expression
  print := .print
  var := .var trivial
  block := .block
  branch hcondition _ hthen _ helse := .branch hcondition hthen helse
  loop hcondition _ hbody := .loop hcondition hbody
  ret := .ret trivial
  call hkind hcallee harguments := .call hcallee trivial hkind harguments
  function hkind hparameters hbody :=
    .function trivial hkind (fun p hp => ⟨trivial, hparameters p hp⟩) hbody

/-- A reading side by side with itself, of tokens that are `Scanned`. -/
def scanning (nextId : NodeId) : Grammar.Parallel where
  tokens := Token.Keeps Token.Scanned
  kind_eq h := congrArg Token.kind h.1
  literal_eq h := congrArg Token.literal h.1
  first := nextId
  first' := nextId

lemma keeps_scanned_of_mem {source : String} {t : Token} (ht : t ∈ Source.tokens source) :
    t.Keeps Token.Scanned t := by
  refine ⟨rfl, fun hkind => ?_⟩
  rw [Source.tokens_eq_concat, List.mem_append, List.mem_singleton] at ht
  rcases ht with ht | rfl
  · exact Source.scanned_of_mem ht
  · exact absurd rfl hkind

/-- Whatever errors a `source` has, the statements that are kept are made of scanned tokens. -/
lemma Program.spelled_read (source : String) (nextId : NodeId) :
    ∀ s ∈ (Program.read source nextId).statements, s.Spelled (fun _ => True) Token.Scanned := by
  intro s hs
  have htokens : List.Forall₂ (Token.Keeps Token.Scanned) (Source.tokens source)
      (Source.tokens source) :=
    List.forall₂_same.mpr fun t ht => keeps_scanned_of_mem ht
  have hlast : (Grammar.Cursor.start (Source.tokens source) nextId).last.Keeps Token.Scanned
      (Grammar.Cursor.start (Source.tokens source) nextId).last := by
    exact ⟨rfl, fun hkind => absurd (Grammar.kind_last_start _ _) hkind⟩
  have hparallel := Grammar.parseProgram_parallel (scanning nextId) htokens hlast
  have hmatches := List.forall₂_same.mp hparallel.statements s hs
  exact (Grammar.spelled_composedFreely.parseProgram (Source.tokens source) nextId s hs).of_matches
    hmatches

lemma spelled_parseExpression {source : String} {nextId : NodeId} {e : Expr}
    (he : (Grammar.parseExpression (Source.tokens source) nextId).result = .ok e) :
    e.Spelled (fun _ => True) Token.Scanned := by
  have hmatches : e.Matches (· = ·) (Token.Keeps Token.Scanned) (e.relabel id id) :=
    (Grammar.parseExpression_reads he).matches fun t ht => ⟨rfl, fun _ => Source.scanned_of_mem ht⟩
  rw [Expr.relabel_id] at hmatches
  exact (Grammar.spelled_composedFreely.parseExpression he).of_matches hmatches

lemma Stmt.FromSource.spelled {s : Stmt} (h : s.FromSource) :
    s.Spelled (fun _ => True) Token.Scanned := by
  induction h with
  | read hs => exact Program.spelled_read _ _ _ hs
  | part _ ht ih => exact ih.parts ht

lemma Expr.FromSource.spelled {e : Expr} (h : e.FromSource) :
    e.Spelled (fun _ => True) Token.Scanned := by
  induction h with
  | read he => exact spelled_parseExpression he
  | within hs he => exact hs.spelled.expressions he
  | part _ hp ih => exact ih.parts hp

/-! ## Printing -/

/-- The texts of trees are unambiguous.  Take any two statements `s` and `s'` of trees that are read
from sources, with only `Plain` constants in them: no strings and no infinities.  If their `text` is
the same, they are the same tree, up to node ids and the lines of tokens, which `bare` leaves out.
The same holds of any two expressions. -/
theorem printing_is_unambiguous :
    (∀ s s' : Stmt, s.FromSource → s'.FromSource → (∀ c ∈ s.constants, c.Plain) →
      (∀ c ∈ s'.constants, c.Plain) → s.text = s'.text → s.bare = s'.bare) ∧
    (∀ e e' : Expr, e.FromSource → e'.FromSource → (∀ c ∈ e.constants, c.Plain) →
      (∀ c ∈ e'.constants, c.Plain) → e.text = e'.text → e.bare = e'.bare) := by
  constructor
  · intro s s' hs hs' hc hc' htext
    have hspelled := hs.spelled.of_constants hc
    have hspelled' := hs'.spelled.of_constants hc'
    refine hspelled.bare_eq hspelled' (Form.text_inj hspelled.proper_form hspelled'.proper_form ?_)
    rw [← s.toList_text, ← s'.toList_text, htext]
  · intro e e' he he' hc hc' htext
    have hspelled := he.spelled.of_constants hc
    have hspelled' := he'.spelled.of_constants hc'
    refine hspelled.bare_eq hspelled' (Form.text_inj hspelled.proper_form hspelled'.proper_form ?_)
    rw [← e.toList_text, ← e'.toList_text, htext]

/-- Statements `s` and `s'` of two sources that differ in layout, in the digits of a number and in
the ids of their nodes, and what they print. -/
theorem printing_is_unambiguous_over_layouts :
    let s := (Program.read "print 1.50 - f(a, nil);" 0).statements.headD (.block [])
    let s' := (Program.read "print\n1.5-f(a,nil)\n;" 7).statements.headD (.block [])
    let e := s.expressions.headD (.literal .nil)
    let e' := s'.expressions.headD (.literal .nil)
    s.FromSource ∧ s'.FromSource ∧ (∀ c ∈ s.constants, c.Plain) ∧ (∀ c ∈ s'.constants, c.Plain) ∧
      s.text = s'.text ∧ s.bare = s'.bare ∧ e.bare = e'.bare := by
  intro s s' e e'
  have hmem : s ∈ (Program.read "print 1.50 - f(a, nil);" 0).statements := List.mem_singleton_self s
  have hmem' : s' ∈ (Program.read "print\n1.5-f(a,nil)\n;" 7).statements :=
    List.mem_singleton_self s'
  have he : e ∈ s.expressions := List.mem_singleton_self e
  have he' : e' ∈ s'.expressions := List.mem_singleton_self e'
  have hplain : ∀ c ∈ s.constants, c.Plain := by
    -- Three halves, with the mantissa and the exponent that it is stored with.
    refine List.forall_mem_cons.mpr ⟨⟨false, 3 * 2 ^ 51, -52, ?_⟩,
      List.forall_mem_singleton.mpr trivial⟩
    decide +kernel
  have hplain' : ∀ c ∈ s'.constants, c.Plain := by
    refine List.forall_mem_cons.mpr ⟨⟨false, 3 * 2 ^ 51, -52, ?_⟩,
      List.forall_mem_singleton.mpr trivial⟩
    decide +kernel
  have htext : s.text = s'.text := by decide +kernel
  have htext' : e.text = e'.text := by decide +kernel
  refine ⟨.read hmem, .read hmem', hplain, hplain', htext, ?_, ?_⟩
  · exact printing_is_unambiguous.1 s s' (.read hmem) (.read hmem') hplain hplain' htext
  · exact printing_is_unambiguous.2 e e' (.within (.read hmem) he) (.within (.read hmem') he')
      hplain hplain' htext'

end LoxLang
