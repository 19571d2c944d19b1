import LoxLang.Proofs.Tree.Constants
import LoxLang.Proofs.Tree.Spelling

/-!
# Trees that are printed alike

The lexeme of a scanned token tells its kind and literal.  A form of a tree starts with the word for
how the tree is built, and no word has two meanings where the number of parts is the same.  So trees
of scanned tokens and plain constants that are printed alike are the same, up to the ids of their
nodes and the lines of their tokens.
-/

namespace LoxLang

open Source

/-- Lists whose items are the same to `f` one by one are so to `g`, if that holds of the items. -/
lemma map_eq_map_of_forall {α β γ : Type} {f : α → β} {g : α → γ} {xs ys : List α}
    (h : ∀ x ∈ xs, ∀ y ∈ ys, f x = f y → g x = g y) (hmap : xs.map f = ys.map f) :
    xs.map g = ys.map g := by
  induction xs generalizing ys with
  | nil => rw [List.map_eq_nil_iff.mp hmap.symm]
  | cons x xs ih =>
    obtain ⟨y, rest, rfl, hy, hrest⟩ := List.map_eq_cons_iff.mp hmap.symm
    have hhead := h x List.mem_cons_self y List.mem_cons_self hy.symm
    have htail :=
      ih (fun x hx y hy => h x (List.mem_cons_of_mem _ hx) y (List.mem_cons_of_mem _ hy)) hrest.symm
    rw [List.map_cons, List.map_cons, hhead, htail]

/-- The same as `map_eq_map_of_forall` for what may be missing. -/
lemma map_eq_map_of_optional {α β γ : Type} {f : α → β} {g : α → γ} {o o' : Option α}
    (h : ∀ x ∈ o, ∀ y ∈ o', f x = f y → g x = g y) (hmap : (o.map f).toList = (o'.map f).toList) :
    o.map g = o'.map g := by
  cases o with
  | none =>
    cases o' with
    | none => rfl
    | some y => exact absurd hmap (by simp)
  | some x =>
    cases o' with
    | none => exact absurd hmap (by simp)
    | some y => exact congrArg some (h x rfl y rfl (by simpa using hmap))

/-! ## Scanned tokens -/

/-- The lexemes that have a kind of their own. -/
def fixedLexemes : List (String × Kind) :=
  operatorTable.map (fun entry => (String.ofList entry.1, entry.2)) ++ reservedWords

/-- Only strings, numbers and identifiers have various lexemes, the others are `fixedLexemes`. -/
lemma Source.Fits.fixed {kind : Kind} {text : List Char} (h : Fits (.token kind) text)
    (hkind : kind ∉ [.string, .number, .identifier]) :
    (String.ofList text, kind) ∈ fixedLexemes := by
  cases h with
  | operator hmem => exact List.mem_append_left _ (List.mem_map_of_mem hmem)
  | reserved _ hmem => exact List.mem_append_right _ hmem
  | string | whole | fractional | identifier => exact absurd hkind (by decide)

namespace Token.Scanned

variable {t t' : Token}

/-- A lexeme tells its token, but for the line. -/
lemma unplaced_eq (h : t.Scanned) (h' : t'.Scanned) (hlexeme : t.lexeme = t'.lexeme) :
    t.unplaced = t'.unplaced := by
  have hfits := h.fits
  have hfits' := h'.fits
  obtain ⟨c, cs, hcs⟩ := hfits.exists_cons
  rw [hcs] at hfits
  rw [← hlexeme, hcs] at hfits'
  have hkind : t.kind = t'.kind :=
    Shape.token.inj (Segment.mk.inj (hfits.cut_eq.symm.trans hfits'.cut_eq)).1
  have hliteral : t.literal = t'.literal := by rw [h.literal, h'.literal, hkind, hlexeme]
  rw [unplaced, unplaced, hkind, hlexeme, hliteral]

lemma mem_fixedLexemes (h : t.Scanned) (hkind : t.kind ∉ [.string, .number, .identifier]) :
    (t.lexeme, t.kind) ∈ fixedLexemes := by
  have hfixed := h.fits.fixed hkind
  rwa [String.ofList_toList] at hfixed

/-- The lexeme of a token of one of the given `kinds` is among the fixed `lexemes` of these
kinds. -/
lemma lexeme_mem (h : t.Scanned) {kinds : List Kind} {lexemes : List String} (hmem : t.kind ∈ kinds)
    (hkinds : ∀ kind ∈ kinds, kind ∉ [.string, .number, .identifier])
    (hfixed : ∀ entry ∈ fixedLexemes, entry.2 ∈ kinds → entry.1 ∈ lexemes) : t.lexeme ∈ lexemes :=
  hfixed _ (h.mem_fixedLexemes (hkinds _ hmem)) hmem

/-- Tokens of a `kind` with a fixed lexeme are the same but for the line. -/
lemma unplaced_eq_of_kind (h : t.Scanned) (h' : t'.Scanned) {kind : Kind} (hkind : t.kind = kind)
    (hkind' : t'.kind = kind) (hother : kind ∉ [.string, .number, .identifier]) :
    t.unplaced = t'.unplaced := by
  have hone : ∀ entry ∈ fixedLexemes, ∀ other ∈ fixedLexemes, entry.2 = other.2 →
      entry.1 = other.1 := by
    decide +kernel
  have hmem := h.mem_fixedLexemes (by rwa [hkind])
  have hmem' := h'.mem_fixedLexemes (by rwa [hkind'])
  exact h.unplaced_eq h' (hone _ hmem _ hmem' (hkind.trans hkind'.symm))

lemma isWord_of_identifier (h : t.Scanned) (hkind : t.kind = .identifier) :
    Form.IsWord t.lexeme := by
  have hfits := h.fits
  rw [hkind] at hfits
  obtain ⟨c, rest, htext, hc, hrest⟩ := hfits.isName
  have hpart : ∀ d ∈ c :: rest, isNamePart d = true := by
    refine List.forall_mem_cons.mpr ⟨?_, hrest⟩
    rw [isNamePart, hc, Bool.true_or]
  rw [Form.IsWord, htext]
  exact ⟨List.cons_ne_nil c rest, List.all_eq_true.mpr fun d hd =>
    Form.isWordPart_of_class (hpart d hd) (by decide)⟩

lemma isWord_of_operator (h : t.Scanned)
    (hkind : t.kind ∈ unaryOperators ++ strictOperators ++ logicalOperators) :
    Form.IsWord t.lexeme := by
  have hwords : ∀ w ∈ ["!", "-", "+", "*", "/", ">", ">=", "<", "<=", "==", "!=", "and", "or"],
      Form.IsWord w := by
    decide
  exact hwords _ (h.lexeme_mem hkind (by decide) (by decide))

/-- No name is shown like a `Plain` constant. -/
lemma lexeme_ne_text (h : t.Scanned) (hkind : t.kind = .identifier) {c : Constant} (hc : c.Plain) :
    c.text ≠ t.lexeme := by
  have hfits := h.fits
  rw [hkind] at hfits
  have hfree := hfits.notReserved
  rw [String.ofList_toList] at hfree
  cases c with
  | nil =>
    intro heq
    exact hfree .nilWord (by rw [← heq]; decide)
  | bool b =>
    intro heq
    cases b with
    | true => exact hfree .trueWord (by rw [← heq]; decide)
    | false => exact hfree .falseWord (by rw [← heq]; decide)
  | number x =>
    obtain ⟨d, rest, htext, hd, -⟩ := hfits.isName
    exact Constant.text_number_ne hc (by rw [htext]; exact List.mem_cons_self) hd
  | string s => exact hc.elim

end Token.Scanned

/-! ## Expressions -/

/-- How an expression is built. -/
inductive Build where
  | atom
  | grouping
  | unary
  | binary
  | logical
  | assign
  | call

def Expr.build : Expr → Build
  | .literal _ | .read _ _ => .atom
  | .grouping _ => .grouping
  | .unary _ _ => .unary
  | .binary _ _ _ => .binary
  | .logical _ _ _ => .logical
  | .assign _ _ _ => .assign
  | .call _ _ _ => .call

/-- How the expression of a form is built, by its first word and the number of its parts. -/
def Form.build : Form → Build
  | .word _ => .atom
  | .list [.word w, _] =>
    if w = "group" then .grouping else if w ∈ ["!", "-"] then .unary else .call
  | .list [.word w, _, _] =>
    if w = "=" then .assign
    else if w ∈ ["and", "or"] then .logical
    else if w = "call" then .call
    else .binary
  | .list _ => .call

/-- An expression without its node ids and the lines of its tokens. -/
def Expr.bare (e : Expr) : Expr := e.relabel (fun _ => 0) Token.unplaced

/-- A statement without its node ids and the lines of its tokens. -/
def Stmt.bare (s : Stmt) : Stmt := s.relabel (fun _ => 0) Token.unplaced

lemma Expr.bare_call (callee : Expr) (paren : Token) (arguments : List Expr) :
    (Expr.call callee paren arguments).bare =
      .call callee.bare paren.unplaced (arguments.map Expr.bare) := by
  rw [Expr.bare, Expr.relabel, Expr.relabelAll_eq_map]
  rfl

lemma Stmt.bare_block (body : List Stmt) :
    (Stmt.block body).bare = .block (body.map Stmt.bare) := by
  rw [Stmt.bare, Stmt.relabel, Stmt.relabelAll_eq_map]
  rfl

lemma Stmt.bare_function (name : Token) (parameters : List Token) (body : List Stmt) :
    (Stmt.function name parameters body).bare =
      .function name.unplaced (parameters.map Token.unplaced) (body.map Stmt.bare) := by
  rw [Stmt.bare, Stmt.relabel, Stmt.relabelAll_eq_map]
  rfl

lemma Stmt.bare_branch (condition : Expr) (thenBranch : Stmt) (elseBranch : Option Stmt) :
    (Stmt.branch condition thenBranch elseBranch).bare =
      .branch condition.bare thenBranch.bare (elseBranch.map Stmt.bare) := by
  cases elseBranch <;> rfl

namespace Expr.Spelled

variable {e e' : Expr}

lemma build_form {K : Constant → Prop} (h : e.Spelled K Token.Scanned) :
    e.form.build = e.build := by
  cases h with
  | literal | grouping | read | assign => rfl
  | unary hoperator hkind _ =>
    have hfixed : ∀ w ∈ ["!", "-"], ∀ f, (Form.list [.word w, f]).build = .unary := by
      simp [Form.build]
    exact hfixed _ (hoperator.lexeme_mem hkind (by decide) (by decide)) _
  | binary hoperator hkind _ _ =>
    have hfixed : ∀ w ∈ ["+", "-", "*", "/", ">", ">=", "<", "<=", "==", "!="], ∀ f g,
        (Form.list [.word w, f, g]).build = .binary := by simp [Form.build]
    exact hfixed _ (hoperator.lexeme_mem hkind (by decide) (by decide)) _ _
  | logical hoperator hkind _ _ =>
    have hfixed : ∀ w ∈ ["and", "or"], ∀ f g, (Form.list [.word w, f, g]).build = .logical := by
      simp [Form.build]
    exact hfixed _ (hoperator.lexeme_mem hkind (by decide) (by decide)) _ _
  | @call callee paren arguments _ _ _ _ =>
    match arguments with
    | [] | [_] | _ :: _ :: _ => rfl

/-- The words of an expression of `Plain` constants and `Scanned` tokens can be told apart. -/
lemma proper_form (h : e.Spelled Constant.Plain Token.Scanned) : e.form.Proper := by
  induction h with
  | literal hvalue => exact .word (Constant.isWord_text hvalue)
  | grouping _ ih => exact .headed (by decide) (by simpa using ih)
  | unary hoperator hkind _ ih =>
    exact .headed (hoperator.isWord_of_operator (by simp [hkind])) (by simpa using ih)
  | binary hoperator hkind _ _ ihleft ihright | logical hoperator hkind _ _ ihleft ihright =>
    exact .headed (hoperator.isWord_of_operator (by simp [hkind]))
      (by simpa using ⟨ihleft, ihright⟩)
  | read hname hkind => exact .word (hname.isWord_of_identifier hkind)
  | assign hname hkind _ ih =>
    exact .headed (by decide) (by simpa using ⟨.word (hname.isWord_of_identifier hkind), ih⟩)
  | call _ _ _ _ ihcallee iharguments =>
    refine .headed (by decide) (List.forall_mem_cons.mpr ⟨ihcallee, ?_⟩)
    rw [Expr.forms_eq_map]
    exact List.forall_mem_map.mpr iharguments

lemma same_build (h : e.Spelled Constant.Plain Token.Scanned)
    (h' : e'.Spelled Constant.Plain Token.Scanned) (hform : e.form = e'.form) :
    e.build = e'.build := by
  rw [← h.build_form, hform, h'.build_form]

/-- Expressions of the same `form` are the same, but for node ids and lines. -/
lemma bare_eq (h : e.Spelled Constant.Plain Token.Scanned)
    (h' : e'.Spelled Constant.Plain Token.Scanned) (hform : e.form = e'.form) :
    e.bare = e'.bare := by
  induction h generalizing e' with
  | literal hvalue =>
    have hbuild := same_build (.literal hvalue) h' hform
    cases h' with
    | literal hvalue' => rw [Constant.text_inj hvalue hvalue' (Form.word.inj hform)]
    -- A constant and a name are both words, but never the same one.
    | read hname hkind => exact absurd (Form.word.inj hform) (hname.lexeme_ne_text hkind hvalue)
    | _ => exact Build.noConfusion hbuild
  | read hname hkind =>
    have hbuild := same_build (.read hname hkind) h' hform
    cases h' with
    | literal hvalue => exact absurd (Form.word.inj hform).symm (hname.lexeme_ne_text hkind hvalue)
    | read hname' _ => exact congrArg (Expr.read 0) (hname.unplaced_eq hname' (Form.word.inj hform))
    | _ => exact Build.noConfusion hbuild
  | grouping hinner ih =>
    have hbuild := same_build (.grouping hinner) h' hform
    cases h' with
    | grouping hinner' =>
      simp only [Expr.form, Form.list.injEq, List.cons.injEq, and_true, true_and] at hform
      exact congrArg Expr.grouping (ih hinner' hform)
    | _ => exact Build.noConfusion hbuild
  | unary hoperator hkind hright ih =>
    have hbuild := same_build (.unary hoperator hkind hright) h' hform
    cases h' with
    | unary hoperator' _ hright' =>
      simp only [Expr.form, Form.list.injEq, Form.word.injEq, List.cons.injEq, and_true] at hform
      obtain ⟨hlexeme, hform⟩ := hform
      exact congrArg₂ Expr.unary (hoperator.unplaced_eq hoperator' hlexeme) (ih hright' hform)
    | _ => exact Build.noConfusion hbuild
  | binary hoperator hkind hleft hright ihleft ihright =>
    have hbuild := same_build (.binary hoperator hkind hleft hright) h' hform
    cases h' with
    | binary hoperator' _ hleft' hright' =>
      simp only [Expr.form, Form.list.injEq, Form.word.injEq, List.cons.injEq, and_true] at hform
      obtain ⟨hlexeme, hlefts, hrights⟩ := hform
      show Expr.binary (Expr.bare _) (Token.unplaced _) (Expr.bare _) = _
      rw [ihleft hleft' hlefts, hoperator.unplaced_eq hoperator' hlexeme, ihright hright' hrights]
      rfl
    | _ => exact Build.noConfusion hbuild
  | logical hoperator hkind hleft hright ihleft ihright =>
    have hbuild := same_build (.logical hoperator hkind hleft hright) h' hform
    cases h' with
    | logical hoperator' _ hleft' hright' =>
      simp only [Expr.form, Form.list.injEq, Form.word.injEq, List.cons.injEq, and_true] at hform
      obtain ⟨hlexeme, hlefts, hrights⟩ := hform
      show Expr.logical (Expr.bare _) (Token.unplaced _) (Expr.bare _) = _
      rw [ihleft hleft' hlefts, hoperator.unplaced_eq hoperator' hlexeme, ihright hright' hrights]
      rfl
    | _ => exact Build.noConfusion hbuild
  | assign hname hkind hvalue ih =>
    have hbuild := same_build (.assign hname hkind hvalue) h' hform
    cases h' with
    | assign hname' _ hvalue' =>
      simp only [Expr.form, Form.list.injEq, Form.word.injEq, List.cons.injEq, and_true,
        true_and] at hform
      obtain ⟨hlexeme, hform⟩ := hform
      exact congrArg₂ (Expr.assign 0) (hname.unplaced_eq hname' hlexeme) (ih hvalue' hform)
    | _ => exact Build.noConfusion hbuild
  | call hcallee hparen hkind harguments ihcallee iharguments =>
    have hbuild := same_build (.call hcallee hparen hkind harguments) h' hform
    cases h' with
    | call hcallee' hparen' hkind' harguments' =>
      simp only [Expr.form, Form.list.injEq, List.cons.injEq, true_and, Expr.forms_eq_map] at hform
      obtain ⟨hcallees, hargs⟩ := hform
      rw [bare_call, bare_call, ihcallee hcallee' hcallees,
        hparen.unplaced_eq_of_kind hparen' hkind hkind' (by decide),
        map_eq_map_of_forall (fun a ha a' ha' => iharguments a ha (harguments' a' ha')) hargs]
    | _ => exact Build.noConfusion hbuild

end Expr.Spelled

/-! ## Statements -/

section

variable {o o' : Option Expr} (h : ∀ e ∈ o, e.Spelled Constant.Plain Token.Scanned)

include h

lemma Expr.Spelled.proper_optional : ∀ f ∈ (o.map Expr.form).toList, f.Proper := by
  simpa using fun e he => (h e he).proper_form

lemma Expr.Spelled.bare_eq_optional (h' : ∀ e ∈ o', e.Spelled Constant.Plain Token.Scanned)
    (hforms : (o.map Expr.form).toList = (o'.map Expr.form).toList) :
    o.map Expr.bare = o'.map Expr.bare :=
  map_eq_map_of_optional (fun e he e' he' => (h e he).bare_eq (h' e' he')) hforms

end

namespace Stmt.Spelled

variable {s s' : Stmt}

/-- The words of a statement of `Plain` constants and `Scanned` tokens can be told apart. -/
lemma proper_form (h : s.Spelled Constant.Plain Token.Scanned) : s.form.Proper := by
  induction h with
  | expression he | print he => exact .headed (by decide) (by simpa using he.proper_form)
  | var hname hkind hinitializer =>
    refine .headed (by decide)
      (List.forall_mem_cons.mpr ⟨.word (hname.isWord_of_identifier hkind), ?_⟩)
    exact Expr.Spelled.proper_optional hinitializer
  | block _ ih =>
    refine .headed (by decide) ?_
    rw [Stmt.forms_eq_map]
    exact List.forall_mem_map.mpr ih
  | branch hcondition _ _ ihthen ihelse =>
    refine .headed (by decide)
      (List.forall_mem_cons.mpr ⟨hcondition.proper_form, List.forall_mem_cons.mpr ⟨ihthen, ?_⟩⟩)
    simpa [Stmt.optionalForms_eq_toList] using ihelse
  | loop hcondition _ ih => exact .headed (by decide) (by simpa using ⟨hcondition.proper_form, ih⟩)
  | function hname hkind hparameters _ ih =>
    refine .headed (by decide)
      (List.forall_mem_cons.mpr ⟨.word (hname.isWord_of_identifier hkind), ?_⟩)
    refine List.forall_mem_cons.mpr ⟨.list (List.forall_mem_map.mpr fun p hp => ?_), ?_⟩
    · exact .word ((hparameters p hp).1.isWord_of_identifier (hparameters p hp).2)
    · rw [Stmt.forms_eq_map]
      exact List.forall_mem_map.mpr ih
  | ret _ _ hvalue => exact .headed (by decide) (Expr.Spelled.proper_optional hvalue)

/-- Statements of the same `form` are the same, but for node ids and lines. -/
lemma bare_eq (h : s.Spelled Constant.Plain Token.Scanned)
    (h' : s'.Spelled Constant.Plain Token.Scanned) (hform : s.form = s'.form) :
    s.bare = s'.bare := by
  induction h generalizing s' with
  | expression he =>
    cases h' with
    | expression he' =>
      -- The first word of a form tells the kind of statement, so only the same kind is left.
      simp only [Stmt.form, Form.list.injEq, List.cons.injEq, and_true, true_and] at hform
      exact congrArg Stmt.expression (he.bare_eq he' hform)
    | _ => exact absurd hform (by simp [Stmt.form])
  | print he =>
    cases h' with
    | print he' =>
      simp only [Stmt.form, Form.list.injEq, List.cons.injEq, and_true, true_and] at hform
      exact congrArg Stmt.print (he.bare_eq he' hform)
    | _ => exact absurd hform (by simp [Stmt.form])
  | var hname hkind hinitializer =>
    cases h' with
    | var hname' _ hinitializer' =>
      simp only [Stmt.form, Form.list.injEq, Form.word.injEq, List.cons.injEq, true_and] at hform
      obtain ⟨hlexeme, hforms⟩ := hform
      exact congrArg₂ Stmt.var (hname.unplaced_eq hname' hlexeme)
        (Expr.Spelled.bare_eq_optional hinitializer hinitializer' hforms)
    | _ => exact absurd hform (by simp [Stmt.form])
  | block _ ih =>
    cases h' with
    | block hbody' =>
      simp only [Stmt.form, Form.list.injEq, List.cons.injEq, true_and, Stmt.forms_eq_map] at hform
      rw [bare_block, bare_block,
        map_eq_map_of_forall (fun t ht t' ht' => ih t ht (hbody' t' ht')) hform]
    | _ => exact absurd hform (by simp [Stmt.form])
  | branch hcondition _ _ ihthen ihelse =>
    cases h' with
    | branch hcondition' hthen' helse' =>
      simp only [Stmt.form, Form.list.injEq, List.cons.injEq, true_and,
        Stmt.optionalForms_eq_toList] at hform
      obtain ⟨hconditions, hthens, helses⟩ := hform
      rw [bare_branch, bare_branch, hcondition.bare_eq hcondition' hconditions,
        ihthen hthen' hthens,
        map_eq_map_of_optional (fun t ht t' ht' => ihelse t ht (helse' t' ht')) helses]
    | _ => exact absurd hform (by simp [Stmt.form])
  | loop hcondition _ ih =>
    cases h' with
    | loop hcondition' hbody' =>
      simp only [Stmt.form, Form.list.injEq, List.cons.injEq, and_true, true_and] at hform
      obtain ⟨hconditions, hbodies⟩ := hform
      exact congrArg₂ Stmt.loop (hcondition.bare_eq hcondition' hconditions) (ih hbody' hbodies)
    | _ => exact absurd hform (by simp [Stmt.form])
  | function hname hkind hparameters _ ih =>
    cases h' with
    | function hname' _ hparameters' hbody' =>
      simp only [Stmt.form, Form.list.injEq, Form.word.injEq, List.cons.injEq, true_and,
        Stmt.forms_eq_map] at hform
      obtain ⟨hlexeme, hparams, hbodies⟩ := hform
      have hunplaced := map_eq_map_of_forall (g := Token.unplaced)
        (fun p hp p' hp' heq => (hparameters p hp).1.unplaced_eq (hparameters' p' hp').1
          (Form.word.inj heq)) hparams
      rw [bare_function, bare_function, hname.unplaced_eq hname' hlexeme, hunplaced,
        map_eq_map_of_forall (fun t ht t' ht' => ih t ht (hbody' t' ht')) hbodies]
    | _ => exact absurd hform (by simp [Stmt.form])
  | ret hkeyword hkind hvalue =>
    cases h' with
    | ret hkeyword' hkind' hvalue' =>
      simp only [Stmt.form, Form.list.injEq, List.cons.injEq, true_and] at hform
      -- The keyword is not printed, but a scanned token of its kind has just one lexeme.
      exact congrArg₂ Stmt.ret (hkeyword.unplaced_eq_of_kind hkeyword' hkind hkind' (by decide))
        (Expr.Spelled.bare_eq_optional hvalue hvalue' hform)
    | _ => exact absurd hform (by simp [Stmt.form])

end Stmt.Spelled

end LoxLang
