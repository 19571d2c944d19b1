import LoxLang.Proofs.Tree.Relabel
import LoxLang.Proofs.Tree.Shape
import LoxLang.Tree.Occurrence

/-!
# Trees that match

Two trees match if they have the same shape and the same constants and their node ids and tokens are
related, one by one.  With all ids related and tokens related to themselves, trees match if they are
the same up to node ids.
-/

namespace LoxLang

variable {ids ids' : NodeId → NodeId → Prop} {tokens tokens' : Token → Token → Prop}

inductive Expr.Matches (ids : NodeId → NodeId → Prop) (tokens : Token → Token → Prop) :
    Expr → Expr → Prop where
  | literal (value : Constant) : Matches ids tokens (.literal value) (.literal value)
  | grouping {inner inner' : Expr} :
      Matches ids tokens inner inner' → Matches ids tokens (.grouping inner) (.grouping inner')
  | unary {operator operator' : Token} {right right' : Expr} :
      tokens operator operator' → Matches ids tokens right right' →
      Matches ids tokens (.unary operator right) (.unary operator' right')
  | binary {left left' right right' : Expr} {operator operator' : Token} :
      Matches ids tokens left left' → tokens operator operator' → Matches ids tokens right right' →
      Matches ids tokens (.binary left operator right) (.binary left' operator' right')
  | logical {left left' right right' : Expr} {operator operator' : Token} :
      Matches ids tokens left left' → tokens operator operator' → Matches ids tokens right right' →
      Matches ids tokens (.logical left operator right) (.logical left' operator' right')
  | read {id id' : NodeId} {name name' : Token} :
      ids id id' → tokens name name' → Matches ids tokens (.read id name) (.read id' name')
  | assign {id id' : NodeId} {name name' : Token} {value value' : Expr} :
      ids id id' → tokens name name' → Matches ids tokens value value' →
      Matches ids tokens (.assign id name value) (.assign id' name' value')
  | call {callee callee' : Expr} {paren paren' : Token} {arguments arguments' : List Expr} :
      Matches ids tokens callee callee' → tokens paren paren' →
      List.Forall₂ (Matches ids tokens) arguments arguments' →
      Matches ids tokens (.call callee paren arguments) (.call callee' paren' arguments')

inductive Stmt.Matches (ids : NodeId → NodeId → Prop) (tokens : Token → Token → Prop) :
    Stmt → Stmt → Prop where
  | expression {e e' : Expr} :
      e.Matches ids tokens e' → Matches ids tokens (.expression e) (.expression e')
  | print {e e' : Expr} : e.Matches ids tokens e' → Matches ids tokens (.print e) (.print e')
  | var {name name' : Token} {initializer initializer' : Option Expr} :
      tokens name name' → Option.Rel (Expr.Matches ids tokens) initializer initializer' →
      Matches ids tokens (.var name initializer) (.var name' initializer')
  | block {body body' : List Stmt} :
      List.Forall₂ (Matches ids tokens) body body' → Matches ids tokens (.block body) (.block body')
  | branch {condition condition' : Expr} {thenBranch thenBranch' : Stmt}
      {elseBranch elseBranch' : Option Stmt} :
      condition.Matches ids tokens condition' → Matches ids tokens thenBranch thenBranch' →
      Option.Rel (Matches ids tokens) elseBranch elseBranch' →
      Matches ids tokens (.branch condition thenBranch elseBranch)
        (.branch condition' thenBranch' elseBranch')
  | loop {condition condition' : Expr} {body body' : Stmt} :
      condition.Matches ids tokens condition' → Matches ids tokens body body' →
      Matches ids tokens (.loop condition body) (.loop condition' body')
  | function {name name' : Token} {parameters parameters' : List Token} {body body' : List Stmt} :
      tokens name name' → List.Forall₂ tokens parameters parameters' →
      List.Forall₂ (Matches ids tokens) body body' →
      Matches ids tokens (.function name parameters body) (.function name' parameters' body')
  | ret {keyword keyword' : Token} {value value' : Option Expr} :
      tokens keyword keyword' → Option.Rel (Expr.Matches ids tokens) value value' →
      Matches ids tokens (.ret keyword value) (.ret keyword' value')

structure Function.Matches (ids : NodeId → NodeId → Prop) (tokens : Token → Token → Prop)
    (f f' : Function) : Prop where
  name : tokens f.name f'.name
  parameters : List.Forall₂ tokens f.parameters f'.parameters
  body : List.Forall₂ (Stmt.Matches ids tokens) f.body f'.body

/-! ## Occurrences -/

/-- Occurrences that correspond: both read or both set, with related ids and names. -/
structure Occurrence.Matches (ids : NodeId → NodeId → Prop) (tokens : Token → Token → Prop)
    (o o' : Occurrence) : Prop where
  access : o.access = o'.access
  id : ids o.id o'.id
  name : tokens o.name o'.name

mutual

lemma Expr.Matches.occurrences (e : Expr) {e' : Expr} (h : e.Matches ids tokens e') :
    List.Forall₂ (Occurrence.Matches ids tokens) e.occurrences e'.occurrences := by
  cases h with
  | literal value => exact .nil
  | grouping hinner | unary _ hinner =>
    rw [Expr.occurrences, Expr.occurrences]
    exact Expr.Matches.occurrences _ hinner
  | binary hleft _ hright | logical hleft _ hright =>
    exact List.rel_append (Expr.Matches.occurrences _ hleft) (Expr.Matches.occurrences _ hright)
  | read hid hname => exact .cons ⟨rfl, hid, hname⟩ .nil
  | assign hid hname hvalue =>
    exact List.rel_append (Expr.Matches.occurrences _ hvalue) (.cons ⟨rfl, hid, hname⟩ .nil)
  | call hcallee _ harguments =>
    exact List.rel_append (Expr.Matches.occurrences _ hcallee)
      (Expr.Matches.occurrences_all _ harguments)
termination_by structural e

lemma Expr.Matches.occurrences_all (es : List Expr) {es' : List Expr}
    (h : List.Forall₂ (Expr.Matches ids tokens) es es') :
    List.Forall₂ (Occurrence.Matches ids tokens) (Expr.allOccurrences es)
      (Expr.allOccurrences es') := by
  cases h with
  | nil => exact .nil
  | cons he hes =>
    exact List.rel_append (Expr.Matches.occurrences _ he) (Expr.Matches.occurrences_all _ hes)
termination_by structural es

end

lemma Expr.Matches.occurrences_optional {e e' : Option Expr}
    (h : Option.Rel (Expr.Matches ids tokens) e e') :
    List.Forall₂ (Occurrence.Matches ids tokens) (e.elim [] Expr.occurrences)
      (e'.elim [] Expr.occurrences) := by
  cases h with
  | none => exact .nil
  | some he => exact he.occurrences

mutual

/-- Statements that match have matching `occurrences`, in the same order. -/
lemma Stmt.Matches.occurrences (s : Stmt) {s' : Stmt} (h : s.Matches ids tokens s') :
    List.Forall₂ (Occurrence.Matches ids tokens) s.occurrences s'.occurrences := by
  cases h with
  | expression he | print he => exact he.occurrences
  | var _ he | ret _ he => exact Expr.Matches.occurrences_optional he
  | block hbody | function _ _ hbody => exact Stmt.Matches.occurrences_all _ hbody
  | branch hcondition hthen helse =>
    exact List.rel_append
      (List.rel_append hcondition.occurrences (Stmt.Matches.occurrences _ hthen))
      (Stmt.Matches.occurrences_optional _ helse)
  | loop hcondition hbody =>
    exact List.rel_append hcondition.occurrences (Stmt.Matches.occurrences _ hbody)
termination_by structural s

lemma Stmt.Matches.occurrences_all (ss : List Stmt) {ss' : List Stmt}
    (h : List.Forall₂ (Stmt.Matches ids tokens) ss ss') :
    List.Forall₂ (Occurrence.Matches ids tokens) (Stmt.allOccurrences ss)
      (Stmt.allOccurrences ss') := by
  cases h with
  | nil => exact .nil
  | cons hs hss =>
    exact List.rel_append (Stmt.Matches.occurrences _ hs) (Stmt.Matches.occurrences_all _ hss)
termination_by structural ss

lemma Stmt.Matches.occurrences_optional (s : Option Stmt) {s' : Option Stmt}
    (h : Option.Rel (Stmt.Matches ids tokens) s s') :
    List.Forall₂ (Occurrence.Matches ids tokens) (Stmt.optionalOccurrences s)
      (Stmt.optionalOccurrences s') := by
  cases h with
  | none => exact .nil
  | some hs => exact Stmt.Matches.occurrences _ hs
termination_by structural s

end

/-! ## Weaker relations

Only the ids that occur in the first tree matter. -/

mutual

lemma Expr.Matches.mono (htokens : ∀ t t', tokens t t' → tokens' t t') (e : Expr) {e' : Expr}
    (h : e.Matches ids tokens e')
    (hids : ∀ o ∈ e.occurrences, ∀ id', ids o.id id' → ids' o.id id') :
    e.Matches ids' tokens' e' := by
  cases h with
  | literal value => exact .literal value
  | grouping hinner => exact .grouping (Expr.Matches.mono htokens _ hinner hids)
  | unary hoperator hright =>
    exact .unary (htokens _ _ hoperator) (Expr.Matches.mono htokens _ hright hids)
  | binary hleft hoperator hright =>
    rw [Expr.occurrences, List.forall_mem_append] at hids
    exact .binary (Expr.Matches.mono htokens _ hleft hids.1) (htokens _ _ hoperator)
      (Expr.Matches.mono htokens _ hright hids.2)
  | logical hleft hoperator hright =>
    rw [Expr.occurrences, List.forall_mem_append] at hids
    exact .logical (Expr.Matches.mono htokens _ hleft hids.1) (htokens _ _ hoperator)
      (Expr.Matches.mono htokens _ hright hids.2)
  | read hid hname =>
    rw [Expr.occurrences, List.forall_mem_singleton] at hids
    exact .read (hids _ hid) (htokens _ _ hname)
  | assign hid hname hvalue =>
    rw [Expr.occurrences, List.forall_mem_append, List.forall_mem_singleton] at hids
    exact .assign (hids.2 _ hid) (htokens _ _ hname) (Expr.Matches.mono htokens _ hvalue hids.1)
  | call hcallee hparen harguments =>
    rw [Expr.occurrences, List.forall_mem_append] at hids
    exact .call (Expr.Matches.mono htokens _ hcallee hids.1) (htokens _ _ hparen)
      (Expr.Matches.mono_all htokens _ harguments hids.2)

lemma Expr.Matches.mono_all (htokens : ∀ t t', tokens t t' → tokens' t t') (es : List Expr)
    {es' : List Expr} (h : List.Forall₂ (Expr.Matches ids tokens) es es')
    (hids : ∀ o ∈ Expr.allOccurrences es, ∀ id', ids o.id id' → ids' o.id id') :
    List.Forall₂ (Expr.Matches ids' tokens') es es' := by
  cases h with
  | nil => exact .nil
  | cons he hes =>
    rw [Expr.allOccurrences, List.forall_mem_append] at hids
    exact .cons (Expr.Matches.mono htokens _ he hids.1) (Expr.Matches.mono_all htokens _ hes hids.2)

end

lemma Expr.Matches.mono_optional (htokens : ∀ t t', tokens t t' → tokens' t t') {e e' : Option Expr}
    (h : Option.Rel (Expr.Matches ids tokens) e e')
    (hids : ∀ o ∈ e.elim [] Expr.occurrences, ∀ id', ids o.id id' → ids' o.id id') :
    Option.Rel (Expr.Matches ids' tokens') e e' := by
  cases h with
  | none => exact .none
  | some h => exact .some (h.mono htokens _ hids)

mutual

lemma Stmt.Matches.mono (htokens : ∀ t t', tokens t t' → tokens' t t') (s : Stmt) {s' : Stmt}
    (h : s.Matches ids tokens s')
    (hids : ∀ o ∈ s.occurrences, ∀ id', ids o.id id' → ids' o.id id') :
    s.Matches ids' tokens' s' := by
  cases h with
  | expression he => exact .expression (he.mono htokens _ hids)
  | print he => exact .print (he.mono htokens _ hids)
  | var hname he => exact .var (htokens _ _ hname) (Expr.Matches.mono_optional htokens he hids)
  | block hbody => exact .block (Stmt.Matches.mono_all htokens _ hbody hids)
  | branch hcondition hthen helse =>
    rw [Stmt.occurrences, List.forall_mem_append, List.forall_mem_append] at hids
    exact .branch (hcondition.mono htokens _ hids.1.1) (Stmt.Matches.mono htokens _ hthen hids.1.2)
      (Stmt.Matches.mono_optional htokens _ helse hids.2)
  | loop hcondition hbody =>
    rw [Stmt.occurrences, List.forall_mem_append] at hids
    exact .loop (hcondition.mono htokens _ hids.1) (Stmt.Matches.mono htokens _ hbody hids.2)
  | function hname hparameters hbody =>
    exact .function (htokens _ _ hname) (hparameters.imp htokens)
      (Stmt.Matches.mono_all htokens _ hbody hids)
  | ret hkeyword he =>
    exact .ret (htokens _ _ hkeyword) (Expr.Matches.mono_optional htokens he hids)

lemma Stmt.Matches.mono_all (htokens : ∀ t t', tokens t t' → tokens' t t') (ss : List Stmt)
    {ss' : List Stmt} (h : List.Forall₂ (Stmt.Matches ids tokens) ss ss')
    (hids : ∀ o ∈ Stmt.allOccurrences ss, ∀ id', ids o.id id' → ids' o.id id') :
    List.Forall₂ (Stmt.Matches ids' tokens') ss ss' := by
  cases h with
  | nil => exact .nil
  | cons hs hss =>
    rw [Stmt.allOccurrences, List.forall_mem_append] at hids
    exact .cons (Stmt.Matches.mono htokens _ hs hids.1) (Stmt.Matches.mono_all htokens _ hss hids.2)

lemma Stmt.Matches.mono_optional (htokens : ∀ t t', tokens t t' → tokens' t t') (s : Option Stmt)
    {s' : Option Stmt} (h : Option.Rel (Stmt.Matches ids tokens) s s')
    (hids : ∀ o ∈ Stmt.optionalOccurrences s, ∀ id', ids o.id id' → ids' o.id id') :
    Option.Rel (Stmt.Matches ids' tokens') s s' := by
  cases h with
  | none => exact .none
  | some hs => exact .some (Stmt.Matches.mono htokens _ hs hids)

end

lemma Function.Matches.mono (htokens : ∀ t t', tokens t t' → tokens' t t') {f f' : Function}
    (h : f.Matches ids tokens f')
    (hids : ∀ o ∈ Stmt.allOccurrences f.body, ∀ id', ids o.id id' → ids' o.id id') :
    f.Matches ids' tokens' f' :=
  ⟨htokens _ _ h.name, h.parameters.imp htokens, Stmt.Matches.mono_all htokens f.body h.body hids⟩

/-! ## Trees that become equal

Trees that match become equal when related ids and related tokens are replaced by the same ones. -/

section

variable {f : NodeId → NodeId} {g : Token → Token}

mutual

lemma Expr.Matches.relabel_eq (hids : ∀ i i', ids i i' → f i = f i')
    (htokens : ∀ t t', tokens t t' → g t = g t') (e : Expr) {e' : Expr}
    (h : e.Matches ids tokens e') : e.relabel f g = e'.relabel f g := by
  cases h with
  | literal value => rfl
  | grouping hinner =>
    rw [Expr.relabel, Expr.relabel, Expr.Matches.relabel_eq hids htokens _ hinner]
  | unary hoperator hright =>
    rw [Expr.relabel, Expr.relabel, htokens _ _ hoperator,
      Expr.Matches.relabel_eq hids htokens _ hright]
  | binary hleft hoperator hright | logical hleft hoperator hright =>
    rw [Expr.relabel, Expr.relabel, htokens _ _ hoperator,
      Expr.Matches.relabel_eq hids htokens _ hleft, Expr.Matches.relabel_eq hids htokens _ hright]
  | read hid hname => rw [Expr.relabel, Expr.relabel, hids _ _ hid, htokens _ _ hname]
  | assign hid hname hvalue =>
    rw [Expr.relabel, Expr.relabel, hids _ _ hid, htokens _ _ hname,
      Expr.Matches.relabel_eq hids htokens _ hvalue]
  | call hcallee hparen harguments =>
    rw [Expr.relabel, Expr.relabel, htokens _ _ hparen,
      Expr.Matches.relabel_eq hids htokens _ hcallee,
      Expr.Matches.relabel_eq_all hids htokens _ harguments]
termination_by structural e

lemma Expr.Matches.relabel_eq_all (hids : ∀ i i', ids i i' → f i = f i')
    (htokens : ∀ t t', tokens t t' → g t = g t') (es : List Expr) {es' : List Expr}
    (h : List.Forall₂ (Expr.Matches ids tokens) es es') :
    Expr.relabelAll f g es = Expr.relabelAll f g es' := by
  cases h with
  | nil => rfl
  | cons he hes =>
    rw [Expr.relabelAll, Expr.relabelAll, Expr.Matches.relabel_eq hids htokens _ he,
      Expr.Matches.relabel_eq_all hids htokens _ hes]
termination_by structural es

end

lemma Expr.Matches.relabel_eq_optional (hids : ∀ i i', ids i i' → f i = f i')
    (htokens : ∀ t t', tokens t t' → g t = g t') {e e' : Option Expr}
    (h : Option.Rel (Expr.Matches ids tokens) e e') :
    e.map (Expr.relabel f g) = e'.map (Expr.relabel f g) := by
  cases h with
  | none => rfl
  | some he => exact congrArg some (Expr.Matches.relabel_eq hids htokens _ he)

mutual

lemma Stmt.Matches.relabel_eq (hids : ∀ i i', ids i i' → f i = f i')
    (htokens : ∀ t t', tokens t t' → g t = g t') (s : Stmt) {s' : Stmt}
    (h : s.Matches ids tokens s') : s.relabel f g = s'.relabel f g := by
  cases h with
  | expression he | print he =>
    rw [Stmt.relabel, Stmt.relabel, Expr.Matches.relabel_eq hids htokens _ he]
  | var hname he | ret hname he =>
    rw [Stmt.relabel, Stmt.relabel, htokens _ _ hname,
      Expr.Matches.relabel_eq_optional hids htokens he]
  | block hbody => rw [Stmt.relabel, Stmt.relabel, Stmt.Matches.relabel_eq_all hids htokens _ hbody]
  | branch hcondition hthen helse =>
    rw [Stmt.relabel, Stmt.relabel, Expr.Matches.relabel_eq hids htokens _ hcondition,
      Stmt.Matches.relabel_eq hids htokens _ hthen,
      Stmt.Matches.relabel_eq_optional hids htokens _ helse]
  | loop hcondition hbody =>
    rw [Stmt.relabel, Stmt.relabel, Expr.Matches.relabel_eq hids htokens _ hcondition,
      Stmt.Matches.relabel_eq hids htokens _ hbody]
  | @function _ _ parameters parameters' _ _ hname hparameters hbody =>
    have hsame : parameters.map g = parameters'.map g := by
      induction hparameters with
      | nil => rfl
      | cons ht _ ih => rw [List.map_cons, List.map_cons, htokens _ _ ht, ih]
    rw [Stmt.relabel, Stmt.relabel, htokens _ _ hname, hsame,
      Stmt.Matches.relabel_eq_all hids htokens _ hbody]
termination_by structural s

lemma Stmt.Matches.relabel_eq_all (hids : ∀ i i', ids i i' → f i = f i')
    (htokens : ∀ t t', tokens t t' → g t = g t') (ss : List Stmt) {ss' : List Stmt}
    (h : List.Forall₂ (Stmt.Matches ids tokens) ss ss') :
    Stmt.relabelAll f g ss = Stmt.relabelAll f g ss' := by
  cases h with
  | nil => rfl
  | cons hs hss =>
    rw [Stmt.relabelAll, Stmt.relabelAll, Stmt.Matches.relabel_eq hids htokens _ hs,
      Stmt.Matches.relabel_eq_all hids htokens _ hss]
termination_by structural ss

lemma Stmt.Matches.relabel_eq_optional (hids : ∀ i i', ids i i' → f i = f i')
    (htokens : ∀ t t', tokens t t' → g t = g t') (s : Option Stmt) {s' : Option Stmt}
    (h : Option.Rel (Stmt.Matches ids tokens) s s') :
    Stmt.relabelOptional f g s = Stmt.relabelOptional f g s' := by
  cases h with
  | none => rfl
  | some hs =>
    rw [Stmt.relabelOptional, Stmt.relabelOptional, Stmt.Matches.relabel_eq hids htokens _ hs]
termination_by structural s

end

end

/-! ## Trees up to node ids -/

lemma Expr.Matches.anonymous_eq {e e' : Expr} (h : e.Matches ids Eq e') :
    e.anonymous = e'.anonymous :=
  Expr.Matches.relabel_eq (g := id) (fun _ _ _ => rfl) (fun _ _ => congrArg id) e h

lemma Stmt.Matches.anonymous_eq_all {ss ss' : List Stmt}
    (h : List.Forall₂ (Stmt.Matches ids Eq) ss ss') :
    ss.map Stmt.anonymous = ss'.map Stmt.anonymous := by
  have hsame := Stmt.Matches.relabel_eq_all (f := fun _ => 0) (g := id) (fun _ _ _ => rfl)
    (fun _ _ => congrArg id) ss h
  rwa [Stmt.relabelAll_eq_map, Stmt.relabelAll_eq_map] at hsame

/-- All node ids are related. -/
abbrev anyIds : NodeId → NodeId → Prop := fun _ _ => True

mutual

/-- A tree `e'` may be replaced by one that is the same up to node ids. -/
lemma Expr.Matches.of_anonymous (e : Expr) {e' e'' : Expr} (h : e.Matches ids tokens e')
    (heq : e'.relabel (fun _ => 0) id = e''.relabel (fun _ => 0) id) :
    e.Matches anyIds tokens e'' := by
  cases h with
  | literal value =>
    cases e'' with
    | literal value'' =>
      obtain rfl : value = value'' := by simpa [Expr.relabel] using heq
      exact .literal value
    | _ => cases heq
  | grouping hinner =>
    cases e'' with
    | grouping inner'' =>
      rw [Expr.relabel, Expr.relabel, Expr.grouping.injEq] at heq
      exact .grouping (Expr.Matches.of_anonymous _ hinner heq)
    | _ => cases heq
  | unary hoperator hright =>
    cases e'' with
    | unary operator'' right'' =>
      rw [Expr.relabel, Expr.relabel, Expr.unary.injEq] at heq
      obtain ⟨rfl, heq⟩ := heq
      exact .unary hoperator (Expr.Matches.of_anonymous _ hright heq)
    | _ => cases heq
  | binary hleft hoperator hright =>
    cases e'' with
    | binary left'' operator'' right'' =>
      rw [Expr.relabel, Expr.relabel, Expr.binary.injEq] at heq
      obtain ⟨hl, rfl, hr⟩ := heq
      exact .binary (Expr.Matches.of_anonymous _ hleft hl) hoperator
        (Expr.Matches.of_anonymous _ hright hr)
    | _ => cases heq
  | logical hleft hoperator hright =>
    cases e'' with
    | logical left'' operator'' right'' =>
      rw [Expr.relabel, Expr.relabel, Expr.logical.injEq] at heq
      obtain ⟨hl, rfl, hr⟩ := heq
      exact .logical (Expr.Matches.of_anonymous _ hleft hl) hoperator
        (Expr.Matches.of_anonymous _ hright hr)
    | _ => cases heq
  | read _ hname =>
    cases e'' with
    | read id'' name'' =>
      rw [Expr.relabel, Expr.relabel, Expr.read.injEq] at heq
      -- The ids are forgotten on both sides; only the name is known to be the same.
      obtain ⟨-, rfl⟩ := heq
      exact .read trivial hname
    | _ => cases heq
  | assign _ hname hvalue =>
    cases e'' with
    | assign id'' name'' value'' =>
      rw [Expr.relabel, Expr.relabel, Expr.assign.injEq] at heq
      obtain ⟨-, rfl, heq⟩ := heq
      exact .assign trivial hname (Expr.Matches.of_anonymous _ hvalue heq)
    | _ => cases heq
  | call hcallee hparen harguments =>
    cases e'' with
    | call callee'' paren'' arguments'' =>
      rw [Expr.relabel, Expr.relabel, Expr.call.injEq] at heq
      obtain ⟨hc, rfl, ha⟩ := heq
      exact .call (Expr.Matches.of_anonymous _ hcallee hc) hparen
        (Expr.Matches.of_anonymous_all _ harguments ha)
    | _ => cases heq
termination_by structural e

lemma Expr.Matches.of_anonymous_all (es : List Expr) {es' es'' : List Expr}
    (h : List.Forall₂ (Expr.Matches ids tokens) es es')
    (heq : Expr.relabelAll (fun _ => 0) id es' = Expr.relabelAll (fun _ => 0) id es'') :
    List.Forall₂ (Expr.Matches anyIds tokens) es es'' := by
  cases h with
  | nil =>
    cases es'' with
    | nil => exact .nil
    | cons e'' rest'' => simp [Expr.relabelAll] at heq
  | cons he hes =>
    cases es'' with
    | nil => simp [Expr.relabelAll] at heq
    | cons e'' rest'' =>
      rw [Expr.relabelAll, Expr.relabelAll, List.cons.injEq] at heq
      exact .cons (Expr.Matches.of_anonymous _ he heq.1) (Expr.Matches.of_anonymous_all _ hes heq.2)
termination_by structural es

end

lemma Expr.Matches.of_anonymous_optional {e e' e'' : Option Expr}
    (h : Option.Rel (Expr.Matches ids tokens) e e')
    (heq : e'.map (Expr.relabel (fun _ => 0) id) = e''.map (Expr.relabel (fun _ => 0) id)) :
    Option.Rel (Expr.Matches anyIds tokens) e e'' := by
  cases h with
  | none =>
    obtain rfl : e'' = none := by simpa using heq.symm
    exact .none
  | some he =>
    obtain ⟨e₁, rfl, hsame⟩ := Option.map_eq_some_iff.mp heq.symm
    exact .some (he.of_anonymous _ hsame.symm)

mutual

lemma Stmt.Matches.of_anonymous (s : Stmt) {s' s'' : Stmt} (h : s.Matches ids tokens s')
    (heq : s'.relabel (fun _ => 0) id = s''.relabel (fun _ => 0) id) :
    s.Matches anyIds tokens s'' := by
  cases h with
  | expression he =>
    cases s'' with
    | expression e'' =>
      rw [Stmt.relabel, Stmt.relabel, Stmt.expression.injEq] at heq
      exact .expression (he.of_anonymous _ heq)
    | _ => cases heq
  | print he =>
    cases s'' with
    | print e'' =>
      rw [Stmt.relabel, Stmt.relabel, Stmt.print.injEq] at heq
      exact .print (he.of_anonymous _ heq)
    | _ => cases heq
  | var hname he =>
    cases s'' with
    | var name'' initializer'' =>
      rw [Stmt.relabel, Stmt.relabel, Stmt.var.injEq] at heq
      obtain ⟨rfl, heq⟩ := heq
      exact .var hname (Expr.Matches.of_anonymous_optional he heq)
    | _ => cases heq
  | block hbody =>
    cases s'' with
    | block body'' =>
      rw [Stmt.relabel, Stmt.relabel, Stmt.block.injEq] at heq
      exact .block (Stmt.Matches.of_anonymous_all _ hbody heq)
    | _ => cases heq
  | branch hcondition hthen helse =>
    cases s'' with
    | branch condition'' thenBranch'' elseBranch'' =>
      rw [Stmt.relabel, Stmt.relabel, Stmt.branch.injEq] at heq
      exact .branch (hcondition.of_anonymous _ heq.1) (Stmt.Matches.of_anonymous _ hthen heq.2.1)
        (Stmt.Matches.of_anonymous_optional _ helse heq.2.2)
    | _ => cases heq
  | loop hcondition hbody =>
    cases s'' with
    | loop condition'' body'' =>
      rw [Stmt.relabel, Stmt.relabel, Stmt.loop.injEq] at heq
      exact .loop (hcondition.of_anonymous _ heq.1) (Stmt.Matches.of_anonymous _ hbody heq.2)
    | _ => cases heq
  | function hname hparameters hbody =>
    cases s'' with
    | function name'' parameters'' body'' =>
      rw [Stmt.relabel, Stmt.relabel, Stmt.function.injEq, List.map_id, List.map_id] at heq
      obtain ⟨rfl, rfl, heq⟩ := heq
      exact .function hname hparameters (Stmt.Matches.of_anonymous_all _ hbody heq)
    | _ => cases heq
  | ret hkeyword he =>
    cases s'' with
    | ret keyword'' value'' =>
      rw [Stmt.relabel, Stmt.relabel, Stmt.ret.injEq] at heq
      obtain ⟨rfl, heq⟩ := heq
      exact .ret hkeyword (Expr.Matches.of_anonymous_optional he heq)
    | _ => cases heq
termination_by structural s

lemma Stmt.Matches.of_anonymous_all (ss : List Stmt) {ss' ss'' : List Stmt}
    (h : List.Forall₂ (Stmt.Matches ids tokens) ss ss')
    (heq : Stmt.relabelAll (fun _ => 0) id ss' = Stmt.relabelAll (fun _ => 0) id ss'') :
    List.Forall₂ (Stmt.Matches anyIds tokens) ss ss'' := by
  cases h with
  | nil =>
    cases ss'' with
    | nil => exact .nil
    | cons s'' rest'' => simp [Stmt.relabelAll] at heq
  | cons hs hss =>
    cases ss'' with
    | nil => simp [Stmt.relabelAll] at heq
    | cons s'' rest'' =>
      rw [Stmt.relabelAll, Stmt.relabelAll, List.cons.injEq] at heq
      exact .cons (Stmt.Matches.of_anonymous _ hs heq.1) (Stmt.Matches.of_anonymous_all _ hss heq.2)
termination_by structural ss

lemma Stmt.Matches.of_anonymous_optional (s : Option Stmt) {s' s'' : Option Stmt}
    (h : Option.Rel (Stmt.Matches ids tokens) s s')
    (heq : Stmt.relabelOptional (fun _ => 0) id s' = Stmt.relabelOptional (fun _ => 0) id s'') :
    Option.Rel (Stmt.Matches anyIds tokens) s s'' := by
  cases h with
  | none =>
    cases s'' with
    | none => exact .none
    | some s'' => simp [Stmt.relabelOptional] at heq
  | some hs =>
    cases s'' with
    | none => simp [Stmt.relabelOptional] at heq
    | some s'' =>
      rw [Stmt.relabelOptional, Stmt.relabelOptional, Option.some.injEq] at heq
      exact .some (Stmt.Matches.of_anonymous _ hs heq)
termination_by structural s

end

end LoxLang
