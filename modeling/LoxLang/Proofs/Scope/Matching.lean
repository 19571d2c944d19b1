import LoxLang.Proofs.Scope.Sites
import LoxLang.Proofs.Tree.Matching

/-!
# Resolving trees that match

The resolver looks at the lexemes of names only.  So it opens the same scopes in trees that match,
and what it finds in them corresponds: the same faults, and the same depths of nodes that correspond
to each other.
-/

namespace LoxLang

variable {ids ids' : NodeId → NodeId → Prop} {tokens : Token → Token → Prop}

/-! ## Findings -/

/-- Findings that correspond: the same depth of related nodes, or the same fault at related
tokens. -/
inductive Finding.Matches (ids : NodeId → NodeId → Prop) (tokens : Token → Token → Prop) :
    Finding → Finding → Prop where
  | depth {id id' : NodeId} (d : ℕ) : ids id id' → Matches ids tokens (.depth id d) (.depth id' d)
  | fault {t t' : Token} (f : BindingFault) :
      tokens t t' → Matches ids tokens (.fault ⟨f, t⟩) (.fault ⟨f, t'⟩)

lemma Scopes.declare_congr {name name' : Token} (h : name.lexeme = name'.lexeme) (scopes : Scopes) :
    (scopes.declare name).1 = (scopes.declare name').1 := by
  cases scopes with
  | nil => rfl
  | cons scope outer =>
    rw [Scopes.declare, Scopes.declare, ← h]
    split <;> rfl

lemma Scopes.declare_matches (hlexeme : ∀ t t', tokens t t' → t.lexeme = t'.lexeme)
    {name name' : Token} (h : tokens name name') (scopes : Scopes) :
    List.Forall₂ (Finding.Matches ids tokens) (scopes.declare name).2 (scopes.declare name').2 := by
  cases scopes with
  | nil => exact .nil
  | cons scope outer =>
    rw [Scopes.declare, Scopes.declare, ← hlexeme _ _ h]
    split
    · exact .cons (.fault _ h) .nil
    · exact .nil

lemma Scopes.bind_congr {name name' : Token} (h : name.lexeme = name'.lexeme) (scopes : Scopes) :
    scopes.bind name = scopes.bind name' := by
  rw [Scopes.bind, Scopes.bind, declare_congr h scopes]
  cases (scopes.declare name').1 with
  | nil => rfl
  | cons scope outer => rw [Scopes.define, Scopes.define, h]

lemma Scopes.declareAll_congr (hlexeme : ∀ t t', tokens t t' → t.lexeme = t'.lexeme)
    {names names' : List Token} (h : List.Forall₂ tokens names names') (scopes : Scopes) :
    (scopes.declareAll names).1 = (scopes.declareAll names').1 := by
  induction h generalizing scopes with
  | nil => rfl
  | @cons name name' _ _ hname _ ih =>
    simp only [Scopes.declareAll]
    rw [← Scopes.bind, ← Scopes.bind, bind_congr (hlexeme _ _ hname) scopes]
    exact ih (scopes.bind name')

lemma Scopes.declareAll_matches (hlexeme : ∀ t t', tokens t t' → t.lexeme = t'.lexeme)
    {names names' : List Token} (h : List.Forall₂ tokens names names') (scopes : Scopes) :
    List.Forall₂ (Finding.Matches ids tokens) (scopes.declareAll names).2
      (scopes.declareAll names').2 := by
  induction h generalizing scopes with
  | nil => exact .nil
  | @cons name name' _ _ hname _ ih =>
    simp only [Scopes.declareAll]
    rw [← Scopes.bind, ← Scopes.bind, bind_congr (hlexeme _ _ hname) scopes]
    exact List.rel_append (declare_matches hlexeme hname scopes) (ih (scopes.bind name'))

lemma Scopes.locate_matches (hlexeme : ∀ t t', tokens t t' → t.lexeme = t'.lexeme) {id id' : NodeId}
    {name name' : Token} (hid : ids id id') (h : tokens name name') (scopes : Scopes) :
    List.Forall₂ (Finding.Matches ids tokens) (scopes.locate id name)
      (scopes.locate id' name') := by
  rw [Scopes.locate, Scopes.locate, ← hlexeme _ _ h]
  cases scopes.depth? name.lexeme with
  | none => exact .nil
  | some d => exact .cons (.depth d hid) .nil

mutual

lemma Expr.Matches.findings (hlexeme : ∀ t t', tokens t t' → t.lexeme = t'.lexeme)
    (scopes : Scopes) (e : Expr) {e' : Expr} (h : e.Matches ids tokens e') :
    List.Forall₂ (Finding.Matches ids tokens) (e.findings scopes) (e'.findings scopes) := by
  cases h with
  | literal value => exact .nil
  | grouping hinner | unary _ hinner =>
    rw [Expr.findings, Expr.findings]
    exact Expr.Matches.findings hlexeme scopes _ hinner
  | binary hleft _ hright | logical hleft _ hright =>
    exact List.rel_append (Expr.Matches.findings hlexeme scopes _ hleft)
      (Expr.Matches.findings hlexeme scopes _ hright)
  | @read id _ name name' hid hname =>
    refine List.rel_append ?_ (scopes.locate_matches hlexeme hid hname)
    rw [← hlexeme _ _ hname]
    split
    · exact .cons (.fault _ hname) .nil
    · exact .nil
  | assign hid hname hvalue =>
    exact List.rel_append (Expr.Matches.findings hlexeme scopes _ hvalue)
      (scopes.locate_matches hlexeme hid hname)
  | call hcallee _ harguments =>
    exact List.rel_append (Expr.Matches.findings hlexeme scopes _ hcallee)
      (Expr.Matches.findings_all hlexeme scopes _ harguments)

lemma Expr.Matches.findings_all (hlexeme : ∀ t t', tokens t t' → t.lexeme = t'.lexeme)
    (scopes : Scopes) (es : List Expr) {es' : List Expr}
    (h : List.Forall₂ (Expr.Matches ids tokens) es es') :
    List.Forall₂ (Finding.Matches ids tokens) (Expr.allFindings scopes es)
      (Expr.allFindings scopes es') := by
  cases h with
  | nil => exact .nil
  | cons he hes =>
    exact List.rel_append (Expr.Matches.findings hlexeme scopes _ he)
      (Expr.Matches.findings_all hlexeme scopes _ hes)

end

lemma Expr.Matches.findings_optional (hlexeme : ∀ t t', tokens t t' → t.lexeme = t'.lexeme)
    (scopes : Scopes) {e e' : Option Expr} (h : Option.Rel (Expr.Matches ids tokens) e e') :
    List.Forall₂ (Finding.Matches ids tokens) (Expr.optionalFindings scopes e)
      (Expr.optionalFindings scopes e') := by
  cases h with
  | none => exact .nil
  | some he => exact he.findings hlexeme scopes _

mutual

/-- The resolver opens the same scopes in trees that match, and what it finds in them
corresponds. -/
lemma Stmt.Matches.resolve (hlexeme : ∀ t t', tokens t t' → t.lexeme = t'.lexeme)
    (inFunction : Bool) (s : Stmt) {s' : Stmt} (h : s.Matches ids tokens s') (scopes : Scopes) :
    (s.resolve inFunction scopes).1 = (s'.resolve inFunction scopes).1 ∧
      List.Forall₂ (Finding.Matches ids tokens) (s.resolve inFunction scopes).2
        (s'.resolve inFunction scopes).2 := by
  cases h with
  | expression he | print he => exact ⟨rfl, he.findings hlexeme scopes _⟩
  | @var name name' _ _ hname he =>
    refine ⟨Scopes.bind_congr (hlexeme _ _ hname) scopes, ?_⟩
    simp only [Stmt.resolve]
    rw [← Scopes.declare_congr (hlexeme _ _ hname) scopes]
    exact List.rel_append (Scopes.declare_matches hlexeme hname scopes)
      (Expr.Matches.findings_optional hlexeme _ he)
  | block hbody =>
    exact ⟨rfl, (Stmt.Matches.resolve_all hlexeme inFunction _ hbody ([] :: scopes)).2⟩
  | branch hcondition hthen helse =>
    obtain ⟨hscopes, hfound⟩ := Stmt.Matches.resolve hlexeme inFunction _ hthen scopes
    simp only [Stmt.resolve]
    rw [← hscopes]
    obtain ⟨hscopes', hfound'⟩ := Stmt.Matches.resolve_optional hlexeme inFunction _ helse _
    exact ⟨hscopes',
      List.rel_append (List.rel_append (hcondition.findings hlexeme scopes _) hfound) hfound'⟩
  | loop hcondition hbody =>
    obtain ⟨hscopes, hfound⟩ := Stmt.Matches.resolve hlexeme inFunction _ hbody scopes
    exact ⟨hscopes, List.rel_append (hcondition.findings hlexeme scopes _) hfound⟩
  | @function name name' _ _ _ _ hname hparameters hbody =>
    simp only [Stmt.resolve]
    rw [← Scopes.bind, ← Scopes.bind, ← Scopes.bind_congr (hlexeme _ _ hname) scopes,
      ← Scopes.declareAll_congr hlexeme hparameters ([] :: scopes.bind name)]
    refine ⟨rfl,
      List.rel_append (List.rel_append ?_ ?_) (Stmt.Matches.resolve_all hlexeme true _ hbody _).2⟩
    · exact Scopes.declare_matches hlexeme hname scopes
    · exact Scopes.declareAll_matches hlexeme hparameters _
  | ret hkeyword he =>
    refine ⟨rfl, List.rel_append ?_ (Expr.Matches.findings_optional hlexeme scopes he)⟩
    cases inFunction with
    | true => exact .nil
    | false => exact .cons (.fault _ hkeyword) .nil
termination_by structural s

lemma Stmt.Matches.resolve_all (hlexeme : ∀ t t', tokens t t' → t.lexeme = t'.lexeme)
    (inFunction : Bool) (ss : List Stmt) {ss' : List Stmt}
    (h : List.Forall₂ (Stmt.Matches ids tokens) ss ss') (scopes : Scopes) :
    (Stmt.resolveAll inFunction ss scopes).1 = (Stmt.resolveAll inFunction ss' scopes).1 ∧
      List.Forall₂ (Finding.Matches ids tokens) (Stmt.resolveAll inFunction ss scopes).2
        (Stmt.resolveAll inFunction ss' scopes).2 := by
  cases h with
  | nil => exact ⟨rfl, .nil⟩
  | cons hs hss =>
    obtain ⟨hscopes, hfound⟩ := Stmt.Matches.resolve hlexeme inFunction _ hs scopes
    simp only [Stmt.resolveAll]
    rw [← hscopes]
    obtain ⟨hscopes', hfound'⟩ := Stmt.Matches.resolve_all hlexeme inFunction _ hss _
    exact ⟨hscopes', List.rel_append hfound hfound'⟩
termination_by structural ss

lemma Stmt.Matches.resolve_optional (hlexeme : ∀ t t', tokens t t' → t.lexeme = t'.lexeme)
    (inFunction : Bool) (s : Option Stmt) {s' : Option Stmt}
    (h : Option.Rel (Stmt.Matches ids tokens) s s') (scopes : Scopes) :
    (Stmt.resolveOptional inFunction s scopes).1 = (Stmt.resolveOptional inFunction s' scopes).1 ∧
      List.Forall₂ (Finding.Matches ids tokens) (Stmt.resolveOptional inFunction s scopes).2
        (Stmt.resolveOptional inFunction s' scopes).2 := by
  cases h with
  | none => exact ⟨rfl, .nil⟩
  | some hs => exact Stmt.Matches.resolve hlexeme inFunction _ hs scopes
termination_by structural s

end

/-- The `bindingErrors` in programs that match correspond one by one. -/
lemma bindingErrors_matches (hlexeme : ∀ t t', tokens t t' → t.lexeme = t'.lexeme)
    {P P' : List Stmt} (h : List.Forall₂ (Stmt.Matches ids tokens) P P') :
    List.Forall₂ (fun e e' => e.fault = e'.fault ∧ tokens e.token e'.token)
      (bindingErrors (programFindings P)) (bindingErrors (programFindings P')) := by
  refine List.rel_filterMap ?_ (Stmt.Matches.resolve_all hlexeme false P h []).2
  rintro _ _ (_ | ⟨f, ht⟩)
  · exact .none
  · exact .some ⟨rfl, ht⟩

/-! ## Depths -/

mutual

/-- Nodes that correspond to each other have the same name, so only ids of one name (`hids`) have to
be related. -/
lemma Expr.Matches.relate (hlexeme : ∀ t t', tokens t t' → t.lexeme = t'.lexeme)
    (e : Expr) {e' : Expr} (h : e.Matches ids tokens e')
    (hids : ∀ o ∈ e.occurrences, ∀ o' ∈ e'.occurrences, o.name.lexeme = o'.name.lexeme →
      ids' o.id o'.id) : e.Matches ids' tokens e' := by
  cases h with
  | literal value => exact .literal value
  | grouping hinner => exact .grouping (Expr.Matches.relate hlexeme _ hinner hids)
  | unary hoperator hright => exact .unary hoperator (Expr.Matches.relate hlexeme _ hright hids)
  | binary hleft hoperator hright =>
    obtain ⟨hl, hr⟩ := forall_mem_of_append hids
    exact .binary (Expr.Matches.relate hlexeme _ hleft hl) hoperator
      (Expr.Matches.relate hlexeme _ hright hr)
  | logical hleft hoperator hright =>
    obtain ⟨hl, hr⟩ := forall_mem_of_append hids
    exact .logical (Expr.Matches.relate hlexeme _ hleft hl) hoperator
      (Expr.Matches.relate hlexeme _ hright hr)
  | read _ hname =>
    exact .read (hids _ (List.mem_singleton.mpr rfl) _ (List.mem_singleton.mpr rfl)
      (hlexeme _ _ hname)) hname
  | assign _ hname hvalue =>
    obtain ⟨hv, hn⟩ := forall_mem_of_append hids
    exact .assign (hn _ (List.mem_singleton.mpr rfl) _ (List.mem_singleton.mpr rfl)
      (hlexeme _ _ hname)) hname (Expr.Matches.relate hlexeme _ hvalue hv)
  | call hcallee hparen harguments =>
    obtain ⟨hc, ha⟩ := forall_mem_of_append hids
    exact .call (Expr.Matches.relate hlexeme _ hcallee hc) hparen
      (Expr.Matches.relate_all hlexeme _ harguments ha)
termination_by structural e

lemma Expr.Matches.relate_all (hlexeme : ∀ t t', tokens t t' → t.lexeme = t'.lexeme)
    (es : List Expr) {es' : List Expr} (h : List.Forall₂ (Expr.Matches ids tokens) es es')
    (hids : ∀ o ∈ Expr.allOccurrences es, ∀ o' ∈ Expr.allOccurrences es', o.name.lexeme =
      o'.name.lexeme →
      ids' o.id o'.id) : List.Forall₂ (Expr.Matches ids' tokens) es es' := by
  cases h with
  | nil => exact .nil
  | cons he hes =>
    obtain ⟨hfirst, hrest⟩ := forall_mem_of_append hids
    exact .cons (Expr.Matches.relate hlexeme _ he hfirst)
      (Expr.Matches.relate_all hlexeme _ hes hrest)
termination_by structural es

end

section

variable (hlexeme : ∀ t t', tokens t t' → t.lexeme = t'.lexeme) (origins origins' : List Origin)
  {scopes : Scopes} {initializing initializing' : Option Token}

include hlexeme

lemma Expr.Matches.relate_sites {e e' : Expr} (h : e.Matches ids tokens e')
    (hids : ∀ w ∈ e.sites origins scopes initializing,
      ∀ w' ∈ e'.sites origins' scopes initializing',
      w.depth? = w'.depth? → ids' w.id w'.id) : e.Matches ids' tokens e' := by
  refine h.relate hlexeme _ fun o ho o' ho' hname => ?_
  refine hids ⟨o, origins, scopes, initializing⟩ (List.mem_map_of_mem ho) ⟨o', origins', scopes,
    initializing'⟩ (List.mem_map_of_mem ho') ?_
  exact congrArg scopes.depth? hname

lemma Expr.Matches.relate_optionalSites {e e' : Option Expr}
    (h : Option.Rel (Expr.Matches ids tokens) e e')
    (hids : ∀ w ∈ Expr.optionalSites e origins scopes initializing,
      ∀ w' ∈ Expr.optionalSites e' origins' scopes initializing', w.depth? = w'.depth? →
      ids' w.id w'.id) : Option.Rel (Expr.Matches ids' tokens) e e' := by
  cases h with
  | none => exact .none
  | some he => exact .some (he.relate_sites hlexeme origins origins' hids)

end

mutual

/-- Trees that match also match in any relation `ids'` that holds between sites at the same
depth. -/
lemma Stmt.Matches.relate_sites (hlexeme : ∀ t t', tokens t t' → t.lexeme = t'.lexeme)
    (inFunction : Bool) (origins origins' : List Origin) (s : Stmt) {s' : Stmt}
    (h : s.Matches ids tokens s') (scopes : Scopes)
    (hids : ∀ w ∈ s.sites inFunction origins scopes, ∀ w' ∈ s'.sites inFunction origins' scopes,
      w.depth? = w'.depth? → ids' w.id w'.id) : s.Matches ids' tokens s' := by
  cases h with
  | expression he => exact .expression (he.relate_sites hlexeme origins origins' hids)
  | print he => exact .print (he.relate_sites hlexeme origins origins' hids)
  | var hname he =>
    simp only [Stmt.sites] at hids
    rw [← Scopes.declare_congr (hlexeme _ _ hname) scopes] at hids
    exact .var hname (Expr.Matches.relate_optionalSites hlexeme origins origins' he hids)
  | block hbody => exact .block (Stmt.Matches.relate_allSites hlexeme inFunction _ _ _ hbody _ hids)
  | branch hcondition hthen helse =>
    simp only [Stmt.sites] at hids
    -- The `else` branch is resolved in the scopes that the other one leaves.
    rw [← (hthen.resolve hlexeme inFunction _ scopes).1] at hids
    obtain ⟨hfront, he⟩ := forall_mem_of_append hids
    obtain ⟨hc, ht⟩ := forall_mem_of_append hfront
    exact .branch (hcondition.relate_sites hlexeme origins origins' hc)
      (Stmt.Matches.relate_sites hlexeme inFunction origins origins' _ hthen scopes ht)
      (Stmt.Matches.relate_optionalSites hlexeme inFunction origins origins' _ helse _ he)
  | loop hcondition hbody =>
    simp only [Stmt.sites] at hids
    obtain ⟨hc, hb⟩ := forall_mem_of_append hids
    exact .loop (hcondition.relate_sites hlexeme origins origins' hc)
      (Stmt.Matches.relate_sites hlexeme inFunction origins origins' _ hbody scopes hb)
  | @function name name' _ _ _ _ hname hparameters hbody =>
    simp only [Stmt.sites] at hids
    rw [← Scopes.bind_congr (hlexeme _ _ hname) scopes,
      ← Scopes.declareAll_congr hlexeme hparameters ([] :: scopes.bind name)] at hids
    exact .function hname hparameters (Stmt.Matches.relate_allSites hlexeme true _ _ _ hbody _ hids)
  | ret hkeyword he =>
    exact .ret hkeyword (Expr.Matches.relate_optionalSites hlexeme origins origins' he hids)
termination_by structural s

lemma Stmt.Matches.relate_allSites (hlexeme : ∀ t t', tokens t t' → t.lexeme = t'.lexeme)
    (inFunction : Bool) (origins origins' : List Origin) (ss : List Stmt) {ss' : List Stmt}
    (h : List.Forall₂ (Stmt.Matches ids tokens) ss ss') (scopes : Scopes)
    (hids : ∀ w ∈ Stmt.allSites inFunction origins ss scopes,
      ∀ w' ∈ Stmt.allSites inFunction origins' ss' scopes,
      w.depth? = w'.depth? → ids' w.id w'.id) : List.Forall₂ (Stmt.Matches ids' tokens) ss ss' := by
  cases h with
  | nil => exact .nil
  | cons hs hss =>
    simp only [Stmt.allSites] at hids
    rw [← (hs.resolve hlexeme inFunction _ scopes).1] at hids
    obtain ⟨hfirst, hrest⟩ := forall_mem_of_append hids
    exact .cons (Stmt.Matches.relate_sites hlexeme inFunction origins origins' _ hs scopes hfirst)
      (Stmt.Matches.relate_allSites hlexeme inFunction origins origins' _ hss _ hrest)
termination_by structural ss

lemma Stmt.Matches.relate_optionalSites (hlexeme : ∀ t t', tokens t t' → t.lexeme = t'.lexeme)
    (inFunction : Bool) (origins origins' : List Origin) (s : Option Stmt) {s' : Option Stmt}
    (h : Option.Rel (Stmt.Matches ids tokens) s s') (scopes : Scopes)
    (hids : ∀ w ∈ Stmt.optionalSites inFunction origins s scopes,
      ∀ w' ∈ Stmt.optionalSites inFunction origins' s' scopes, w.depth? = w'.depth? →
      ids' w.id w'.id) : Option.Rel (Stmt.Matches ids' tokens) s s' := by
  cases h with
  | none => exact .none
  | some hs =>
    exact .some (Stmt.Matches.relate_sites hlexeme inFunction origins origins' _ hs scopes hids)
termination_by structural s

end

end LoxLang
