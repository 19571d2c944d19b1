import LoxLang.Proofs.Scope.Matching
import LoxLang.Proofs.Tree.Renaming

/-!
# Resolving trees with local variables renamed

If the new name occurs nowhere in a tree, then the resolver finds in the renamed tree what it finds
in the first one: an occurrence with the new name is bound to the marked scope, and no other
occurrence is caught by it.  The scopes that are open at a place of the renamed tree are the ones
that are open in the first, with `x` renamed in the marked ones.
-/

namespace LoxLang

/-- The name `y` is the lexeme of no token of a tree that matches itself. -/
abbrev avoids (y : String) : Token → Token → Prop := fun t _ => t.lexeme ≠ y

/-- Tokens that are related by a renaming in some scope. -/
abbrev renamings (x y : String) : Token → Token → Prop := fun t t' => ∃ mark, t.Renamed x y mark t'

variable {x y z z' : String} {mark mark' : Bool} {marks : List Bool} {scope scope' : Scope}
  {scopes scopes' : Scopes} {name name' : Token} {depths : Depths}

/-! ## Scopes -/

/-- A scope and what it is in the renamed tree, where `x` has become `y` if the scope is marked; it
does not declare the new name `y`. -/
def Scope.Renamed (x y : String) (mark : Bool) : Scope → Scope → Prop :=
  List.Forall₂ fun entry entry' => Becomes x y mark entry.1 entry'.1 ∧ entry.1 ≠ y ∧
    entry'.2 = entry.2

inductive Scopes.Renamed (x y : String) : List Bool → Scopes → Scopes → Prop where
  | nil : Renamed x y [] [] []
  | cons {mark : Bool} {marks : List Bool} {scope scope' : Scope} {scopes scopes' : Scopes} :
      scope.Renamed x y mark scope' → Renamed x y marks scopes scopes' →
      Renamed x y (mark :: marks) (scope :: scopes) (scope' :: scopes')

/-- A name `z` that belongs to the scope is found under what it becomes there; one that belongs to
another scope is found in neither. -/
lemma Scope.Renamed.lookup_eq (h : scope.Renamed x y mark scope') (hz : Becomes x y mark' z z')
    (hzy : z ≠ y) (hmark : scope.lookup z = none ∨ mark' = mark) :
    scope'.lookup z' = scope.lookup z := by
  induction h with
  | nil => rfl
  | @cons entry entry' rest rest' hentry _ ih =>
    obtain ⟨w, ready⟩ := entry
    obtain ⟨w', ready'⟩ := entry'
    obtain ⟨hw, hwy, rfl⟩ := hentry
    rw [lookup_cons_ite] at hmark
    rw [lookup_cons_ite, lookup_cons_ite]
    by_cases hzw : z = w
    · rw [if_pos hzw] at hmark
      obtain rfl := hmark.resolve_left (Option.some_ne_none _)
      rw [if_pos hzw, if_pos ((hz.eq_iff hw).mpr hzw)]
    · rw [if_neg hzw] at hmark
      rw [if_neg hzw, if_neg fun hzw' => hzw (hz.eq_of_eq hw hzy hwy hzw')]
      exact ih hmark

lemma Scope.Renamed.declares_eq (h : scope.Renamed x y mark scope') (hz : Becomes x y mark' z z')
    (hzy : z ≠ y) (hmark : scope.lookup z = none ∨ mark' = mark) :
    scope'.declares z' = scope.declares z := by
  rw [Bool.eq_iff_iff, Scope.declares_iff, Scope.declares_iff, h.lookup_eq hz hzy hmark]

namespace Scopes.Renamed

/-- Whether the scope at a depth is marked, seen from inside a scope that does not declare `z`. -/
lemma mark_cons (h : ¬ scope.declares z = true) (mark : Bool) (marks : List Bool)
    (scopes : Scopes) :
    ((Scopes.depth? (scope :: scopes) z).any fun d => (mark :: marks).getD d false) =
      (scopes.depth? z).any fun d => marks.getD d false := by
  rw [Scopes.depth?_cons, if_neg h]
  cases scopes.depth? z <;> rfl

lemma mark_of_declares (h : scope.declares z = true) (mark : Bool) (marks : List Bool)
    (scopes : Scopes) :
    ((Scopes.depth? (scope :: scopes) z).any fun d => (mark :: marks).getD d false) = mark := by
  rw [Scopes.depth?_cons, if_pos h]
  rfl

lemma lookup_eq_none (h : ¬ scope.declares z = true) : scope.lookup z = none := by
  rwa [Scope.declares_iff, not_not] at h

/-- A name that becomes what the scope at its depth makes of it (`hz`) keeps its depth. -/
lemma depth?_eq (h : Scopes.Renamed x y marks scopes scopes') (hzy : z ≠ y)
    (hz : Becomes x y ((scopes.depth? z).any fun d => marks.getD d false) z z') :
    scopes'.depth? z' = scopes.depth? z := by
  induction h with
  | nil => rfl
  | @cons mark marks scope scope' scopes scopes' hscope hscopes ih =>
    rw [Scopes.depth?_cons, Scopes.depth?_cons]
    by_cases hdeclares : scope.declares z = true
    · rw [mark_of_declares hdeclares] at hz
      rw [hscope.declares_eq hz hzy (.inr rfl), if_pos hdeclares, if_pos hdeclares]
    · rw [mark_cons hdeclares] at hz
      rw [hscope.declares_eq hz hzy (.inl (lookup_eq_none hdeclares)), if_neg hdeclares,
        if_neg hdeclares, ih hz]

lemma pending_eq (h : Scopes.Renamed x y marks scopes scopes') (hzy : z ≠ y)
    (hz : Becomes x y ((scopes.depth? z).any fun d => marks.getD d false) z z') :
    scopes'.pending z' = scopes.pending z := by
  cases h with
  | nil => rfl
  | @cons mark marks scope scope' scopes scopes' hscope hscopes =>
    have hlookup : scope'.lookup z' = scope.lookup z := by
      by_cases hdeclares : scope.declares z = true
      · rw [mark_of_declares hdeclares] at hz
        exact hscope.lookup_eq hz hzy (.inr rfl)
      · exact hscope.lookup_eq hz hzy (.inl (lookup_eq_none hdeclares))
    rw [Scopes.pending, Scopes.pending, List.head?_cons, List.head?_cons, Option.any_some,
      Option.any_some, Scope.pending, Scope.pending, hlookup]

lemma inner (h : Scopes.Renamed x y marks scopes scopes') (mark : Bool) :
    Scopes.Renamed x y (mark :: marks) ([] :: scopes) ([] :: scopes') := .cons .nil h

lemma declare (h : Scopes.Renamed x y marks scopes scopes')
    (hname : name.Renamed x y (marks.headD false) name') (hy : name.lexeme ≠ y) :
    Scopes.Renamed x y marks (scopes.declare name).1 (scopes'.declare name').1 ∧
      List.Forall₂ (Finding.Matches Eq (renamings x y)) (scopes.declare name).2
        (scopes'.declare name').2 := by
  cases h with
  | nil => exact ⟨.nil, .nil⟩
  | @cons mark marks scope scope' scopes scopes' hscope hscopes =>
    rw [Scopes.declare, Scopes.declare, hscope.declares_eq hname.lexeme hy (.inr rfl)]
    split
    · exact ⟨.cons hscope hscopes, .cons (.fault _ ⟨_, hname⟩) .nil⟩
    · exact ⟨.cons (.cons ⟨hname.lexeme, hy, rfl⟩ hscope) hscopes, .nil⟩

lemma define (h : Scopes.Renamed x y marks scopes scopes')
    (hname : name.Renamed x y (marks.headD false) name') (hy : name.lexeme ≠ y) :
    Scopes.Renamed x y marks (scopes.define name) (scopes'.define name') := by
  cases h with
  | nil => exact .nil
  | cons hscope hscopes => exact .cons (.cons ⟨hname.lexeme, hy, rfl⟩ hscope) hscopes

lemma bind (h : Scopes.Renamed x y marks scopes scopes')
    (hname : name.Renamed x y (marks.headD false) name') (hy : name.lexeme ≠ y) :
    Scopes.Renamed x y marks (scopes.bind name) (scopes'.bind name') :=
  (h.declare hname hy).1.define hname hy

lemma declareAll {names names' : List Token}
    (hnames : List.Forall₂ (Token.Renamed x y mark) names names')
    (h : Scopes.Renamed x y (mark :: marks) scopes scopes') (hy : ∀ t ∈ names, t.lexeme ≠ y) :
    Scopes.Renamed x y (mark :: marks) (scopes.declareAll names).1 (scopes'.declareAll names').1 ∧
      List.Forall₂ (Finding.Matches Eq (renamings x y)) (scopes.declareAll names).2
        (scopes'.declareAll names').2 := by
  induction hnames generalizing scopes scopes' with
  | nil => exact ⟨h, .nil⟩
  | cons hname _ ih =>
    obtain ⟨hfirst, hrest⟩ := List.forall_mem_cons.mp hy
    obtain ⟨hscopes, hfound⟩ := ih (h.bind hname hfirst) hrest
    exact ⟨hscopes, List.rel_append (h.declare hname hfirst).2 hfound⟩

/-- A node keeps its depth, if the table `depths` has the depth of its name (`hid`). -/
lemma locate {id : NodeId} (h : Scopes.Renamed x y marks scopes scopes') (hy : name.lexeme ≠ y)
    (hid : depths.get? id = scopes.depth? name.lexeme)
    (hname : name.Renamed x y (depths.mark marks id) name') :
    scopes'.pending name'.lexeme = scopes.pending name.lexeme ∧
      List.Forall₂ (Finding.Matches Eq (renamings x y)) (scopes.locate id name)
        (scopes'.locate id name') := by
  have hlexeme := hname.lexeme
  rw [Depths.mark, hid] at hlexeme
  refine ⟨h.pending_eq hy hlexeme, ?_⟩
  rw [Scopes.locate, Scopes.locate, h.depth?_eq hy hlexeme]
  cases scopes.depth? name.lexeme with
  | none => exact .nil
  | some d => exact .cons (.depth d rfl) .nil

end Scopes.Renamed

/-! ## Findings -/

mutual

lemma Expr.Renamed.findings (hscopes : Scopes.Renamed x y marks scopes scopes')
    (e : Expr) {e' : Expr} (h : e.Renamed x y (depths.mark marks) e')
    (hy : e.Matches anyIds (avoids y) e)
    (hids : ∀ o ∈ e.occurrences, depths.get? o.id = scopes.depth? o.name.lexeme) :
    List.Forall₂ (Finding.Matches Eq (renamings x y)) (e.findings scopes)
      (e'.findings scopes') := by
  cases h with
  | literal value => exact .nil
  | grouping hinner =>
    cases hy with
    | grouping hy =>
      rw [Expr.findings, Expr.findings]
      exact Expr.Renamed.findings hscopes _ hinner hy hids
  | unary operator hright =>
    cases hy with
    | unary _ hy =>
      rw [Expr.findings, Expr.findings]
      exact Expr.Renamed.findings hscopes _ hright hy hids
  | binary operator hleft hright =>
    rw [Expr.occurrences, List.forall_mem_append] at hids
    cases hy with
    | binary hyl _ hyr =>
      exact List.rel_append (Expr.Renamed.findings hscopes _ hleft hyl hids.1)
        (Expr.Renamed.findings hscopes _ hright hyr hids.2)
  | logical operator hleft hright =>
    rw [Expr.occurrences, List.forall_mem_append] at hids
    cases hy with
    | logical hyl _ hyr =>
      exact List.rel_append (Expr.Renamed.findings hscopes _ hleft hyl hids.1)
        (Expr.Renamed.findings hscopes _ hright hyr hids.2)
  | read hname =>
    rw [Expr.occurrences, List.forall_mem_singleton] at hids
    cases hy with
    | read _ hy =>
      -- The new name is as ready as the old one, so there is a fault in both or in neither.
      obtain ⟨hpending, hfound⟩ := hscopes.locate hy hids hname
      refine List.rel_append ?_ hfound
      rw [hpending]
      split
      · exact .cons (.fault _ ⟨_, hname⟩) .nil
      · exact .nil
  | assign hname hvalue =>
    rw [Expr.occurrences, List.forall_mem_append, List.forall_mem_singleton] at hids
    cases hy with
    | assign _ hy hyv =>
      exact List.rel_append (Expr.Renamed.findings hscopes _ hvalue hyv hids.1)
        (hscopes.locate hy hids.2 hname).2
  | call paren hcallee harguments =>
    rw [Expr.occurrences, List.forall_mem_append] at hids
    cases hy with
    | call hyc _ hya =>
      exact List.rel_append (Expr.Renamed.findings hscopes _ hcallee hyc hids.1)
        (Expr.Renamed.findings_all hscopes _ harguments hya hids.2)
termination_by structural e

lemma Expr.Renamed.findings_all (hscopes : Scopes.Renamed x y marks scopes scopes') (es : List Expr)
    {es' : List Expr} (h : List.Forall₂ (Expr.Renamed x y (depths.mark marks)) es es')
    (hy : List.Forall₂ (Expr.Matches anyIds (avoids y)) es es)
    (hids : ∀ o ∈ Expr.allOccurrences es, depths.get? o.id = scopes.depth? o.name.lexeme) :
    List.Forall₂ (Finding.Matches Eq (renamings x y)) (Expr.allFindings scopes es)
      (Expr.allFindings scopes' es') := by
  cases h with
  | nil => exact .nil
  | cons he hes =>
    rw [Expr.allOccurrences, List.forall_mem_append] at hids
    cases hy with
    | cons hye hyes =>
      exact List.rel_append (Expr.Renamed.findings hscopes _ he hye hids.1)
        (Expr.Renamed.findings_all hscopes _ hes hyes hids.2)
termination_by structural es

end

/-- The table holds at the `sites` the depths that the resolver finds there. -/
def Depths.Hold (depths : Depths) (sites : List Site) : Prop :=
  ∀ w ∈ sites, depths.get? w.id = w.depth?

lemma Depths.hold_append {ws us : List Site} : depths.Hold (ws ++ us) ↔ depths.Hold ws ∧
    depths.Hold us :=
  List.forall_mem_append

lemma Expr.Renamed.findings_sites {origins : List Origin} {initializing : Option Token}
    {e e' : Expr} (hscopes : Scopes.Renamed x y marks scopes scopes')
    (h : e.Renamed x y (depths.mark marks) e') (hy : e.Matches anyIds (avoids y) e)
    (hids : depths.Hold (e.sites origins scopes initializing)) :
    List.Forall₂ (Finding.Matches Eq (renamings x y)) (e.findings scopes) (e'.findings scopes') :=
  h.findings hscopes e hy fun o ho => hids ⟨o, origins, scopes, initializing⟩
    (List.mem_map_of_mem ho)

lemma Expr.Renamed.findings_optional {origins : List Origin} {initializing : Option Token}
    {e e' : Option Expr} (hscopes : Scopes.Renamed x y marks scopes scopes')
    (h : Option.Rel (Expr.Renamed x y (depths.mark marks)) e e')
    (hy : Option.Rel (Expr.Matches anyIds (avoids y)) e e)
    (hids : depths.Hold (Expr.optionalSites e origins scopes initializing)) :
    List.Forall₂ (Finding.Matches Eq (renamings x y)) (Expr.optionalFindings scopes e)
      (Expr.optionalFindings scopes' e') := by
  cases h with
  | none => exact .nil
  | some he =>
    cases hy with
    | some hy => exact he.findings_sites hscopes hy hids

lemma forall_lexeme_ne {names : List Token} (h : List.Forall₂ (avoids y) names names) :
    ∀ t ∈ names, t.lexeme ≠ y :=
  List.forall₂_same.mp h

mutual

/-- The resolver finds corresponding things in the renamed tree, and leaves the scopes renamed.  The
new name `y` stands nowhere in the tree (`hy`). -/
lemma Stmt.Renamed.resolve (inFunction : Bool) (origins : List Origin) (s : Stmt) {s' : Stmt}
    {marks : List Bool} {scopes scopes' : Scopes} (h : s.Renamed x y depths marks s')
    (hscopes : Scopes.Renamed x y marks scopes scopes') (hy : s.Matches anyIds (avoids y) s)
    (hids : depths.Hold (s.sites inFunction origins scopes)) :
    Scopes.Renamed x y marks (s.resolve inFunction scopes).1 (s'.resolve inFunction scopes').1 ∧
      List.Forall₂ (Finding.Matches Eq (renamings x y)) (s.resolve inFunction scopes).2
        (s'.resolve inFunction scopes').2 := by
  cases h with
  | expression he =>
    cases hy with
    | expression hy => exact ⟨hscopes, he.findings_sites hscopes hy hids⟩
  | print he =>
    cases hy with
    | print hy => exact ⟨hscopes, he.findings_sites hscopes hy hids⟩
  | var hname he =>
    cases hy with
    | var hyn hye =>
      obtain ⟨hdeclared, hfound⟩ := hscopes.declare hname hyn
      exact ⟨hdeclared.define hname hyn,
        List.rel_append hfound (Expr.Renamed.findings_optional hdeclared he hye hids)⟩
  | block mark hbody =>
    cases hy with
    | block hy =>
      exact ⟨hscopes, (Stmt.AllRenamed.resolve inFunction _ _ hbody (hscopes.inner mark) hy hids).2⟩
  | branch hcondition hthen helse =>
    simp only [Stmt.sites, Depths.hold_append] at hids
    cases hy with
    | branch hyc hyt hye =>
      obtain ⟨hscopes₁, hfound₁⟩ :=
        Stmt.Renamed.resolve inFunction origins _ hthen hscopes hyt hids.1.2
      obtain ⟨hscopes₂, hfound₂⟩ :=
        Stmt.OptionalRenamed.resolve inFunction origins _ helse hscopes₁ hye hids.2
      exact ⟨hscopes₂,
        List.rel_append (List.rel_append (hcondition.findings_sites hscopes hyc hids.1.1) hfound₁)
          hfound₂⟩
  | loop hcondition hbody =>
    simp only [Stmt.sites, Depths.hold_append] at hids
    cases hy with
    | loop hyc hyb =>
      obtain ⟨hscopes₁, hfound⟩ :=
        Stmt.Renamed.resolve inFunction origins _ hbody hscopes hyb hids.2
      exact ⟨hscopes₁, List.rel_append (hcondition.findings_sites hscopes hyc hids.1) hfound⟩
  | @function _ mark name _ _ _ _ hname hparameters hbody =>
    cases hy with
    | function hyn hyp hyb =>
      -- A function keeps its name, so in a marked scope it is not called `x`.
      have hkept : name.Renamed x y (marks.headD false) name := ⟨hname, rfl⟩
      have hbound := hscopes.bind hkept hyn
      obtain ⟨hinner, hfound⟩ :=
        Scopes.Renamed.declareAll hparameters (hbound.inner mark) (forall_lexeme_ne hyp)
      exact ⟨hbound, List.rel_append (List.rel_append (hscopes.declare hkept hyn).2 hfound)
        (Stmt.AllRenamed.resolve true _ _ hbody hinner hyb hids).2⟩
  | ret keyword he =>
    cases hy with
    | ret _ hy =>
      refine ⟨hscopes, List.rel_append ?_ (Expr.Renamed.findings_optional hscopes he hy hids)⟩
      cases inFunction with
      | true => exact .nil
      | false => exact .cons (.fault _ ⟨false, .refl rfl keyword⟩) .nil
termination_by structural s

lemma Stmt.AllRenamed.resolve (inFunction : Bool) (origins : List Origin) (ss : List Stmt)
    {ss' : List Stmt} {marks : List Bool} {scopes scopes' : Scopes}
    (h : Stmt.AllRenamed x y depths marks ss ss')
    (hscopes : Scopes.Renamed x y marks scopes scopes')
    (hy : List.Forall₂ (Stmt.Matches anyIds (avoids y)) ss ss)
    (hids : depths.Hold (Stmt.allSites inFunction origins ss scopes)) :
    Scopes.Renamed x y marks (Stmt.resolveAll inFunction ss scopes).1
      (Stmt.resolveAll inFunction ss' scopes').1 ∧
      List.Forall₂ (Finding.Matches Eq (renamings x y)) (Stmt.resolveAll inFunction ss scopes).2
        (Stmt.resolveAll inFunction ss' scopes').2 := by
  cases h with
  | nil => exact ⟨hscopes, .nil⟩
  | cons hs hss =>
    simp only [Stmt.allSites, Depths.hold_append] at hids
    cases hy with
    | cons hys hyss =>
      obtain ⟨hscopes₁, hfound₁⟩ := Stmt.Renamed.resolve inFunction origins _ hs hscopes hys hids.1
      obtain ⟨hscopes₂, hfound₂⟩ :=
        Stmt.AllRenamed.resolve inFunction origins _ hss hscopes₁ hyss hids.2
      exact ⟨hscopes₂, List.rel_append hfound₁ hfound₂⟩
termination_by structural ss

lemma Stmt.OptionalRenamed.resolve (inFunction : Bool) (origins : List Origin) (s : Option Stmt)
    {s' : Option Stmt} {marks : List Bool} {scopes scopes' : Scopes}
    (h : Stmt.OptionalRenamed x y depths marks s s')
    (hscopes : Scopes.Renamed x y marks scopes scopes')
    (hy : Option.Rel (Stmt.Matches anyIds (avoids y)) s s)
    (hids : depths.Hold (Stmt.optionalSites inFunction origins s scopes)) :
    Scopes.Renamed x y marks (Stmt.resolveOptional inFunction s scopes).1
      (Stmt.resolveOptional inFunction s' scopes').1 ∧
      List.Forall₂ (Finding.Matches Eq (renamings x y)) (Stmt.resolveOptional inFunction s scopes).2
        (Stmt.resolveOptional inFunction s' scopes').2 := by
  cases h with
  | none => exact ⟨hscopes, .nil⟩
  | some hs =>
    cases hy with
    | some hys => exact Stmt.Renamed.resolve inFunction origins _ hs hscopes hys hids
termination_by structural s

end

/-- Findings that correspond are the same if none of them is a fault: they are depths. -/
lemma eq_of_faultless {found found' : List Finding} {tokens : Token → Token → Prop}
    (h : List.Forall₂ (Finding.Matches Eq tokens) found found') (hfound : Faultless found) :
    found' = found := by
  induction h with
  | nil => rfl
  | cons hf _ ih =>
    obtain ⟨hfirst, hrest⟩ := List.forall_mem_cons.mp hfound
    cases hf with
    | depth d hid => rw [hid, ih hrest]
    | fault f ht => exact absurd hfirst (Option.some_ne_none _)

/-- In a program without faults the `programFindings` are the same before and after the renaming. -/
lemma programFindings_of_renamed {P P' : List Stmt} (h : Stmt.AllRenamed x y depths [] P P')
    (hy : List.Forall₂ (Stmt.Matches anyIds (avoids y)) P P) (hids : depths.Hold (programSites P))
    (hfaultless : Faultless (programFindings P)) : programFindings P' = programFindings P :=
  eq_of_faultless (Stmt.AllRenamed.resolve false [] P h .nil hy hids).2 hfaultless

end LoxLang
