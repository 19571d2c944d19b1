import LoxLang.Proofs.Scope.Scopes
import LoxLang.Proofs.Tree.Occurrences
import LoxLang.Proofs.Tree.Shape

/-!
# Where variables occur

A site is an occurrence of a variable together with what surrounds it when the resolver comes to it:
the blocks and functions it lies in, the scopes that are open, and the variable declaration whose
initializer it lies in.  The sites of a program are listed in the order of the resolver's walk, and
everything the resolver finds out about variables is found at a site.
-/

namespace LoxLang

/-- The scopes after a statement `s`: the name that it declares, if any, is bound. -/
def Stmt.after (s : Stmt) (scopes : Scopes) : Scopes := s.declared?.elim scopes scopes.bind

lemma Stmt.after_of_declared?_eq_none {s : Stmt} (h : s.declared? = none) (scopes : Scopes) :
    s.after scopes = scopes := by
  rw [Stmt.after, h]
  rfl

mutual

/-- The resolver leaves the scopes as they are, but for the name that a declaration binds.  The
statement has to be `Shaped`: a branch or a loop declares nothing outside a block. -/
lemma Stmt.resolve_fst (inFunction : Bool) (s : Stmt) (scopes : Scopes) (h : s.Shaped) :
    (s.resolve inFunction scopes).1 = s.after scopes := by
  cases s with
  | expression e | print e | var name initializer | block body | function name parameters body
  | ret keyword value =>
    simp only [Stmt.resolve]
    rfl
  | branch condition thenBranch elseBranch =>
    rw [Stmt.Shaped] at h
    simp only [Stmt.resolve]
    rw [Stmt.resolve_fst inFunction thenBranch scopes h.2.1, Stmt.after_of_declared?_eq_none h.1]
    exact Stmt.resolveOptional_fst inFunction elseBranch scopes h.2.2
  | loop condition body =>
    rw [Stmt.Shaped] at h
    simp only [Stmt.resolve]
    rw [Stmt.resolve_fst inFunction body scopes h.2, Stmt.after_of_declared?_eq_none h.1]
    rfl

lemma Stmt.resolveOptional_fst (inFunction : Bool) (s : Option Stmt) (scopes : Scopes)
    (h : Stmt.OptionalShaped s) : (Stmt.resolveOptional inFunction s scopes).1 = scopes := by
  cases s with
  | none => rfl
  | some s =>
    rw [Stmt.OptionalShaped] at h
    rw [Stmt.resolveOptional, Stmt.resolve_fst inFunction s scopes h.2,
      Stmt.after_of_declared?_eq_none h.1]

end

lemma Stmt.resolveAll_append (inFunction : Bool) (ss rest : List Stmt) (scopes : Scopes) :
    (Stmt.resolveAll inFunction (ss ++ rest) scopes).2 =
      (Stmt.resolveAll inFunction ss scopes).2 ++
        (Stmt.resolveAll inFunction rest (Stmt.resolveAll inFunction ss scopes).1).2 := by
  induction ss generalizing scopes with
  | nil => rfl
  | cons s ss ih =>
    simp only [List.cons_append, Stmt.resolveAll, List.append_assoc]
    rw [ih]

/-- Global names are in no scope, so `after` a statement no scope is open either. -/
lemma Stmt.after_nil_scopes (s : Stmt) : s.after [] = [] := by
  rw [Stmt.after]
  cases s.declared? <;> rfl

lemma Stmt.resolveAll_nil_scopes (inFunction : Bool) (ss : List Stmt) (h : Stmt.AllShaped ss) :
    (Stmt.resolveAll inFunction ss []).1 = [] := by
  induction ss with
  | nil => rfl
  | cons s ss ih =>
    simp only [Stmt.resolveAll]
    rw [Stmt.resolve_fst inFunction s [] h.1, s.after_nil_scopes]
    exact ih h.2

/-! ## Sites -/

/-- What opens a scope: a `block`, or the call of a `function`. -/
inductive Origin where
  | block (body : List Stmt)
  | function (f : Function)

namespace Origin

def parameters : Origin → List Token
  | block _ => []
  | function f => f.parameters

def body : Origin → List Stmt
  | block body => body
  | function f => f.body

end Origin

structure Site where
  occurrence : Occurrence
  /-- What opened the scopes around the occurrence, the innermost first. -/
  origins : List Origin
  /-- The scopes that are open when the resolver comes to the occurrence. -/
  scopes : Scopes
  /-- The variable in whose initializer the occurrence lies. -/
  initializing : Option Token

/-- The sites of an expression `e`; all of them are surrounded alike. -/
def Expr.sites (e : Expr) (origins : List Origin) (scopes : Scopes) (initializing : Option Token) :
    List Site :=
  e.occurrences.map fun occurrence => ⟨occurrence, origins, scopes, initializing⟩

/-- The `sites` of an expression that may be absent. -/
def Expr.optionalSites (e : Option Expr) (origins : List Origin) (scopes : Scopes)
    (initializing : Option Token) : List Site :=
  e.elim [] fun e => e.sites origins scopes initializing

mutual

/-- The sites of a statement inside the scopes that are open before it. -/
def Stmt.sites (inFunction : Bool) (origins : List Origin) : Stmt → Scopes → List Site
  | .expression e, scopes => e.sites origins scopes none
  | .print e, scopes => e.sites origins scopes none
  | .var name initializer, scopes =>
    Expr.optionalSites initializer origins (scopes.declare name).1 (some name)
  | .block body, scopes => Stmt.allSites inFunction (.block body :: origins) body ([] :: scopes)
  | .branch condition thenBranch elseBranch, scopes =>
    condition.sites origins scopes none ++ thenBranch.sites inFunction origins scopes
      ++ Stmt.optionalSites inFunction origins elseBranch (thenBranch.resolve inFunction scopes).1
  | .loop condition body, scopes =>
    condition.sites origins scopes none ++ body.sites inFunction origins scopes
  | .function name parameters body, scopes =>
    Stmt.allSites true (.function ⟨name, parameters, body⟩ :: origins) body
      (Scopes.declareAll ([] :: scopes.bind name) parameters).1
  | .ret _ value, scopes => Expr.optionalSites value origins scopes none

def Stmt.allSites (inFunction : Bool) (origins : List Origin) : List Stmt → Scopes → List Site
  | [], _ => []
  | s :: rest, scopes =>
    s.sites inFunction origins scopes ++
      Stmt.allSites inFunction origins rest (s.resolve inFunction scopes).1

def Stmt.optionalSites (inFunction : Bool) (origins : List Origin) :
    Option Stmt → Scopes → List Site
  | none, _ => []
  | some s, scopes => s.sites inFunction origins scopes

end

/-- The sites of the body of a function `f` that is declared inside the given `scopes`. -/
def Function.sites (f : Function) (origins : List Origin) (scopes : Scopes) : List Site :=
  Stmt.allSites true (.function f :: origins) f.body
    (Scopes.declareAll ([] :: scopes) f.parameters).1

/-- The sites of a whole program, which begins with no scope open. -/
def programSites (statements : List Stmt) : List Site := Stmt.allSites false [] statements []

namespace Site

abbrev id (w : Site) : NodeId := w.occurrence.id

abbrev name (w : Site) : Token := w.occurrence.name

/-- The depth in its `scopes` at which the resolver finds the variable. -/
def depth? (w : Site) : Option ℕ := w.scopes.depth? w.name.lexeme

/-- Whether the site lies in the initializer of its own, local variable. -/
def inOwnInitializer (w : Site) : Prop :=
  w.scopes ≠ [] ∧ ∃ name ∈ w.initializing, name.lexeme = w.name.lexeme

/-- The entry that the resolver makes into the depth table: the id and the `depth?`. -/
def entry? (w : Site) : Option (NodeId × ℕ) := w.depth?.map fun depth => (w.id, depth)

end Site

/-! ## Occurrences and sites -/

lemma Expr.map_occurrence_sites (e : Expr) (origins : List Origin) (scopes : Scopes)
    (initializing : Option Token) :
    (e.sites origins scopes initializing).map Site.occurrence = e.occurrences := by
  simp [Expr.sites, Function.comp_def]

lemma Expr.map_occurrence_optionalSites (e : Option Expr) (origins : List Origin) (scopes : Scopes)
    (initializing : Option Token) :
    (Expr.optionalSites e origins scopes initializing).map Site.occurrence =
      e.elim [] Expr.occurrences := by
  cases e with
  | none => rfl
  | some e => exact e.map_occurrence_sites origins scopes initializing

mutual

lemma Stmt.map_occurrence_sites (inFunction : Bool) (origins : List Origin) (s : Stmt)
    (scopes : Scopes) :
    (s.sites inFunction origins scopes).map Site.occurrence = s.occurrences := by
  cases s with
  | expression e | print e => exact e.map_occurrence_sites origins scopes none
  | var name initializer => exact Expr.map_occurrence_optionalSites initializer origins _ _
  | block body => exact Stmt.map_occurrence_allSites inFunction _ body _
  | branch condition thenBranch elseBranch =>
    rw [Stmt.sites, List.map_append, List.map_append, condition.map_occurrence_sites,
      Stmt.map_occurrence_sites inFunction origins thenBranch scopes,
      Stmt.map_occurrence_optionalSites inFunction origins elseBranch, Stmt.occurrences]
  | loop condition body =>
    rw [Stmt.sites, List.map_append, condition.map_occurrence_sites,
      Stmt.map_occurrence_sites inFunction origins body scopes, Stmt.occurrences]
  | function name parameters body => exact Stmt.map_occurrence_allSites true _ body _
  | ret keyword value => exact Expr.map_occurrence_optionalSites value origins scopes none

lemma Stmt.map_occurrence_allSites (inFunction : Bool) (origins : List Origin) (ss : List Stmt)
    (scopes : Scopes) :
    (Stmt.allSites inFunction origins ss scopes).map Site.occurrence = Stmt.allOccurrences ss := by
  cases ss with
  | nil => rfl
  | cons s rest =>
    rw [Stmt.allSites, List.map_append, Stmt.map_occurrence_sites inFunction origins s scopes,
      Stmt.map_occurrence_allSites inFunction origins rest, Stmt.allOccurrences]

lemma Stmt.map_occurrence_optionalSites (inFunction : Bool) (origins : List Origin)
    (s : Option Stmt) (scopes : Scopes) :
    (Stmt.optionalSites inFunction origins s scopes).map Site.occurrence =
      Stmt.optionalOccurrences s := by
  cases s with
  | none => rfl
  | some s => exact Stmt.map_occurrence_sites inFunction origins s scopes

end

lemma Stmt.allSites_append (inFunction : Bool) (origins : List Origin) (ss rest : List Stmt)
    (scopes : Scopes) :
    Stmt.allSites inFunction origins (ss ++ rest) scopes =
      Stmt.allSites inFunction origins ss scopes
        ++ Stmt.allSites inFunction origins rest (Stmt.resolveAll inFunction ss scopes).1 := by
  induction ss generalizing scopes with
  | nil => rfl
  | cons s ss ih =>
    rw [List.cons_append, Stmt.allSites, ih, Stmt.allSites, List.append_assoc]
    rfl

/-- What stands in a program stands there by itself, for no scope is open between its statements:
`programFindings` and `programSites` go through `++`. -/
lemma program_append {ss rest : List Stmt} (h : Stmt.AllShaped (ss ++ rest)) :
    programFindings (ss ++ rest) = programFindings ss ++ programFindings rest ∧
      programSites (ss ++ rest) = programSites ss ++ programSites rest := by
  have hss : Stmt.AllShaped ss :=
    (Stmt.allShaped_iff ss).mpr fun s hs =>
      (Stmt.allShaped_iff _).mp h s (List.mem_append_left _ hs)
  rw [programFindings, Stmt.resolveAll_append, programSites, Stmt.allSites_append,
    Stmt.resolveAll_nil_scopes false ss hss]
  exact ⟨rfl, rfl⟩

/-! ## The depth table -/

/-- The entry into the depth table that a finding is; a `fault` is none. -/
def Finding.entry? : Finding → Option (NodeId × ℕ)
  | .depth id distance => some (id, distance)
  | .fault _ => none

lemma Scopes.filterMap_locate (scopes : Scopes) (id : NodeId) (name : Token) :
    (scopes.locate id name).filterMap Finding.entry? =
      ((scopes.depth? name.lexeme).map fun depth => (id, depth)).toList := by
  cases h : scopes.depth? name.lexeme <;> simp [Scopes.locate, h, Finding.entry?]

lemma Scopes.filterMap_declare (scopes : Scopes) (name : Token) :
    (scopes.declare name).2.filterMap Finding.entry? = [] := by
  cases scopes with
  | nil => rfl
  | cons scope outer =>
    rw [Scopes.declare]
    split <;> rfl

lemma Scopes.filterMap_declareAll (scopes : Scopes) (names : List Token) :
    (scopes.declareAll names).2.filterMap Finding.entry? = [] := by
  induction names generalizing scopes with
  | nil => rfl
  | cons name rest ih =>
    simp only [Scopes.declareAll, List.filterMap_append, Scopes.filterMap_declare, ih,
      List.append_nil]

/-- What is found at an occurrence `o` inside the given `scopes`. -/
def Occurrence.findings (scopes : Scopes) (o : Occurrence) : List Finding :=
  (if o.access = .get ∧ scopes.pending o.name.lexeme then [.fault ⟨.ownInitializer, o.name⟩]
    else []) ++ scopes.locate o.id o.name

mutual

/-- Everything that is found in an expression is found at its `occurrences`. -/
lemma Expr.findings_eq_flatMap (scopes : Scopes) (e : Expr) :
    e.findings scopes = e.occurrences.flatMap (Occurrence.findings scopes) := by
  cases e with
  | literal value => rfl
  | grouping inner => exact inner.findings_eq_flatMap scopes
  | unary operator right => exact right.findings_eq_flatMap scopes
  | binary left operator right | logical left operator right =>
    rw [Expr.findings, left.findings_eq_flatMap scopes, right.findings_eq_flatMap scopes,
      Expr.occurrences, List.flatMap_append]
  | read id name => simp [Expr.findings, Expr.occurrences, Occurrence.findings]
  | assign id name value =>
    rw [Expr.findings, value.findings_eq_flatMap scopes, Expr.occurrences, List.flatMap_append]
    simp [Occurrence.findings]
  | call callee paren arguments =>
    rw [Expr.findings, callee.findings_eq_flatMap scopes,
      Expr.allFindings_eq_flatMap scopes arguments, Expr.occurrences, List.flatMap_append]

lemma Expr.allFindings_eq_flatMap (scopes : Scopes) (es : List Expr) :
    Expr.allFindings scopes es = (Expr.allOccurrences es).flatMap (Occurrence.findings scopes) := by
  cases es with
  | nil => rfl
  | cons e rest =>
    rw [Expr.allFindings, e.findings_eq_flatMap scopes, Expr.allFindings_eq_flatMap scopes rest,
      Expr.allOccurrences, List.flatMap_append]

end

lemma Occurrence.filterMap_findings (scopes : Scopes) (o : Occurrence) :
    (o.findings scopes).filterMap Finding.entry? =
      ((scopes.depth? o.name.lexeme).map fun depth => (o.id, depth)).toList := by
  rw [Occurrence.findings, List.filterMap_append, Scopes.filterMap_locate]
  split <;> rfl

lemma Expr.filterMap_sites (e : Expr) (origins : List Origin) (scopes : Scopes)
    (initializing : Option Token) :
    (e.sites origins scopes initializing).filterMap Site.entry? =
      (e.findings scopes).filterMap Finding.entry? := by
  rw [Expr.findings_eq_flatMap, List.filterMap_flatMap, Expr.sites, List.filterMap_map,
    List.filterMap_eq_flatMap_toList]
  simp only [Occurrence.filterMap_findings]
  rfl

lemma Expr.filterMap_optionalSites (e : Option Expr) (origins : List Origin) (scopes : Scopes)
    (initializing : Option Token) :
    (Expr.optionalSites e origins scopes initializing).filterMap Site.entry? =
      (Expr.optionalFindings scopes e).filterMap Finding.entry? := by
  cases e with
  | none => rfl
  | some e => exact e.filterMap_sites origins scopes initializing

mutual

/-- The depths that the resolver finds are the ones at the `sites`. -/
lemma Stmt.filterMap_resolve (inFunction : Bool) (origins : List Origin) (s : Stmt)
    (scopes : Scopes) :
    (s.resolve inFunction scopes).2.filterMap Finding.entry? =
      (s.sites inFunction origins scopes).filterMap Site.entry? := by
  cases s with
  | expression e | print e => exact (e.filterMap_sites origins scopes none).symm
  | var name initializer =>
    simp only [Stmt.resolve, List.filterMap_append, Scopes.filterMap_declare, List.nil_append]
    exact (Expr.filterMap_optionalSites initializer origins _ _).symm
  | block body => exact Stmt.filterMap_resolveAll inFunction _ body _
  | branch condition thenBranch elseBranch =>
    simp only [Stmt.resolve, List.filterMap_append, Stmt.sites, Expr.filterMap_sites]
    rw [Stmt.filterMap_resolve inFunction origins thenBranch scopes,
      Stmt.filterMap_resolveOptional inFunction origins elseBranch]
  | loop condition body =>
    simp only [Stmt.resolve, List.filterMap_append, Stmt.sites, Expr.filterMap_sites]
    rw [Stmt.filterMap_resolve inFunction origins body scopes]
  | function name parameters body =>
    simp only [Stmt.resolve, List.filterMap_append, Scopes.filterMap_declare,
      Scopes.filterMap_declareAll, List.nil_append]
    exact Stmt.filterMap_resolveAll true _ body _
  | ret keyword value =>
    -- A `return` in the wrong place is a fault, and so makes no entry.
    have hkeyword :
        (if inFunction then [] else [Finding.fault ⟨.returnOutsideFunction, keyword⟩]).filterMap
        Finding.entry? = [] := by cases inFunction <;> rfl
    simp only [Stmt.resolve, List.filterMap_append, hkeyword, List.nil_append]
    exact (Expr.filterMap_optionalSites value origins scopes none).symm

lemma Stmt.filterMap_resolveAll (inFunction : Bool) (origins : List Origin) (ss : List Stmt)
    (scopes : Scopes) :
    (Stmt.resolveAll inFunction ss scopes).2.filterMap Finding.entry? =
      (Stmt.allSites inFunction origins ss scopes).filterMap Site.entry? := by
  cases ss with
  | nil => rfl
  | cons s rest =>
    simp only [Stmt.resolveAll, List.filterMap_append, Stmt.allSites]
    rw [Stmt.filterMap_resolve inFunction origins s scopes,
      Stmt.filterMap_resolveAll inFunction origins rest]

lemma Stmt.filterMap_resolveOptional (inFunction : Bool) (origins : List Origin) (s : Option Stmt)
    (scopes : Scopes) :
    (Stmt.resolveOptional inFunction s scopes).2.filterMap Finding.entry? =
      (Stmt.optionalSites inFunction origins s scopes).filterMap Site.entry? := by
  cases s with
  | none => rfl
  | some s => exact Stmt.filterMap_resolve inFunction origins s scopes

end

/-- What the table holds after findings have been noted in it, `noteAll`: the last entry for an id
counts, and the old one if there is none. -/
lemma Depths.get?_noteAll (t : Depths) (found : List Finding) (id : NodeId) :
    (t.noteAll found).get? id =
      ((((found.filterMap Finding.entry?).reverse.find? fun entry => entry.1 = id).map Prod.snd).or
        (t.get? id)) := by
  induction found generalizing t with
  | nil => simp [Depths.noteAll]
  | cons f rest ih =>
    cases f with
    | depth key distance =>
      have hstep : t.noteAll (.depth key distance :: rest) = (t.note key distance).noteAll rest :=
        rfl
      rw [hstep, ih, Depths.get?_note]
      simp only [List.filterMap_cons, Finding.entry?, List.reverse_cons, List.find?_append]
      cases (rest.filterMap Finding.entry?).reverse.find? fun entry => entry.1 = id with
      | some entry => rfl
      | none => by_cases h : key = id <;> simp [h]
    | fault e => exact ih t

/-- An `id` that no site has keeps its entry. -/
lemma Depths.get?_noteAll_of_notMem {t : Depths} {found : List Finding} {sites : List Site}
    {id : NodeId} (hfound : found.filterMap Finding.entry? = sites.filterMap Site.entry?)
    (hid : ∀ w ∈ sites, w.id ≠ id) : (t.noteAll found).get? id = t.get? id := by
  rw [Depths.get?_noteAll, hfound]
  have hnone : ((sites.filterMap Site.entry?).reverse.find? fun entry => entry.1 = id) = none := by
    rw [List.find?_eq_none]
    intro entry hentry
    obtain ⟨w, hw, hwentry⟩ := List.mem_filterMap.mp (List.mem_reverse.mp hentry)
    obtain ⟨distance, -, rfl⟩ := Option.map_eq_some_iff.mp hwentry
    simpa using hid w hw
  rw [hnone]
  rfl

/-- The entry of a node `w` is its depth, if no other node has its id (`hnodup`) and there was no
entry before. -/
lemma Depths.get?_noteAll_of_mem {α : Type} (key : α → NodeId) (depth? : α → Option ℕ) {t : Depths}
    {found : List Finding} {nodes : List α} {w : α}
    (hfound : found.filterMap Finding.entry? =
      nodes.filterMap fun w => (depth? w).map fun depth => (key w, depth))
    (hnodup : (nodes.map key).Nodup) (hw : w ∈ nodes) (ht : t.get? (key w) = none) :
    (t.noteAll found).get? (key w) = depth? w := by
  rw [Depths.get?_noteAll, hfound]
  have hsame : ∀ w' ∈ nodes, key w' = key w → w' = w :=
    fun w' hw' hkey => List.inj_on_of_nodup_map hnodup hw' hw hkey
  -- Of all entries, the ones under the key of `w` are made at `w`.
  have hentries : ∀ entry ∈ (nodes.filterMap fun w => (depth? w).map fun depth =>
      (key w, depth)).reverse, entry.1 = key w → depth? w = some entry.2 := by
    intro entry hentry hkey
    obtain ⟨w', hw', hentry'⟩ := List.mem_filterMap.mp (List.mem_reverse.mp hentry)
    obtain ⟨distance, hdistance, rfl⟩ := Option.map_eq_some_iff.mp hentry'
    rwa [hsame w' hw' hkey] at hdistance
  cases hdepth : depth? w with
  | none =>
    rw [List.find?_eq_none.mpr, ht]
    · rfl
    · intro entry hentry
      simp only [decide_eq_true_eq]
      intro hkey
      exact absurd (hdepth.symm.trans (hentries entry hentry hkey)) (by simp)
  | some distance =>
    have hmem : (key w, distance) ∈ (nodes.filterMap fun w => (depth? w).map fun depth =>
        (key w, depth)).reverse :=
      List.mem_reverse.mpr (List.mem_filterMap.mpr ⟨w, hw, by simp [hdepth]⟩)
    obtain ⟨entry, hentry⟩ := Option.isSome_iff_exists.mp
      (List.find?_isSome (p := fun entry : NodeId × ℕ => entry.1 = key w).mpr ⟨_, hmem, by simp⟩)
    have hkey : entry.1 = key w := by simpa using List.find?_some hentry
    have hdistance := hentries entry (List.mem_of_find?_eq_some hentry) hkey
    rw [hentry, ← hdepth, hdistance]
    rfl

/-! ## Sites of programs in order -/

/-- What holds of every site of a program in which the resolver finds no fault. -/
structure Site.Sound (w : Site) : Prop where
  /-- No variable is read in its own initializer. -/
  readable : w.occurrence.access = .get → w.scopes.pending w.name.lexeme = false
  /-- Only the variable in whose initializer the site lies is not ready yet. -/
  pending_iff : ∀ x, w.scopes.pending x = true ↔ w.scopes ≠ [] ∧
    ∃ name ∈ w.initializing, name.lexeme = x
  length : w.origins.length = w.scopes.length

/-- Nothing in what was `found` is a fault. -/
def Faultless (found : List Finding) : Prop := ∀ f ∈ found, f.fault? = none

lemma faultless_append {xs ys : List Finding} :
    Faultless (xs ++ ys) ↔ Faultless xs ∧ Faultless ys :=
  List.forall_mem_append

lemma faultless_iff_bindingErrors {found : List Finding} :
    Faultless found ↔ bindingErrors found = [] := by
  rw [bindingErrors, List.filterMap_eq_nil_iff, Faultless]

/-- Where an expression is `Faultless`, it reads only names that are ready. -/
lemma Expr.not_pending_of_faultless (scopes : Scopes) (e : Expr)
    (h : Faultless (e.findings scopes)) :
    ∀ o ∈ e.occurrences, o.access = .get → scopes.pending o.name.lexeme = false := by
  intro o ho haccess
  by_contra hpending
  have hfault : Finding.fault ⟨.ownInitializer, o.name⟩ ∈ e.findings scopes := by
    rw [e.findings_eq_flatMap]
    refine List.mem_flatMap.mpr ⟨o, ho, List.mem_append_left _ ?_⟩
    rw [if_pos ⟨haccess, by simpa using hpending⟩]
    exact List.mem_singleton.mpr rfl
  exact absurd (h _ hfault) (by simp [Finding.fault?])

lemma Scopes.Settled.pending_iff {scopes : Scopes} (h : scopes.Settled) (x : String) :
    scopes.pending x = true ↔ scopes ≠ [] ∧ ∃ name ∈ (none : Option Token), name.lexeme = x := by
  cases scopes with
  | nil => simp [Scopes.pending]
  | cons scope outer =>
    have hscope := h scope (by simp) x
    simp [Scopes.pending, Scope.pending_iff, hscope]

/-- In scopes that are `Settled`, a name that has just been declared is the only one that is not
ready. -/
lemma Scopes.Settled.pending_declare_iff {scopes : Scopes} {name : Token} (h : scopes.Settled)
    (hfound : Faultless (scopes.declare name).2) (x : String) :
    (scopes.declare name).1.pending x = true ↔
      (scopes.declare name).1 ≠ [] ∧ ∃ name' ∈ some name, name'.lexeme = x := by
  cases scopes with
  | nil => simp [Scopes.pending]
  | cons scope outer =>
    have hnew : scope.declares name.lexeme = false := by
      by_contra hold
      have hold : scope.declares name.lexeme = true := by simpa using hold
      rw [Scopes.declare, if_pos hold] at hfound
      exact absurd (hfound _ (List.mem_singleton.mpr rfl)) (by simp [Finding.fault?])
    have hscope := h scope (by simp) x
    rw [Scopes.declare, if_neg (by simp [hnew])]
    simp only [Scopes.pending, List.head?_cons, Option.any_some, Scope.pending_iff, lookup_cons_ite]
    by_cases hx : x = name.lexeme
    · simp [hx]
    · simp [hx, hscope, Ne.symm hx]

lemma Expr.sound_sites {e : Expr} {origins : List Origin} {scopes : Scopes}
    {initializing : Option Token} (hfound : Faultless (e.findings scopes))
    (hlength : origins.length = scopes.length) (hpending : ∀ x, scopes.pending x = true ↔
      scopes ≠ [] ∧ ∃ name ∈ initializing, name.lexeme = x) :
    ∀ w ∈ e.sites origins scopes initializing, w.Sound := by
  intro w hw
  obtain ⟨o, ho, rfl⟩ := List.mem_map.mp hw
  exact ⟨e.not_pending_of_faultless scopes hfound o ho, hpending, hlength⟩

lemma Expr.sound_optionalSites {e : Option Expr} {origins : List Origin} {scopes : Scopes}
    {initializing : Option Token} (hfound : Faultless (Expr.optionalFindings scopes e))
    (hlength : origins.length = scopes.length)
    (hpending : ∀ x, scopes.pending x = true ↔ scopes ≠ [] ∧ ∃ name ∈ initializing,
      name.lexeme = x) : ∀ w ∈ Expr.optionalSites e origins scopes initializing, w.Sound := by
  cases e with
  | none => simp [Expr.optionalSites]
  | some e => exact Expr.sound_sites hfound hlength hpending

lemma Stmt.settled_after (s : Stmt) {scopes : Scopes} (h : scopes.Settled) :
    (s.after scopes).Settled := by
  rw [Stmt.after]
  cases s.declared? with
  | none => exact h
  | some name => exact h.bind name

lemma Stmt.length_after (s : Stmt) (scopes : Scopes) : (s.after scopes).length = scopes.length := by
  rw [Stmt.after]
  cases s.declared? with
  | none => rfl
  | some name => exact Scopes.length_bind

mutual

/-- Where the resolver finds no fault (`hfound`), every site is `Sound`. -/
lemma Stmt.sound_sites (inFunction : Bool) (origins : List Origin) (s : Stmt) (scopes : Scopes)
    (hs : s.Shaped) (hsettled : scopes.Settled) (hlength : origins.length = scopes.length)
    (hfound : Faultless (s.resolve inFunction scopes).2) :
    ∀ w ∈ s.sites inFunction origins scopes, w.Sound := by
  cases s with
  | expression e | print e => exact Expr.sound_sites hfound hlength hsettled.pending_iff
  | var name initializer =>
    simp only [Stmt.resolve, faultless_append] at hfound
    exact Expr.sound_optionalSites hfound.2 (by rwa [Scopes.length_declare])
      (hsettled.pending_declare_iff hfound.1)
  | block body =>
    rw [Stmt.Shaped] at hs
    exact Stmt.sound_allSites inFunction _ body _ hs hsettled.cons_nil (by simp [hlength]) hfound
  | branch condition thenBranch elseBranch =>
    rw [Stmt.Shaped] at hs
    have hthen : (thenBranch.resolve inFunction scopes).1 = scopes := by
      rw [Stmt.resolve_fst inFunction thenBranch scopes hs.2.1,
        Stmt.after_of_declared?_eq_none hs.1]
    simp only [Stmt.resolve, faultless_append] at hfound
    intro w hw
    rw [Stmt.sites] at hw
    rcases List.mem_append.mp hw with hw | hw
    · rcases List.mem_append.mp hw with hw | hw
      · exact Expr.sound_sites hfound.1.1 hlength hsettled.pending_iff w hw
      · exact Stmt.sound_sites inFunction origins thenBranch scopes hs.2.1 hsettled hlength
          hfound.1.2 w hw
    · rw [hthen] at hw hfound
      exact Stmt.sound_optionalSites inFunction origins elseBranch scopes hs.2.2 hsettled hlength
        hfound.2 w hw
  | loop condition body =>
    rw [Stmt.Shaped] at hs
    simp only [Stmt.resolve, faultless_append] at hfound
    intro w hw
    rw [Stmt.sites] at hw
    rcases List.mem_append.mp hw with hw | hw
    · exact Expr.sound_sites hfound.1 hlength hsettled.pending_iff w hw
    · exact Stmt.sound_sites inFunction origins body scopes hs.2 hsettled hlength hfound.2 w hw
  | function name parameters body =>
    rw [Stmt.Shaped] at hs
    simp only [Stmt.resolve, faultless_append] at hfound
    -- Parameters are ready at once, and so the body begins in settled scopes.
    have hinner : (Scopes.declareAll ([] :: scopes.bind name) parameters).1.Settled := by
      rw [Scopes.declareAll_fst]
      exact ((hsettled.bind name).cons_nil).foldl_bind parameters
    refine Stmt.sound_allSites true _ body _ hs hinner ?_ hfound.2
    rw [Scopes.declareAll_fst, Scopes.length_foldl_bind, List.length_cons, List.length_cons,
      Scopes.length_bind, hlength]
  | ret keyword value =>
    simp only [Stmt.resolve, faultless_append] at hfound
    exact Expr.sound_optionalSites hfound.2 hlength hsettled.pending_iff

lemma Stmt.sound_allSites (inFunction : Bool) (origins : List Origin) (ss : List Stmt)
    (scopes : Scopes) (hs : Stmt.AllShaped ss) (hsettled : scopes.Settled)
    (hlength : origins.length = scopes.length)
    (hfound : Faultless (Stmt.resolveAll inFunction ss scopes).2) :
    ∀ w ∈ Stmt.allSites inFunction origins ss scopes, w.Sound := by
  cases ss with
  | nil => simp [Stmt.allSites]
  | cons s rest =>
    rw [Stmt.AllShaped] at hs
    have hafter := Stmt.resolve_fst inFunction s scopes hs.1
    simp only [Stmt.resolveAll, faultless_append] at hfound
    intro w hw
    rw [Stmt.allSites] at hw
    rcases List.mem_append.mp hw with hw | hw
    · exact Stmt.sound_sites inFunction origins s scopes hs.1 hsettled hlength hfound.1 w hw
    · rw [hafter] at hw hfound
      exact Stmt.sound_allSites inFunction origins rest _ hs.2 (s.settled_after hsettled)
        (by rw [Stmt.length_after, hlength]) hfound.2 w hw

lemma Stmt.sound_optionalSites (inFunction : Bool) (origins : List Origin) (s : Option Stmt)
    (scopes : Scopes) (hs : Stmt.OptionalShaped s) (hsettled : scopes.Settled)
    (hlength : origins.length = scopes.length)
    (hfound : Faultless (Stmt.resolveOptional inFunction s scopes).2) :
    ∀ w ∈ Stmt.optionalSites inFunction origins s scopes, w.Sound := by
  cases s with
  | none => simp [Stmt.optionalSites]
  | some s =>
    rw [Stmt.OptionalShaped] at hs
    exact Stmt.sound_sites inFunction origins s scopes hs.2 hsettled hlength hfound

end

end LoxLang
