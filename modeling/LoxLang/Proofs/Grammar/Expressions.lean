import LoxLang.Proofs.Grammar.Rules
import LoxLang.Proofs.Grammar.Spans
import LoxLang.Proofs.Tree.Occurrences

/-!
# Reading expressions

Every reader of the expression grammar comes to an end within as many steps as there are tokens, and
moves on by at least one token if it succeeds.  If it noted nothing on the way, the tokens it read
are derived by its rule, with the tree it gives.  The node ids of that tree are distinct and new.

The readers of a level take the reader of inner expressions as a parameter; so do the statements
here.  An inner expression starts at least one token further on, which is what bounds the steps.
-/

namespace LoxLang.Grammar

open Reader

/-! ## Numbering -/

/-- The ids of occurrences are distinct and lie from `lo` up to `hi`. -/
structure Numbered (lo hi : NodeId) (os : List Occurrence) : Prop where
  nodup : (os.map Occurrence.id).Nodup
  range : ∀ o ∈ os, lo ≤ o.id ∧ o.id < hi

namespace Numbered

lemma nil (lo hi : NodeId) : Numbered lo hi [] where
  nodup := by simp
  range := by simp

lemma mono {lo hi low high : NodeId} {os : List Occurrence} (h : Numbered lo hi os) (hlo : low ≤ lo)
    (hhi : hi ≤ high) : Numbered low high os where
  nodup := h.nodup
  range o ho := ⟨hlo.trans (h.range o ho).1, (h.range o ho).2.trans_le hhi⟩

lemma append {lo mid hi : NodeId} {os ps : List Occurrence} (h : Numbered lo mid os)
    (k : Numbered mid hi ps) (hlo : lo ≤ mid) (hhi : mid ≤ hi) : Numbered lo hi (os ++ ps) where
  nodup := by
    rw [List.map_append]
    refine h.nodup.append k.nodup ?_
    intro id ho hp
    obtain ⟨o, hmem, rfl⟩ := List.mem_map.mp ho
    obtain ⟨p, pmem, heq⟩ := List.mem_map.mp hp
    have hbelow := (h.range o hmem).2
    have habove := (k.range p pmem).1
    exact lt_irrefl _ (hbelow.trans_le (habove.trans_eq heq))
  range o ho := by
    rcases List.mem_append.mp ho with ho | ho
    · exact ⟨(h.range o ho).1, (h.range o ho).2.trans_le hhi⟩
    · exact ⟨hlo.trans (k.range o ho).1, (k.range o ho).2⟩

lemma perm {lo hi : NodeId} {os ps : List Occurrence} (h : Numbered lo hi os) (hp : os.Perm ps) :
    Numbered lo hi ps where
  nodup := (hp.map _).nodup_iff.mp h.nodup
  range o ho := h.range o (hp.mem_iff.mpr ho)

end Numbered

/-! ## Single expressions -/

/-- What reading something of a `form` comes to: it moves on, it is derived if nothing was noted,
and the nodes it made are numbered from `c` on. -/
structure ItemRead {α : Type} (form : List Token → α → Prop) (occurrences : α → List Occurrence)
    (c : Cursor) (used : List Token) (noted : List GrammarError) (x : α) (d : Cursor) : Prop where
  moved : used ≠ []
  derives : noted = [] → form used x
  numbered : Numbered c.nextId d.nextId (occurrences x)

/-- What reading an expression by a `rule` comes to. -/
abbrev ExprRead (rule : ExprRule) : Cursor → List Token → List GrammarError → Expr →
    Cursor → Prop :=
  ItemRead (DerivesExpr rule) Expr.occurrences

lemma primary_reads {inner : Reader Expr} {n : ℕ}
    (hinner : ∀ d : Cursor, d.rest.length < n → Reads inner d (ExprRead .expression d))
    {c : Cursor} (hc : c.rest.length ≤ n) : Reads (primary inner) c (ExprRead .primary c) := by
  unfold primary
  refine Reads.acceptIf_bind (fun _ => Reads.fail) ?_
  intro t ht hspan
  have hlen := hspan.length
  simp only [List.length_cons, List.length_nil] at hlen
  -- A constant takes one token and no node id.
  have hleaf : ∀ e : Expr, DerivesExpr .primary [t] e → e.occurrences = [] →
      Reads (pure e) c.advance fun us es => ExprRead .primary c (t :: us) es := by
    intro e hd ho
    refine Reads.pure ⟨by simp, fun _ => hd, ?_⟩
    rw [ho]
    exact Numbered.nil _ _
  simp only
  split
  · exact hleaf _ (.falsity ‹_›) rfl
  · exact hleaf _ (.truth ‹_›) rfl
  · exact hleaf _ (.nil ‹_›) rfl
  · refine Reads.freshId_bind (Reads.pure ⟨by simp, fun _ => .named _ ‹_›, ?_⟩)
    have := hspan.nextId
    exact ⟨by simp [Expr.occurrences], by simpa [Expr.occurrences] using this⟩
  · unfold group
    refine Reads.bind (hinner c.advance (by omega)) ?_
    intro us es e d _ he
    refine Reads.expect_bind fun closing hclosing hclose => Reads.pure ⟨by simp, ?_, ?_⟩
    · intro hes
      have hes : es = [] := by simpa using hes
      exact .grouping ‹_› (he.derives hes) hclosing
    · exact he.numbered.mono hspan.nextId hclose.nextId
  · rename_i hfalse htrue hnil hname hparen
    refine hleaf _ (.constant ?_ (stands_iff.mpr rfl)) rfl
    cases hk : t.kind <;> simp_all [startsPrimary]

/-! ## Lists in parentheses -/

/-- What reading a list of items set apart by commas comes to, the first item being number `count`.
Items have their own `form` and their own `occurrences`. -/
structure ItemsRead {α : Type} (form : List Token → α → Prop)
    (occurrences : α → List Occurrence) (count : ℕ) (c : Cursor) (used : List Token)
    (noted : List GrammarError) (items : List α) (d : Cursor) : Prop where
  derives : noted = [] → ∃ parts : List (List Token × α), parts.map Prod.snd = items ∧
    (∀ p ∈ parts, form p.1 p.2) ∧ (parts = [] ∨ count + parts.length ≤ 255) ∧
    Listed (parts.map Prod.fst) used
  numbered : Numbered c.nextId d.nextId (items.flatMap occurrences)

namespace ItemsRead

variable {α : Type} {form : List Token → α → Prop} {occurrences : α → List Occurrence} {count : ℕ}
  {c d e f g : Cursor} {us vs : List Token} {before es fs : List GrammarError} {x : α}
  {items : List α}

/-- One item.  From item 255 on the list has been noted as too long before the item is read, so
`hcount` holds where nothing is noted. -/
lemma one (hspan : Span c d [] before) (hcount : before = [] → count < 255)
    (hx : ItemRead form occurrences d us es x e) :
    ItemsRead form occurrences count c us (before ++ es) [x] e where
  derives hes := by
    obtain ⟨hbefore, hes⟩ := List.append_eq_nil_iff.mp hes
    have hlt := hcount hbefore
    refine ⟨[(us, x)], rfl, by simpa using hx.derives hes, .inr ?_, by simpa using Listed.one us⟩
    simpa using hlt
  numbered := by simpa using hx.numbered.mono hspan.nextId le_rfl

/-- An item, a comma and the other items. -/
lemma more {comma : Token} (hspan : Span c d [] before) (hone : Span d e us es)
    (hx : ItemRead form occurrences d us es x e) (hcomma : comma.kind = .comma)
    (hstep : Span e f [comma] []) (hrest : Span f g vs fs)
    (hitems : ItemsRead form occurrences (count + 1) f vs fs items g) (hne : items ≠ []) :
    ItemsRead form occurrences count c (us ++ comma :: vs) (before ++ (es ++ fs))
      (x :: items) g where
  derives hes := by
    obtain ⟨-, hes⟩ := List.append_eq_nil_iff.mp hes
    obtain ⟨hes, hfs⟩ := List.append_eq_nil_iff.mp hes
    obtain ⟨parts, rfl, hforms, hbound, hlisted⟩ := hitems.derives hfs
    cases parts with
    | nil => exact absurd rfl hne
    | cons p parts =>
      have hbound : count + 1 + (p :: parts).length ≤ 255 := by simpa using hbound
      refine ⟨(us, x) :: p :: parts, rfl, List.forall_mem_cons.mpr ⟨hx.derives hes, hforms⟩,
        .inr ?_, ?_⟩
      · simp only [List.length_cons] at hbound ⊢
        omega
      · simpa using Listed.more hcomma hlisted
  numbered := by
    rw [List.flatMap_cons]
    exact (hx.numbered.mono hspan.nextId hstep.nextId).append hitems.numbered
      (hspan.nextId.trans (hone.nextId.trans hstep.nextId)) hrest.nextId

end ItemsRead

/-- A list is read by `commaSeparated` to an end: each item moves on, so there are no more items
than tokens. -/
lemma commaSeparated_reads {α : Type} {tooMany : GrammarFault} {item : Reader α} {n : ℕ}
    {form : List Token → α → Prop} {occurrences : α → List Occurrence}
    (hitem : ∀ d : Cursor, d.rest.length < n → Reads item d (ItemRead form occurrences d)) :
    ∀ (steps count : ℕ) (c : Cursor), c.rest.length < n → c.rest.length < steps →
      Reads (commaSeparated tooMany item steps count) c fun used noted items d =>
        ItemsRead form occurrences count c used noted items d ∧ items ≠ [] := by
  intro steps
  induction steps with
  | zero => intro count c _ hsteps; omega
  | succ steps ih =>
    intro count c hn hsteps
    unfold commaSeparated
    -- Both with and without a note the item is read from where the list starts.
    have hrest : ∀ (next : α → Option Token → Reader (List α)),
        (∀ value comma, next value (some comma) =
          (do return value :: (← commaSeparated tooMany item steps (count + 1)))) →
        (∀ value, next value none = pure [value]) →
        ∀ (d : Cursor) (before : List GrammarError), Span c d [] before →
        (before = [] → count < 255) →
        Reads (item >>= fun value => accept .comma >>= next value) d fun us es items e =>
            ItemsRead form occurrences count c us (before ++ es) items e ∧ items ≠ [] := by
      intro next hmore hlast d before hspan hcount
      have hlen := hspan.length
      simp only [List.length_nil] at hlen
      refine Reads.bind (hitem d (by omega)) ?_
      intro us es x e hone hx
      have hlen1 := hone.length
      have hpos : 0 < us.length := List.length_pos_iff.mpr hx.moved
      refine Reads.accept_bind (fun _ => (hlast x).symm ▸ Reads.pure ?_) ?_
      · exact ⟨by simpa using ItemsRead.one hspan hcount hx, by simp⟩
      · intro comma hcomma hstep
        have hlen2 := hstep.length
        simp only [List.length_cons, List.length_nil] at hlen2
        rw [hmore x comma]
        refine Reads.bind (ih (count + 1) e.advance (by omega) (by omega)) ?_
        rintro vs fs items g hspan' ⟨hitems, hne⟩
        refine Reads.pure ⟨?_, by simp⟩
        simpa using ItemsRead.more hspan hone hx hcomma hstep hspan' hitems hne
    by_cases hcount : 255 ≤ count
    · simp only [if_pos hcount]
      refine Reads.note_bind fun e => ?_
      exact hrest _ (fun _ _ => rfl) (fun _ => rfl) (c.record e) [e] (Span.record c e) (by simp)
    · simp only [if_neg hcount]
      exact hrest _ (fun _ _ => rfl) (fun _ => rfl) c [] (Span.refl c) (fun _ => by omega)

lemma listed_reads {α : Type} {tooMany : GrammarFault} {item : Reader α} {n steps : ℕ}
    {form : List Token → α → Prop} {occurrences : α → List Occurrence}
    (hitem : ∀ d : Cursor, d.rest.length < n → Reads item d (ItemRead form occurrences d))
    {c : Cursor} (hn : c.rest.length < n) (hsteps : c.rest.length < steps) :
    Reads (listed tooMany item steps) c (ItemsRead form occurrences 0 c) := by
  unfold listed
  have hopt : Reads (unlessSees .rightParen (commaSeparated tooMany item steps 0)) c
      fun used noted items d => ItemsRead form occurrences 0 c used noted (items.getD []) d := by
    refine Reads.unlessSees (fun _ => ?_) fun _ => ?_
    · exact ⟨fun _ => ⟨[], rfl, by simp, Or.inl rfl, .none⟩, by simpa using Numbered.nil _ _⟩
    · exact (commaSeparated_reads hitem steps 0 c hn hsteps).mono fun _ _ _ _ _ h => h.1
  refine Reads.bind hopt fun used noted items d _ h => Reads.pure ?_
  simpa using h

/-! ## Levels of operators -/

/-- What reading on after `first` comes to: the tokens of `first` and those read then make up the
result. -/
structure ExprExtended (rule : ExprRule) (first : Expr) (c : Cursor) (used : List Token)
    (noted : List GrammarError) (e : Expr) (d : Cursor) : Prop where
  derives : noted = [] → ∀ ts, DerivesExpr rule ts first → DerivesExpr rule (ts ++ used) e
  numbered : ∀ lo, lo ≤ c.nextId → Numbered lo c.nextId first.occurrences →
    Numbered lo d.nextId e.occurrences

lemma ExprExtended.refl (rule : ExprRule) (first : Expr) (c : Cursor) :
    ExprExtended rule first c [] [] first c where
  derives _ ts h := by simpa using h
  numbered _ _ h := h

/-- Reading `first` and then reading on is `ExprRead`. -/
lemma ExprExtended.read {rule : ExprRule} {first e : Expr} {c d f : Cursor} {us vs : List Token}
    {xs ys : List GrammarError} (h : ExprExtended rule first d vs ys e f) (hspan : Span c d us xs)
    (hmoved : us ≠ []) (hfirst : xs = [] → DerivesExpr rule us first)
    (hnum : Numbered c.nextId d.nextId first.occurrences) :
    ExprRead rule c (us ++ vs) (xs ++ ys) e f where
  moved := by simp [hmoved]
  derives hes := by
    obtain ⟨hxs, hys⟩ := List.append_eq_nil_iff.mp hes
    exact h.derives hys us (hfirst hxs)
  numbered := h.numbered _ hspan.nextId hnum

lemma calls_reads {inner : Reader Expr} {n : ℕ}
    (hinner : ∀ d : Cursor, d.rest.length < n → Reads inner d (ExprRead .expression d)) :
    ∀ (steps : ℕ) (callee : Expr) (c : Cursor), c.rest.length ≤ n → c.rest.length < steps →
      Reads (calls inner steps callee) c (ExprExtended .call callee c) := by
  intro steps
  induction steps with
  | zero => intro callee c _ hsteps; omega
  | succ steps ih =>
    intro callee c hn hsteps
    unfold calls
    refine Reads.accept_bind (fun _ => Reads.pure (ExprExtended.refl _ _ _)) ?_
    intro opening hopening hopen
    have hlen := hopen.length
    simp only [List.length_cons, List.length_nil] at hlen
    refine Reads.bind (listed_reads hinner (by omega) (by omega)) ?_
    intro us es args d hlist hargs
    refine Reads.expect_bind ?_
    intro closing hclosing hclose
    have hlen1 := hlist.length
    have hlen2 := hclose.length
    simp only [List.length_cons, List.length_nil] at hlen2
    -- What is called so far is the callee of the next pair of parentheses.
    refine (ih (.call callee closing args) d.advance (by omega) (by omega)).mono ?_
    intro vs fs e f _ h
    constructor
    · intro hes ts hcallee
      obtain ⟨hes, hfs⟩ := List.append_eq_nil_iff.mp hes
      obtain ⟨parts, rfl, hforms, hbound, hlisted⟩ := hargs.derives hes
      have hbound : parts.length ≤ 255 := by
        rcases hbound with rfl | hbound
        · simp
        · omega
      have hcall := DerivesExpr.arguments parts hcallee hopening hforms hbound hlisted hclosing
      simpa using h.derives hfs _ hcall
    · intro lo hlo hnum
      refine h.numbered lo (hlo.trans (hopen.nextId.trans (hlist.nextId.trans hclose.nextId))) ?_
      rw [Expr.occurrences, Expr.allOccurrences_eq_flatMap]
      exact (hnum.mono le_rfl hopen.nextId).append (hargs.numbered.mono le_rfl hclose.nextId)
        (hlo.trans hopen.nextId) (hlist.nextId.trans hclose.nextId)

lemma call_reads {inner : Reader Expr} {n steps : ℕ}
    (hinner : ∀ d : Cursor, d.rest.length < n → Reads inner d (ExprRead .expression d))
    {c : Cursor} (hn : c.rest.length ≤ n) (hsteps : c.rest.length < steps) :
    Reads (call inner steps) c (ExprRead .call c) := by
  unfold call
  refine Reads.bind (primary_reads hinner hn) ?_
  intro us es e d hspan he
  have hlen := hspan.length
  refine (calls_reads hinner steps e d (by omega) (by omega)).mono ?_
  intro vs fs e' f _ h
  exact h.read hspan he.moved (fun hes => .callee (he.derives hes)) he.numbered

lemma unary_reads {operand : Reader Expr} {n : ℕ}
    (hoperand : ∀ d : Cursor, d.rest.length ≤ n → Reads operand d (ExprRead .call d)) :
    ∀ (steps : ℕ) (c : Cursor), c.rest.length ≤ n → c.rest.length < steps →
      Reads (unary operand steps) c (ExprRead .unary c) := by
  intro steps
  induction steps with
  | zero => intro c _ hsteps; omega
  | succ steps ih =>
    intro c hn hsteps
    unfold unary
    refine Reads.acceptIf_bind (fun _ => ?_) ?_
    · exact (hoperand c hn).mono fun us es e d _ h =>
        ⟨h.moved, fun hes => .unsigned (h.derives hes), h.numbered⟩
    · intro operator hop hspan
      have hlen := hspan.length
      simp only [List.length_cons, List.length_nil] at hlen
      refine Reads.bind (ih c.advance (by omega) (by omega)) fun us es e d _ he => Reads.pure ?_
      refine ⟨by simp, fun hes => ?_, he.numbered.mono hspan.nextId le_rfl⟩
      simp only [List.append_nil] at hes ⊢
      exact .sign (isUnaryOperator_iff.mp hop) (he.derives hes)

lemma occurrences_node (l : Level) (left right : Expr) (operator : Token) :
    (l.node left operator right).occurrences = left.occurrences ++ right.occurrences := by
  cases l <;> rfl

lemma operators_reads {l : Level} {operand : Reader Expr} {n : ℕ}
    (hoperand : ∀ d : Cursor, d.rest.length ≤ n → Reads operand d (ExprRead l.operand d)) :
    ∀ (steps : ℕ) (left : Expr) (c : Cursor), c.rest.length ≤ n → c.rest.length < steps →
      Reads (operators l operand steps left) c (ExprExtended (.level l) left c) := by
  intro steps
  induction steps with
  | zero => intro left c _ hsteps; omega
  | succ steps ih =>
    intro left c hn hsteps
    unfold operators
    refine Reads.acceptIf_bind (fun _ => Reads.pure (ExprExtended.refl _ _ _)) ?_
    intro operator hop hspan
    have hlen := hspan.length
    simp only [List.length_cons, List.length_nil] at hlen
    refine Reads.bind (hoperand c.advance (by omega)) ?_
    intro us es right d hoperand hright
    have hlen1 := hoperand.length
    -- Operators group to the left: what is read so far is the next left operand.
    refine (ih (l.node left operator right) d (by omega) (by omega)).mono ?_
    intro vs fs e f _ h
    constructor
    · intro hes ts hleft
      obtain ⟨hes, hfs⟩ := List.append_eq_nil_iff.mp hes
      have hmem := Level.has_iff.mp hop
      rw [Level.node_eq hmem] at h
      simpa using h.derives hfs _ (.operator hleft hmem (hright.derives hes))
    · intro lo hlo hnum
      refine h.numbered lo (hlo.trans (hspan.nextId.trans hoperand.nextId)) ?_
      rw [occurrences_node]
      exact (hnum.mono le_rfl hspan.nextId).append hright.numbered (hlo.trans hspan.nextId)
        hoperand.nextId

/-- The rule of an expression over the given levels, which is that of the first. -/
def ExprRule.ofLevels : List Level → ExprRule
  | [] => .unary
  | l :: _ => .level l

/-- The operands of the level `l` are expressions of the `tighter` ones. -/
lemma operand_eq_ofLevels {l : Level} {tighter : List Level} (h : l :: tighter <:+ Level.all) :
    l.operand = ExprRule.ofLevels tighter := by
  have htails : l :: tighter ∈ Level.all.tails := (List.mem_tails _ _).mpr h
  simp only [Level.all, List.tails, List.mem_cons, List.cons.injEq, List.not_mem_nil, or_false,
    reduceCtorEq] at htails
  rcases htails with
    ⟨rfl, rfl⟩ | ⟨rfl, rfl⟩ | ⟨rfl, rfl⟩ | ⟨rfl, rfl⟩ | ⟨rfl, rfl⟩ | ⟨rfl, rfl⟩ <;> rfl

lemma binary_reads {operand : Reader Expr} {n steps : ℕ} (hsteps : n < steps)
    (hoperand : ∀ d : Cursor, d.rest.length ≤ n → Reads operand d (ExprRead .unary d)) :
    ∀ levels : List Level, levels <:+ Level.all → ∀ c : Cursor, c.rest.length ≤ n →
      Reads (binary steps operand levels) c (ExprRead (.ofLevels levels) c) := by
  intro levels
  induction levels with
  | nil => intro _ c hn; exact hoperand c hn
  | cons l tighter ih =>
    intro hsuffix c hn
    have htighter : tighter <:+ Level.all := (List.suffix_cons l tighter).trans hsuffix
    have hread : ∀ d : Cursor, d.rest.length ≤ n →
        Reads (binary steps operand tighter) d (ExprRead l.operand d) := by
      rw [operand_eq_ofLevels hsuffix]
      exact ih htighter
    unfold binary
    refine Reads.bind (hread c hn) ?_
    intro us es left d hspan hleft
    have hlen := hspan.length
    refine (operators_reads hread steps left d (by omega) (by omega)).mono ?_
    intro vs fs e f _ h
    exact h.read hspan hleft.moved (fun hes => .operand (hleft.derives hes)) hleft.numbered

/-! ## Whole expressions -/

/-- The tree of a variable is derived from its name alone. -/
lemma DerivesExpr.of_read {rule : ExprRule} {ts : List Token} {e : Expr}
    (h : DerivesExpr rule ts e) :
    ∀ {id : NodeId} {name : Token}, e = .read id name → ts = [name] ∧ name.kind = .identifier := by
  induction h with
  | operator =>
    intro id name he
    unfold operatorTree at he
    split at he <;> cases he
  | named _ hk =>
    intro id name he
    obtain ⟨-, rfl⟩ := Expr.read.inj he
    exact ⟨rfl, hk⟩
  | loosest _ ih => exact ih
  | operand _ ih => exact ih
  | unsigned _ ih => exact ih
  | callee _ ih => exact ih
  | _ => intro id name he; simp at he

/-- The value of an assignment, and what its left side `target` makes of it: a variable is assigned
to, any other left side is noted as an error. -/
lemma assignment_reads {target value : Expr} {found c d f : Cursor} {ts us : List Token}
    {equal : Token} {xs ys : List GrammarError} (hequal : equal.kind = .equal)
    (htarget : Span c d ts xs) (hread : ExprRead (.level .disjunction) c ts xs target d)
    (hstep : Span d d.advance [equal] []) (hvalue : Span d.advance f us ys)
    (hvalueRead : ExprRead .expression d.advance us ys value f) :
    Reads (assignment target found value) f fun vs zs =>
      ExprRead .expression c (ts ++ equal :: (us ++ vs)) (xs ++ (ys ++ zs)) := by
  have hmono : c.nextId ≤ d.advance.nextId := htarget.nextId.trans hstep.nextId
  unfold assignment
  split
  · rename_i id name
    refine Reads.freshId_bind (Reads.pure ⟨by simp, fun hes => ?_, ?_⟩)
    · have hes : xs = [] ∧ ys = [] := by simpa using hes
      obtain ⟨rfl, hname⟩ := (hread.derives hes.1).of_read rfl
      simpa using DerivesExpr.assignment f.nextId hname hequal (hvalueRead.derives hes.2)
    · rw [Expr.occurrences]
      refine (hvalueRead.numbered.mono hmono le_rfl).append ?_ (hmono.trans hvalue.nextId)
        (Nat.le_succ _)
      exact ⟨by simp, by simp⟩
  · refine Reads.noteAt_bind fun e => Reads.pure ⟨by simp, by simp, ?_⟩
    exact hread.numbered.mono le_rfl (hstep.nextId.trans hvalue.nextId)

/-- Within a step for each token and two more, reading an `expression` comes to an end; an
expression without errors is derived by the grammar. -/
theorem expression_reads : ∀ (steps : ℕ) (c : Cursor), c.rest.length + 2 ≤ steps →
    Reads (expression steps) c (ExprRead .expression c) := by
  intro steps
  induction steps with
  | zero => intro c hsteps; omega
  | succ steps ih =>
    intro c hsteps
    -- An inner expression stands behind a token of this one, so the induction hypothesis covers it.
    have hinner : ∀ d : Cursor, d.rest.length < c.rest.length →
        Reads (expression steps) d (ExprRead .expression d) := fun d hd => ih d (by omega)
    have hoperand : ∀ d : Cursor, d.rest.length ≤ c.rest.length →
        Reads (unary (call (expression steps) steps) steps) d (ExprRead .unary d) := fun d hd =>
      unary_reads (fun e he => call_reads hinner he (by omega)) steps d hd (by omega)
    rw [expression]
    unfold expressionWith
    refine Reads.bind (binary_reads (by omega) hoperand Level.all List.suffix_rfl c le_rfl) ?_
    intro ts xs target d htarget hread
    have hread : ExprRead (.level .disjunction) c ts xs target d := hread
    have hpos : 0 < ts.length := List.length_pos_iff.mpr hread.moved
    have hlen := htarget.length
    refine Reads.here_bind (Reads.accept_bind (fun _ => Reads.pure ?_) ?_)
    · simpa using ⟨hread.moved, fun hes => .loosest (hread.derives hes), hread.numbered⟩
    · intro equal hequal hstep
      have hlen1 := hstep.length
      simp only [List.length_cons, List.length_nil] at hlen1
      refine Reads.bind (hinner d.advance (by omega)) ?_
      intro us ys value f hvalue hvalueRead
      exact assignment_reads hequal htarget hread hstep hvalue hvalueRead

end LoxLang.Grammar
