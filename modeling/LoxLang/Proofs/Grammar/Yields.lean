import LoxLang.Proofs.Grammar.Expressions
import LoxLang.Proofs.Tree.Relabel

/-!
# Reading what the grammar derives: expressions

A reader at a text that its rule derives succeeds, stops right behind the text and notes nothing,
provided that the token behind the text does not continue it.  Its result is the derived tree up to
node ids.

A binary level and a call are read by a loop, but derived from the left.  So a derivation is matched
with a state of the loop: after the derived text the loop stands in front of the rest with the
derived tree in its hands.
-/

namespace LoxLang.Grammar

open Reader

/-! ## Success without errors -/

/-- The reader `r` succeeds in front of `rest`, without noting anything, with `value` up to what
`view` shows. -/
def Yields {α β : Type} (view : α → β) (r : Reader α) (c : Cursor) (value : α)
    (rest : List Token) : Prop :=
  ∃ v d, r c = .ok v d ∧ d.rest = rest ∧ d.errors = c.errors ∧ view v = view value

/-- The text `rest` starts with none of the given `kinds`. -/
def Stops (kinds : Kind → Bool) (rest : List Token) : Prop := ∀ t ∈ rest.head?, kinds t.kind = false

lemma Stops.mono {kinds others : Kind → Bool} {rest : List Token} (h : Stops kinds rest)
    (himp : ∀ k, kinds k = false → others k = false) : Stops others rest :=
  fun t ht => himp _ (h t ht)

lemma Stops.cons {kinds : Kind → Bool} {t : Token} {rest : List Token} (h : kinds t.kind = false) :
    Stops kinds (t :: rest) := by
  intro u hu
  obtain rfl : t = u := by simpa using hu
  exact h

lemma bind_eq_of_ok {α β : Type} {r : Reader α} {f : α → Reader β} {c d : Cursor} {v : α}
    (h : r c = .ok v d) : (r >>= f) c = f v d := by
  simp only [bind, Reader.bind, h]

lemma advance_eq {c : Cursor} {t : Token} {rest : List Token} (h : c.rest = t :: rest) :
    c.advance.rest = rest ∧ c.advance.errors = c.errors := by
  simp [Cursor.advance, h]

lemma acceptIf_eq_some {kinds : Kind → Bool} {c : Cursor} {t : Token} {rest : List Token}
    (h : c.rest = t :: rest) (ht : kinds t.kind = true) :
    acceptIf kinds c = .ok (some t) c.advance := by
  simp [acceptIf, h, ht]

lemma acceptIf_eq_none {kinds : Kind → Bool} {c : Cursor} (h : Stops kinds c.rest) :
    acceptIf kinds c = .ok none c := by
  cases hrest : c.rest with
  | nil => simp [acceptIf, hrest]
  | cons t rest =>
    have ht : kinds t.kind = false := h t (by simp [hrest])
    simp [acceptIf, hrest, ht]

lemma accept_eq_some {kind : Kind} {c : Cursor} {t : Token} {rest : List Token}
    (h : c.rest = t :: rest) (ht : t.kind = kind) : accept kind c = .ok (some t) c.advance :=
  acceptIf_eq_some h (by simp [ht])

lemma accept_eq_none {kind : Kind} {c : Cursor} (h : Stops (· = kind) c.rest) :
    accept kind c = .ok none c :=
  acceptIf_eq_none h

lemma expect_eq_ok {kind : Kind} {fault : GrammarFault} {c : Cursor} {t : Token} {rest : List Token}
    (h : c.rest = t :: rest) (ht : t.kind = kind) : expect kind fault c = .ok t c.advance := by
  simp [expect, h, ht]

namespace Yields

variable {α β γ δ : Type} {c : Cursor} {rest : List Token}

lemma pure {view : α → β} {v value : α} (h : c.rest = rest) (hv : view v = view value) :
    Yields view (Pure.pure v) c value rest :=
  ⟨v, c, rfl, h, rfl, hv⟩

lemma bind {view : α → β} {sight : γ → δ} {r : Reader α} {f : α → Reader γ} {value : α} {result : γ}
    {middle : List Token} (h : Yields view r c value middle)
    (hf : ∀ v d, view v = view value → d.rest = middle → Yields sight (f v) d result rest) :
    Yields sight (r >>= f) c result rest := by
  obtain ⟨v, d, hr, hrest, herrors, hv⟩ := h
  obtain ⟨w, e, hf, hrest', herrors', hw⟩ := hf v d hv hrest
  exact ⟨w, e, (bind_eq_of_ok hr).trans hf, hrest', herrors'.trans herrors, hw⟩

/-- A first step that reads one token `t`. -/
lemma of_step {sight : γ → δ} {r : Reader α} {f : α → Reader γ} {v : α} {result : γ} {t : Token}
    {middle : List Token} (hc : c.rest = t :: middle) (hr : r c = .ok v c.advance)
    (hf : ∀ d : Cursor, d.rest = middle → Yields sight (f v) d result rest) :
    Yields sight (r >>= f) c result rest := by
  obtain ⟨hrest, herrors⟩ := advance_eq hc
  obtain ⟨w, e, hw, hrest', herrors', hsame⟩ := hf c.advance hrest
  exact ⟨w, e, (bind_eq_of_ok hr).trans hw, hrest', herrors'.trans herrors, hsame⟩

/-- A first step that reads nothing. -/
lemma of_stay {sight : γ → δ} {r : Reader α} {f : α → Reader γ} {v : α} {result : γ}
    (hr : r c = .ok v c) (hf : Yields sight (f v) c result rest) :
    Yields sight (r >>= f) c result rest := by
  obtain ⟨w, e, hw, hrest, herrors, hsame⟩ := hf
  exact ⟨w, e, (bind_eq_of_ok hr).trans hw, hrest, herrors, hsame⟩

lemma map {view : α → β} {sight : γ → δ} {r : Reader α} {f : α → γ} {value : α}
    (h : Yields view r c value rest)
    (hf : ∀ v, view v = view value → sight (f v) = sight (f value)) :
    Yields sight (f <$> r) c (f value) rest :=
  bind h fun v _ hv hrest => pure hrest (hf v hv)

lemma freshId_bind {sight : γ → δ} {f : NodeId → Reader γ} {result : γ} {middle : List Token}
    (hc : c.rest = middle)
    (hf : ∀ (id : NodeId) (d : Cursor), d.rest = middle → Yields sight (f id) d result rest) :
    Yields sight (freshId >>= f) c result rest := by
  obtain ⟨w, e, hw, hrest, herrors, hsame⟩ := hf c.nextId { c with nextId := c.nextId + 1 } hc
  exact ⟨w, e, hw, hrest, herrors, hsame⟩

end Yields

/-! ## What a text starts with and what continues it -/

/-- Kinds that start a text of a rule. -/
def ExprRule.starts : ExprRule → Kind → Bool
  | .call, k | .primary, k => startsPrimary k
  | _, k => startsPrimary k || isUnaryOperator k

lemma DerivesExpr.starts {rule : ExprRule} {ts : List Token} {e : Expr}
    (h : DerivesExpr rule ts e) : ∃ t us, ts = t :: us ∧ rule.starts t.kind = true := by
  induction h with
  | assignment _ hname => exact ⟨_, _, rfl, by simp [hname, ExprRule.starts, startsPrimary]⟩
  | loosest _ ih => exact ih
  | @operand l _ _ _ ih =>
    obtain ⟨t, us, rfl, ht⟩ := ih
    refine ⟨t, us, rfl, ?_⟩
    cases l <;> exact ht
  | operator _ _ _ ih =>
    obtain ⟨t, us, rfl, ht⟩ := ih
    exact ⟨t, _, rfl, ht⟩
  | sign hop => exact ⟨_, _, rfl, by simp [isUnaryOperator_iff.mpr hop, ExprRule.starts]⟩
  | unsigned _ ih =>
    obtain ⟨t, us, rfl, ht⟩ := ih
    exact ⟨t, us, rfl, by simpa [ExprRule.starts] using Or.inl ht⟩
  | callee _ ih => exact ih
  | arguments _ _ _ _ _ _ _ ih =>
    obtain ⟨t, us, rfl, ht⟩ := ih
    exact ⟨t, _, rfl, ht⟩
  | falsity ht => exact ⟨_, _, rfl, by simp [ht, ExprRule.starts, startsPrimary]⟩
  | truth ht => exact ⟨_, _, rfl, by simp [ht, ExprRule.starts, startsPrimary]⟩
  | nil ht => exact ⟨_, _, rfl, by simp [ht, ExprRule.starts, startsPrimary]⟩
  | constant ht =>
    refine ⟨_, _, rfl, ?_⟩
    rcases ht with ht | ht <;> simp [ht, ExprRule.starts, startsPrimary]
  | named _ ht => exact ⟨_, _, rfl, by simp [ht, ExprRule.starts, startsPrimary]⟩
  | grouping hopening => exact ⟨_, _, rfl, by simp [hopening, ExprRule.starts, startsPrimary]⟩

/-- The levels whose operators bind tighter than those of `l`. -/
def Level.tighter (l : Level) : List Level := (Level.all.dropWhile (· ≠ l)).tail

/-- Kinds that continue a text of a rule, so that a reader would go on behind it. -/
def ExprRule.continues : ExprRule → Kind → Bool
  | .expression, k => k = .equal || k = .leftParen || Level.all.any (·.has k)
  | .level l, k => k = .leftParen || (l :: l.tighter).any (·.has k)
  | .unary, k | .call, k => k = .leftParen
  | .primary, _ => false

lemma continues_operand_of_has {l : Level} {k : Kind} (h : l.has k = true) :
    l.operand.continues k = false := by
  revert h
  cases l <;> cases k <;> decide

lemma continues_level {l : Level} {k : Kind} (h : (ExprRule.level l).continues k = false) :
    l.operand.continues k = false ∧ l.has k = false := by
  revert h
  cases l <;> cases k <;> decide

lemma continues_disjunction {k : Kind} (h : ExprRule.expression.continues k = false) :
    (ExprRule.level .disjunction).continues k = false ∧ k ≠ .equal := by
  revert h
  cases k <;> decide

/-! ## Lists in parentheses -/

/-- A token in front of which an item of a list ends. -/
def EndsItem (t : Token) : Prop := t.kind = .comma ∨ t.kind = .rightParen

lemma commaSeparated_yields {α β : Type} {view : α → β} {tooMany : GrammarFault} {item : Reader α}
    {closing : Token} {rest : List Token} (hclosing : closing.kind = .rightParen) :
    ∀ (parts : List (List Token × α)),
      (∀ p ∈ parts, ∀ (c : Cursor) (t : Token) (more : List Token),
        c.rest = p.1 ++ t :: more → EndsItem t → Yields view item c p.2 (t :: more)) →
      ∀ (steps count : ℕ) (c : Cursor) (us : List Token), parts ≠ [] → parts.length ≤ steps →
        count + parts.length ≤ 255 → Listed (parts.map Prod.fst) us →
        c.rest = us ++ closing :: rest →
        Yields (List.map view) (commaSeparated tooMany item steps count) c (parts.map Prod.snd)
          (closing :: rest) := by
  intro parts
  induction parts with
  | nil => intro _ _ _ _ _ hne; exact (hne rfl).elim
  | cons p parts ih =>
    intro hitems steps count c us _ hsteps hcount hlisted hc
    obtain ⟨steps, rfl⟩ : ∃ k, steps = k + 1 :=
      ⟨steps - 1, by simp only [List.length_cons] at hsteps; omega⟩
    have hitem := hitems p (by simp)
    unfold commaSeparated
    rw [if_neg (by simp only [List.length_cons] at hcount; omega)]
    cases parts with
    | nil =>
      -- The last item ends at the closing parenthesis, where no comma is accepted.
      obtain rfl : us = p.1 := by cases hlisted; rfl
      refine (hitem c closing rest hc (Or.inr hclosing)).bind fun v d hv hd => ?_
      refine Yields.of_stay (accept_eq_none ?_) (.pure hd (by simpa using hv))
      rw [hd]
      exact Stops.cons (by simp [hclosing])
    | cons q parts =>
      -- Any other item ends at a comma, behind which the rest of the list is read.
      obtain ⟨comma, vs, hcomma, rfl, hmore⟩ : ∃ comma vs, comma.kind = .comma ∧
          us = p.1 ++ comma :: vs ∧ Listed ((q :: parts).map Prod.fst) vs := by
        cases hlisted with
        | more hcomma hmore => exact ⟨_, _, hcomma, rfl, hmore⟩
      rw [List.append_assoc] at hc
      refine (hitem c comma _ hc (Or.inl hcomma)).bind fun v d hv hd => ?_
      refine Yields.of_step hd (accept_eq_some hd hcomma) fun e he => ?_
      have hnext := ih (fun q hq => hitems q (List.mem_cons_of_mem _ hq)) steps (count + 1) e vs
        (by simp) (by simpa using hsteps) (by simp only [List.length_cons] at hcount ⊢; omega)
        hmore he
      exact hnext.bind fun vs f hvs hf => .pure hf (by simp [hv, hvs])

/-- A list in parentheses, where (`hstarts`) no item starts like the closing one. -/
lemma listed_yields {α β : Type} {view : α → β} {tooMany : GrammarFault} {item : Reader α}
    {closing : Token} {us rest : List Token} {c : Cursor} {steps : ℕ}
    (parts : List (List Token × α)) (hclosing : closing.kind = .rightParen)
    (hstarts : ∀ p ∈ parts, ∃ t ts, p.1 = t :: ts ∧ t.kind ≠ .rightParen)
    (hitems : ∀ p ∈ parts, ∀ (c : Cursor) (t : Token) (more : List Token),
      c.rest = p.1 ++ t :: more → EndsItem t → Yields view item c p.2 (t :: more))
    (hsteps : parts.length ≤ steps) (hcount : parts.length ≤ 255)
    (hlisted : Listed (parts.map Prod.fst) us) (hc : c.rest = us ++ closing :: rest) :
    Yields (List.map view) (listed tooMany item steps) c (parts.map Prod.snd)
      (closing :: rest) := by
  unfold listed
  -- An absent list counts as an empty one.
  suffices hopt : ∃ items : Option (List α), items.getD [] = parts.map Prod.snd ∧
      Yields (fun o => (o.getD []).map view)
        (unlessSees .rightParen (commaSeparated tooMany item steps 0)) c
        items (closing :: rest) by
    obtain ⟨items, hitems, hopt⟩ := hopt
    refine hopt.bind fun v d hv hd => .pure hd ?_
    rw [← hitems]
    exact hv
  unfold unlessSees
  cases parts with
  | nil =>
    obtain rfl : us = [] := by cases hlisted; rfl
    have hsees : sees .rightParen c = .ok true c := by simp [sees, Cursor.sees, hc, hclosing]
    exact ⟨none, rfl, Yields.of_stay hsees (.pure hc rfl)⟩
  | cons p parts =>
    obtain ⟨t, ts, hp, ht⟩ := hstarts p (by simp)
    have hhead : ∃ vs, us = t :: vs := by
      cases parts with
      | nil => cases hlisted; exact ⟨ts, hp⟩
      | cons q parts =>
        cases hlisted with
        | more => exact ⟨_, by rw [hp]; rfl⟩
    obtain ⟨vs, rfl⟩ := hhead
    have hsees : sees .rightParen c = .ok false c := by simp [sees, Cursor.sees, hc, ht]
    have hlist : Yields (List.map view) (commaSeparated tooMany item steps 0) c
        ((p :: parts).map Prod.snd) (closing :: rest) :=
      commaSeparated_yields hclosing (p :: parts) hitems steps 0 c _ (by simp) hsteps
        (by simpa using hcount) hlisted hc
    exact ⟨some _, rfl, Yields.of_stay hsees (hlist.map fun v hv => by simpa using hv)⟩

/-- There are no more items `Listed` than tokens. -/
lemma length_le_of_listed {parts : List (List Token)} {us : List Token} (h : Listed parts us)
    (hne : ∀ p ∈ parts, p ≠ []) : parts.length ≤ us.length ∧ ∀ p ∈ parts, p.length ≤ us.length := by
  induction h with
  | none => simp
  | one ts =>
    have hpos : 1 ≤ ts.length := List.length_pos_iff.mpr (hne ts (by simp))
    simpa using hpos
  | @more ts us vs rest comma hcomma _ ih =>
    obtain ⟨hcount, hlength⟩ := ih fun p hp => hne p (List.mem_cons_of_mem _ hp)
    simp only [List.length_append, List.length_cons] at hcount hlength ⊢
    refine ⟨by omega, ?_⟩
    rintro p (_ | ⟨_, hp⟩)
    · omega
    · have := hlength p hp
      omega

/-! ## Rules -/

/-- The reader `r` has come to a round of the `loop`, in front of `rest` and with `e` in its hands.
No more rounds have been used up than `used`. -/
def ComesTo (r : Reader Expr) (loop : ℕ → Expr → Reader Expr) (steps used : ℕ)
    (c : Cursor) (e : Expr) (rest : List Token) : Prop :=
  ∃ e' d j, r c = loop j e' d ∧ d.rest = rest ∧ d.errors = c.errors ∧ e'.anonymous = e.anonymous ∧
    steps ≤ j + used

/-- The reader of signs, calls and what is tighter. -/
def signed (steps : ℕ) : Reader Expr := unary (call (expression steps) steps) steps

/-- A text of a rule is read by the reader of that rule, for any number of `steps` that is large
enough. Of the rules that are read by a loop, `ComesTo` says it. -/
def Complete : ExprRule → List Token → Expr → Prop
  | .expression, ts, e => ∀ (steps : ℕ) (c : Cursor) (rest : List Token), c.rest = ts ++ rest →
      ts.length + 2 ≤ steps → Stops ExprRule.expression.continues rest →
      Yields Expr.anonymous (expression steps) c e rest
  | .level l, ts, e => ∀ (steps : ℕ) (c : Cursor) (rest : List Token), c.rest = ts ++ rest →
      ts.length + 1 ≤ steps → Stops l.operand.continues rest →
      ComesTo (binary steps (signed steps) (l :: l.tighter))
        (operators l (binary steps (signed steps) l.tighter)) steps ts.length c e rest
  | .unary, ts, e => ∀ (steps rounds : ℕ) (c : Cursor) (rest : List Token), c.rest = ts ++ rest →
      ts.length + 1 ≤ steps → ts.length ≤ rounds → Stops ExprRule.unary.continues rest →
      Yields Expr.anonymous (unary (call (expression steps) steps) rounds) c e rest
  | .call, ts, e => ∀ (steps : ℕ) (c : Cursor) (rest : List Token), c.rest = ts ++ rest →
      ts.length + 1 ≤ steps →
      ComesTo (call (expression steps) steps) (calls (expression steps)) steps ts.length c e rest
  | .primary, ts, e => ∀ (steps : ℕ) (c : Cursor) (rest : List Token), c.rest = ts ++ rest →
      ts.length + 1 ≤ steps → Yields Expr.anonymous (primary (expression steps)) c e rest

namespace Complete

/-- A text of a level `l`, in front of something that does not continue it. -/
lemma level_yields {l : Level} {ts rest : List Token} {e : Expr} {steps : ℕ} {c : Cursor}
    (h : Complete (.level l) ts e) (hc : c.rest = ts ++ rest) (hsteps : ts.length + 1 ≤ steps)
    (hstop : Stops (ExprRule.level l).continues rest) :
    Yields Expr.anonymous (binary steps (signed steps) (l :: l.tighter)) c e rest := by
  obtain ⟨e', d, j, hr, hrest, herrors, hsame, hj⟩ :=
    h steps c rest hc hsteps (hstop.mono fun k hk => (continues_level hk).1)
  obtain ⟨j, rfl⟩ : ∃ k, j = k + 1 := ⟨j - 1, by omega⟩
  have hnone : acceptIf l.has d = .ok none d :=
    acceptIf_eq_none (by rw [hrest]; exact hstop.mono fun k hk => (continues_level hk).2)
  refine ⟨e', d, ?_, hrest, herrors, hsame⟩
  rw [hr, operators, bind_eq_of_ok hnone]
  rfl

/-- An operand of a level `l`, in front of something that does not continue it. -/
lemma operand_yields {l : Level} {ts rest : List Token} {e : Expr} {steps : ℕ} {c : Cursor}
    (h : Complete l.operand ts e) (hc : c.rest = ts ++ rest) (hsteps : ts.length + 1 ≤ steps)
    (hstop : Stops l.operand.continues rest) :
    Yields Expr.anonymous (binary steps (signed steps) l.tighter) c e rest := by
  -- The operands of all but the tightest level are read by the loop of the next level.
  cases l with
  | factor => exact h steps steps c rest hc hsteps (by omega) hstop
  | disjunction | conjunction | equality | comparison | term => exact level_yields h hc hsteps hstop

lemma operand {l : Level} {ts : List Token} {e : Expr} (h : Complete l.operand ts e) :
    Complete (.level l) ts e := by
  intro steps c rest hc hsteps hstop
  obtain ⟨e', d, hr, hrest, herrors, hsame⟩ := operand_yields h hc hsteps hstop
  refine ⟨e', d, steps, ?_, hrest, herrors, hsame, by omega⟩
  rw [binary, bind_eq_of_ok hr]

lemma anonymous_node (l : Level) (left right : Expr) (operator : Token) :
    (l.node left operator right).anonymous = l.node left.anonymous operator right.anonymous := by
  cases l <;> rfl

lemma operator {l : Level} {ts us : List Token} {operator : Token} {left right : Expr}
    (hleft : Complete (.level l) ts left) (hop : l.has operator.kind = true)
    (hright : Complete l.operand us right) :
    Complete (.level l) (ts ++ operator :: us) (l.node left operator right) := by
  intro steps c rest hc hsteps hstop
  simp only [List.length_append, List.length_cons] at hsteps
  rw [List.append_assoc, List.cons_append] at hc
  obtain ⟨e', d, j, hr, hrest, herrors, hsame, hj⟩ :=
    hleft steps c (operator :: (us ++ rest)) hc (by omega)
      (Stops.cons (continues_operand_of_has hop))
  obtain ⟨j, rfl⟩ : ∃ k, j = k + 1 := ⟨j - 1, by omega⟩
  obtain ⟨hadvance, herrors'⟩ := advance_eq hrest
  obtain ⟨r', f, hoperand, hrest', herrors'', hsame'⟩ :=
    operand_yields hright hadvance (by omega : us.length + 1 ≤ steps) hstop
  refine ⟨l.node e' operator r', f, j, ?_, hrest', by rw [herrors'', herrors', herrors], ?_, ?_⟩
  · rw [hr, operators, bind_eq_of_ok (acceptIf_eq_some hrest hop)]
    exact bind_eq_of_ok hoperand
  · rw [anonymous_node, anonymous_node, hsame, hsame']
  · simp only [List.length_append, List.length_cons]
    omega

lemma sign {operator : Token} {ts : List Token} {right : Expr}
    (hop : isUnaryOperator operator.kind = true) (h : Complete .unary ts right) :
    Complete .unary (operator :: ts) (.unary operator right) := by
  intro steps rounds c rest hc hsteps hrounds hstop
  simp only [List.length_cons] at hsteps hrounds
  obtain ⟨rounds, rfl⟩ : ∃ k, rounds = k + 1 := ⟨rounds - 1, by omega⟩
  rw [unary]
  refine Yields.of_step hc (acceptIf_eq_some hc hop) fun d hd => ?_
  refine (h steps rounds d rest hd (by omega) (by omega) hstop).bind fun v e hv he => .pure he ?_
  simpa [Expr.anonymous, Expr.relabel] using hv

lemma unsigned {ts : List Token} {e : Expr} (hderives : DerivesExpr .call ts e)
    (h : Complete .call ts e) : Complete .unary ts e := by
  intro steps rounds c rest hc hsteps hrounds hstop
  obtain ⟨t, us, hts, ht⟩ := hderives.starts
  have hlen : 0 < ts.length := by simp [hts]
  obtain ⟨rounds, rfl⟩ : ∃ k, rounds = k + 1 := ⟨rounds - 1, by omega⟩
  -- A call starts like a primary, so no sign is next.
  have hnone : acceptIf isUnaryOperator c = .ok none c := by
    refine acceptIf_eq_none ?_
    rw [hc, hts]
    refine Stops.cons ?_
    revert ht
    cases t.kind <;> decide
  obtain ⟨e', d, j, hr, hrest, herrors, hsame, hj⟩ := h steps c rest hc hsteps
  obtain ⟨j, rfl⟩ : ∃ k, j = k + 1 := ⟨j - 1, by omega⟩
  have hend : accept .leftParen d = .ok none d :=
    accept_eq_none (by rw [hrest]; exact hstop)
  rw [unary]
  refine Yields.of_stay hnone ⟨e', d, ?_, hrest, herrors, hsame⟩
  show call (expression steps) steps c = _
  rw [hr, calls, bind_eq_of_ok hend]
  rfl

lemma callee {ts : List Token} {e : Expr} (h : Complete .primary ts e) : Complete .call ts e := by
  intro steps c rest hc hsteps
  obtain ⟨e', d, hr, hrest, herrors, hsame⟩ := h steps c rest hc hsteps
  refine ⟨e', d, steps, ?_, hrest, herrors, hsame, by omega⟩
  rw [call, bind_eq_of_ok hr]

lemma arguments {ts us : List Token} {opening closing : Token} {callee : Expr}
    (parts : List (List Token × Expr)) (h : Complete .call ts callee)
    (hopening : opening.kind = .leftParen) (hderives : ∀ p ∈ parts, DerivesExpr .expression p.1 p.2)
    (hparts : ∀ p ∈ parts, Complete .expression p.1 p.2) (hcount : parts.length ≤ 255)
    (hlisted : Listed (parts.map Prod.fst) us) (hclosing : closing.kind = .rightParen) :
    Complete .call (ts ++ opening :: (us ++ [closing]))
      (.call callee closing (parts.map Prod.snd)) := by
  intro steps c rest hc hsteps
  simp only [List.length_append, List.length_cons, List.length_nil] at hsteps
  have hc : c.rest = ts ++ opening :: (us ++ closing :: rest) := by simpa using hc
  obtain ⟨e', d, j, hr, hrest, herrors, hsame, hj⟩ := h steps c _ hc (by omega)
  obtain ⟨j, rfl⟩ : ∃ k, j = k + 1 := ⟨j - 1, by omega⟩
  obtain ⟨hadvance, herrors'⟩ := advance_eq hrest
  have hnonempty : ∀ p ∈ parts.map Prod.fst, p ≠ [] := by
    intro p hp
    obtain ⟨q, hq, rfl⟩ := List.mem_map.mp hp
    obtain ⟨t, vs, hts, -⟩ := (hderives q hq).starts
    simp [hts]
  -- The list has no more items than tokens, so the rounds that are left are enough for it.
  obtain ⟨hcountTokens, hlengths⟩ := length_le_of_listed hlisted hnonempty
  rw [List.length_map] at hcountTokens
  have hstarts : ∀ p ∈ parts, ∃ t vs, p.1 = t :: vs ∧ t.kind ≠ .rightParen := by
    intro p hp
    obtain ⟨t, vs, hts, ht⟩ := (hderives p hp).starts
    refine ⟨t, vs, hts, ?_⟩
    rintro hk
    simp [hk, ExprRule.starts, startsPrimary, isUnaryOperator] at ht
  have hitems : ∀ p ∈ parts, ∀ (c : Cursor) (t : Token) (more : List Token),
      c.rest = p.1 ++ t :: more → EndsItem t →
      Yields Expr.anonymous (expression steps) c p.2 (t :: more) := by
    intro p hp c t more hc ht
    have := hlengths p.1 (List.mem_map_of_mem hp)
    refine hparts p hp steps c (t :: more) hc (by omega) (Stops.cons ?_)
    rcases ht with ht | ht <;> rw [ht] <;> decide
  obtain ⟨args, f, hargs, hrest', herrors'', hview⟩ :=
    listed_yields parts hclosing hstarts hitems (by omega : parts.length ≤ j) hcount
      hlisted hadvance
  obtain ⟨hadvance', herrors3⟩ := advance_eq hrest'
  -- One round of the loop reads the parentheses and goes on with the call as callee.
  refine ⟨.call e' closing args, f.advance, j, ?_, hadvance', ?_, ?_, ?_⟩
  · rw [hr, calls, bind_eq_of_ok (accept_eq_some hrest hopening)]
    refine (bind_eq_of_ok hargs).trans ?_
    exact bind_eq_of_ok (expect_eq_ok hrest' hclosing)
  · rw [herrors3, herrors'', herrors', herrors]
  · have hview : args.map (Expr.relabel (fun _ => 0) id) =
        (parts.map Prod.snd).map (Expr.relabel (fun _ => 0) id) :=
      hview
    simp only [Expr.anonymous, Expr.relabel, Expr.relabelAll_eq_map] at hsame ⊢
    rw [hsame, hview]
  · simp only [List.length_append, List.length_cons, List.length_nil]
    omega

/-- The tokens that stand for a constant, with their constants. -/
lemma literal {t : Token} {value : Constant}
    (h : t.kind = .falseWord ∧ value = .bool false ∨ t.kind = .trueWord ∧ value = .bool true ∨
      t.kind = .nilWord ∧ value = .nil ∨ (t.kind = .number ∨ t.kind = .string) ∧
      value = constantOf t) : Complete .primary [t] (.literal value) := by
  intro steps c rest hc _
  have hstart : startsPrimary t.kind = true := by
    rcases h with ⟨ht, -⟩ | ⟨ht, -⟩ | ⟨ht, -⟩ | ⟨ht | ht, -⟩ <;> rw [ht] <;> rfl
  rw [primary]
  refine Yields.of_step hc (acceptIf_eq_some hc hstart) fun d hd => ?_
  rcases h with ⟨ht, rfl⟩ | ⟨ht, rfl⟩ | ⟨ht, rfl⟩ | ⟨ht | ht, rfl⟩ <;> simp only [ht] <;>
    exact .pure hd rfl

lemma named {t : Token} (id : NodeId) (ht : t.kind = .identifier) :
    Complete .primary [t] (.read id t) := by
  intro steps c rest hc _
  rw [primary]
  refine Yields.of_step hc (acceptIf_eq_some hc (by rw [ht]; rfl)) fun d hd => ?_
  simp only [ht]
  exact Yields.freshId_bind hd fun _ _ hd => .pure hd rfl

lemma grouping {opening closing : Token} {ts : List Token} {e : Expr}
    (hopening : opening.kind = .leftParen) (h : Complete .expression ts e)
    (hclosing : closing.kind = .rightParen) :
    Complete .primary (opening :: (ts ++ [closing])) (.grouping e) := by
  intro steps c rest hc hsteps
  simp only [List.length_append, List.length_cons, List.length_nil] at hsteps
  have hc : c.rest = opening :: (ts ++ closing :: rest) := by simpa using hc
  rw [primary]
  refine Yields.of_step hc (acceptIf_eq_some hc (by simp [hopening, startsPrimary])) fun d hd => ?_
  simp only [hopening, group]
  have hstop : Stops ExprRule.expression.continues (closing :: rest) :=
    Stops.cons (by rw [hclosing]; decide)
  refine (h steps d (closing :: rest) hd (by omega) hstop).bind fun v f hv hf => ?_
  refine Yields.of_step hf (expect_eq_ok hf hclosing) fun g hg => .pure hg ?_
  simpa [Expr.anonymous, Expr.relabel] using hv

/-- What is read in front of a possible equals sign. -/
lemma target_yields {ts rest : List Token} {e : Expr} {steps : ℕ} {c : Cursor}
    (h : Complete (.level .disjunction) ts e) (hc : c.rest = ts ++ rest)
    (hsteps : ts.length + 1 ≤ steps) (hstop : Stops (ExprRule.level .disjunction).continues rest) :
    Yields Expr.anonymous (binary steps (unary (call (expression steps) steps) steps) Level.all) c
      e rest := by
  exact level_yields h hc hsteps hstop

lemma loosest {ts : List Token} {e : Expr} (h : Complete (.level .disjunction) ts e) :
    Complete .expression ts e := by
  intro steps c rest hc hsteps hstop
  obtain ⟨steps, rfl⟩ : ∃ k, steps = k + 1 := ⟨steps - 1, by omega⟩
  have htarget := target_yields h hc (by omega : ts.length + 1 ≤ steps)
    (hstop.mono fun k hk => (continues_disjunction hk).1)
  rw [expression, expressionWith]
  refine htarget.bind fun v d hv hd => ?_
  have hnone : accept .equal d = .ok none d :=
    accept_eq_none
      (by rw [hd]; exact hstop.mono fun k hk => by simpa using (continues_disjunction hk).2)
  exact Yields.of_stay rfl (Yields.of_stay hnone (.pure hd hv))

/-- A name by itself is a text of every level. -/
lemma name_level {t : Token} (ht : t.kind = .identifier) :
    Complete (.level .disjunction) [t] (.read 0 t) := by
  have hcall : DerivesExpr .call [t] (.read 0 t) := .callee (.named 0 ht)
  have hunary : Complete .unary [t] (.read 0 t) := unsigned hcall (callee (named 0 ht))
  have hfactor : Complete (.level .factor) [t] (.read 0 t) := operand hunary
  have hterm : Complete (.level .term) [t] (.read 0 t) := operand hfactor
  have hcomparison : Complete (.level .comparison) [t] (.read 0 t) := operand hterm
  have hequality : Complete (.level .equality) [t] (.read 0 t) := operand hcomparison
  have hconjunction : Complete (.level .conjunction) [t] (.read 0 t) := operand hequality
  exact operand hconjunction

lemma assignment {name equal : Token} {ts : List Token} {value : Expr} (id : NodeId)
    (hname : name.kind = .identifier) (hequal : equal.kind = .equal)
    (h : Complete .expression ts value) :
    Complete .expression (name :: equal :: ts) (.assign id name value) := by
  intro steps c rest hc hsteps hstop
  simp only [List.length_cons] at hsteps
  obtain ⟨steps, rfl⟩ : ∃ k, steps = k + 1 := ⟨steps - 1, by omega⟩
  have hequalStops : Stops (ExprRule.level .disjunction).continues (equal :: (ts ++ rest)) :=
    Stops.cons (by rw [hequal]; decide)
  have htarget :=
    target_yields (name_level hname) hc (by simpa using by omega : [name].length + 1 ≤ steps)
      hequalStops
  rw [expression, expressionWith]
  refine htarget.bind fun target d htarget hd => ?_
  refine Yields.of_stay rfl (Yields.of_step hd (accept_eq_some hd hequal) fun f hf => ?_)
  refine (h steps f rest hf (by omega) hstop).bind fun v g hv hg => ?_
  -- What is read in front of the equals sign is the name, whatever its node id.
  obtain ⟨id', rfl⟩ : ∃ id', target = .read id' name := by
    cases target <;> simp [Expr.anonymous, Expr.relabel] at htarget
    exact ⟨_, by rw [htarget]⟩
  rw [Grammar.assignment]
  refine Yields.freshId_bind hg fun _ _ hd => .pure hd ?_
  simpa [Expr.anonymous, Expr.relabel] using hv

end Complete

/-- Whatever an expression rule derives is `Complete`: it is read by the reader of that rule. -/
theorem DerivesExpr.complete {rule : ExprRule} {ts : List Token} {e : Expr}
    (h : DerivesExpr rule ts e) : Complete rule ts e := by
  induction h with
  | assignment id hname hequal _ ih => exact .assignment id hname hequal ih
  | loosest _ ih => exact .loosest ih
  | operand _ ih => exact .operand ih
  | operator _ hop _ ihleft ihright =>
    rw [← Level.node_eq hop]
    exact .operator ihleft (Level.has_iff.mpr hop) ihright
  | sign hop _ ih => exact .sign (isUnaryOperator_iff.mpr hop) ih
  | unsigned h ih => exact .unsigned h ih
  | callee _ ih => exact .callee ih
  | arguments parts _ hopening hparts hcount hlisted hclosing ihcallee ihparts =>
    exact .arguments parts ihcallee hopening hparts ihparts hcount hlisted hclosing
  | falsity ht => exact .literal (Or.inl ⟨ht, rfl⟩)
  | truth ht => exact .literal (Or.inr (Or.inl ⟨ht, rfl⟩))
  | nil ht => exact .literal (Or.inr (Or.inr (Or.inl ⟨ht, rfl⟩)))
  | constant ht hvalue => exact .literal (Or.inr (Or.inr (Or.inr ⟨ht, stands_iff.mp hvalue⟩)))
  | named id ht => exact .named id ht
  | grouping hopening _ hclosing ih => exact .grouping hopening ih hclosing

/-- An expression in front of a token that does not continue it is read by `expression`. -/
theorem DerivesExpr.yields {ts rest : List Token} {e : Expr} {steps : ℕ} {c : Cursor}
    (h : DerivesExpr .expression ts e) (hc : c.rest = ts ++ rest) (hsteps : ts.length + 2 ≤ steps)
    (hstop : Stops ExprRule.expression.continues rest) :
    Yields Expr.anonymous (expression steps) c e rest :=
  h.complete steps c rest hc hsteps hstop

end LoxLang.Grammar
