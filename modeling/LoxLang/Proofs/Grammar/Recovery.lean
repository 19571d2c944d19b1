import LoxLang.Proofs.Grammar.Placement

/-!
# Recovery from a malformed statement

A statement that cannot be read is given up, and reading goes on behind its semicolon.  So it costs
the program nothing but itself: what stands before it and behind it is read as if it were not there.

The argument is about the tokens up to the semicolon, of which none can start or end a statement,
the first one apart.  Of these an expression reads some and stays in front of the semicolon, because
a semicolon is no part of it.  A statement that has been read as far as the semicolon, but not over
it, is given up there or earlier; and going on from there leads over the semicolon and no further.
-/

namespace LoxLang.Grammar

open Reader

/-! ## What an expression reads -/

/-- From `c` to `d` only tokens of the given `kinds` are read, and no errors are noted but those
after which reading goes on. -/
def Within (kinds : Kind → Bool) (c d : Cursor) : Prop :=
  ∃ used noted, Span c d used noted ∧ (∀ t ∈ used, kinds t.kind = true) ∧
    ∀ e ∈ noted, e.fault.noted = true

/-- A reader of tokens of the given `kinds`.  It fails only with an error that stops the reading. -/
structure ReadsWithin {α β : Type} (kinds : Kind → Bool) (V : α → β → Prop) (r : Reader α) :
    Prop where
  ok : ∀ c v d, r c = .ok v d → Within kinds c d ∧ ∃ v', V v v'
  fail : ∀ c e d, r c = .fail e d → Within kinds c d ∧ e.fault.noted = false

namespace Within

variable {kinds : Kind → Bool} {c d e : Cursor}

lemma refl (c : Cursor) : Within kinds c c := ⟨[], [], Span.refl c, by simp, by simp⟩

lemma trans (h : Within kinds c d) (k : Within kinds d e) : Within kinds c e := by
  obtain ⟨us, xs, hspan, hus, hxs⟩ := h
  obtain ⟨vs, ys, hspan', hvs, hys⟩ := k
  exact ⟨us ++ vs, xs ++ ys, hspan.trans hspan', List.forall_mem_append.mpr ⟨hus, hvs⟩,
    List.forall_mem_append.mpr ⟨hxs, hys⟩⟩

lemma mono {more : Kind → Bool} (h : Within kinds c d)
    (hmore : ∀ k, kinds k = true → more k = true) : Within more c d := by
  obtain ⟨used, noted, hspan, hused, hnoted⟩ := h
  exact ⟨used, noted, hspan, fun t ht => hmore _ (hused t ht), hnoted⟩

lemma advance {t : Token} {ts : List Token} (hrest : c.rest = t :: ts) (ht : kinds t.kind = true) :
    Within kinds c c.advance :=
  ⟨[t], [], Span.advance hrest, by simpa using ht, by simp⟩

lemma record {x : GrammarError} (h : x.fault.noted = true) : Within kinds c (c.record x) :=
  ⟨[], [x], Span.record c x, by simp, by simpa using h⟩

end Within

namespace ReadsWithin

variable {α β γ δ : Type} {kinds : Kind → Bool} {V : α → β → Prop} {W : γ → δ → Prop} {r : Reader α}

/-- A reader that always succeeds, at `next c`. -/
lemma of_ok {g : Cursor → α} {next : Cursor → Cursor} (hr : ∀ c, r c = .ok (g c) (next c))
    (hnext : ∀ c, Within kinds c (next c)) (hvalue : ∀ c, ∃ v', V (g c) v') :
    ReadsWithin kinds V r where
  ok c v d h := by
    rw [hr] at h
    obtain ⟨rfl, rfl⟩ := Reply.ok.inj h
    exact ⟨hnext c, hvalue c⟩
  fail c e d h := by
    rw [hr] at h
    exact absurd h (by simp)

lemma bind {f : α → Reader γ} (h : ReadsWithin kinds V r)
    (hf : ∀ v v', V v v' → ReadsWithin kinds W (f v)) : ReadsWithin kinds W (r >>= f) := by
  have hbind : ∀ c, (r >>= f) c = Reader.bind r f c := fun _ => rfl
  refine ⟨fun c w e hw => ?_, fun c x e hx => ?_⟩
  · rw [hbind, Reader.bind] at hw
    cases hr : r c with
    | ok v d =>
      rw [hr] at hw
      obtain ⟨hd, v', hv⟩ := h.ok c v d hr
      obtain ⟨he, hw⟩ := (hf v v' hv).ok d w e hw
      exact ⟨hd.trans he, hw⟩
    | fail x d =>
      rw [hr] at hw
      exact absurd hw (by simp)
    | exhausted =>
      rw [hr] at hw
      exact absurd hw (by simp)
  · rw [hbind, Reader.bind] at hx
    cases hr : r c with
    | ok v d =>
      rw [hr] at hx
      obtain ⟨hd, v', hv⟩ := h.ok c v d hr
      obtain ⟨he, hfault⟩ := (hf v v' hv).fail d x e hx
      exact ⟨hd.trans he, hfault⟩
    | fail x' d =>
      rw [hr] at hx
      obtain ⟨rfl, rfl⟩ := Reply.fail.inj hx
      exact h.fail c x' d hr
    | exhausted =>
      rw [hr] at hx
      exact absurd hx (by simp)

lemma acceptIf {set : Kind → Bool} (hset : ∀ k, set k = true → kinds k = true) :
    ReadsWithin kinds (Option.Rel Eq) (Reader.acceptIf set) := by
  have hself : ∀ v : Option Token, ∃ v', Option.Rel Eq v v' :=
    fun v => ⟨v, by cases v <;> constructor; rfl⟩
  refine ⟨fun c v d h => ⟨?_, hself v⟩, fun c e d h => ?_⟩
  · rw [Reader.acceptIf] at h
    split at h
    · obtain ⟨-, rfl⟩ := Reply.ok.inj h
      exact .refl c
    · next t ts hrest =>
      split at h
      · next ht =>
        obtain ⟨-, rfl⟩ := Reply.ok.inj h
        exact .advance hrest (hset _ ht)
      · obtain ⟨-, rfl⟩ := Reply.ok.inj h
        exact .refl c
  · rw [Reader.acceptIf] at h
    split at h
    · exact absurd h (by simp)
    · split at h <;> exact absurd h (by simp)

lemma expect {kind : Kind} {fault : GrammarFault} (hkind : kinds kind = true)
    (hfault : fault.noted = false) : ReadsWithin kinds Eq (Reader.expect kind fault) := by
  refine ⟨fun c v d h => ⟨?_, v, rfl⟩, fun c e d h => ?_⟩
  · rw [Reader.expect] at h
    split at h
    · exact absurd h (by simp)
    · next t ts hrest =>
      split at h
      · next ht =>
        obtain ⟨-, rfl⟩ := Reply.ok.inj h
        exact .advance hrest (by rwa [ht])
      · exact absurd h (by simp)
  · rw [Reader.expect] at h
    split at h
    · obtain ⟨rfl, rfl⟩ := Reply.fail.inj h
      exact ⟨.refl c, hfault⟩
    · split at h
      · exact absurd h (by simp)
      · obtain ⟨rfl, rfl⟩ := Reply.fail.inj h
        exact ⟨.refl c, hfault⟩

end ReadsWithin

/-- Whatever is built from readers within some `kinds` reads within the same ones. -/
lemma readsWithin_closed (kinds : Kind → Bool) :
    Closed kinds Eq Eq Eq fun V r _ => ReadsWithin kinds V r where
  kind_eq h := congrArg Token.kind h
  literal_eq h := congrArg Token.literal h
  pure hv := .of_ok (fun _ => rfl) .refl fun _ => ⟨_, hv⟩
  bind := ReadsWithin.bind
  exhausted := ⟨fun _ _ _ => nofun, fun _ _ _ => nofun⟩
  fail hfault := by
    refine ⟨fun _ _ _ => nofun, fun c e d h => ?_⟩
    obtain ⟨rfl, rfl⟩ := Reply.fail.inj h
    exact ⟨.refl c, hfault⟩
  note hfault := .of_ok (fun _ => rfl) (fun _ => .record hfault) fun _ => ⟨(), rfl⟩
  noteAt hfault _ := .of_ok (fun _ => rfl) (fun _ => .record hfault) fun _ => ⟨(), rfl⟩
  here := .of_ok (fun _ => rfl) .refl fun c => ⟨c, rfl⟩
  sees _ := .of_ok (fun _ => rfl) .refl fun _ => ⟨_, rfl⟩
  atEnd := .of_ok (fun _ => rfl) .refl fun _ => ⟨_, rfl⟩
  freshId :=
    .of_ok (fun _ => rfl) (fun c => ⟨[], [], Span.freshId c, by simp, by simp⟩) fun _ => ⟨_, rfl⟩
  acceptIf := ReadsWithin.acceptIf
  expect := ReadsWithin.expect

/-- An `expression` reads nothing but tokens of expressions (`inExpression`). -/
lemma expression_readsWithin (steps : ℕ) :
    ReadsWithin inExpression (Expr.Matches Eq Eq) (expression steps) :=
  (readsWithin_closed inExpression).expression (le_refl steps)

/-! ## In front of a semicolon -/

/-- Kinds that neither start a statement nor stand between statements. -/
def isInner (k : Kind) : Bool :=
  !Cursor.startsStatement k && k ≠ .semicolon && k ≠ .leftBrace && k ≠ .rightBrace &&
    k ≠ .elseWord && k ≠ .eof

/-- The rest at `c` is the inside of a statement and its `semicolon`. -/
structure Ends (semicolon : Token) (c : Cursor) : Prop where
  kind : semicolon.kind = .semicolon
  rest : ∃ inner, c.rest = inner ++ [semicolon] ∧ ∀ t ∈ inner, isInner t.kind = true

/-- A statement was read over the `semicolon`, or given up in front of it. -/
def Settles {α : Type} (semicolon : Token) (c : Cursor) (reply : Reply α) : Prop :=
  match reply with
  | .ok _ d => d.rest = [] ∧ Within (fun _ => true) c d
  | .fail e d => Ends semicolon d ∧ Within (fun _ => true) c d ∧ e.fault.noted = false
  | .exhausted => True

variable {semicolon : Token} {c d : Cursor}

namespace Ends

lemma exists_cons (h : Ends semicolon c) :
    ∃ t ts, c.rest = t :: ts ∧ (t = semicolon ∧ ts = [] ∨ isInner t.kind = true) := by
  obtain ⟨inner, hrest, hinner⟩ := h.rest
  cases inner with
  | nil => exact ⟨semicolon, [], hrest, .inl ⟨rfl, rfl⟩⟩
  | cons t ts => exact ⟨t, ts ++ [semicolon], hrest, .inr (hinner t (by simp))⟩

/-- No statement starts at the cursor. -/
lemma stops (h : Ends semicolon c) {kinds : Kind → Bool}
    (hkinds : ∀ k, kinds k = true → k ≠ .semicolon ∧ isInner k = false) : Stops kinds c.rest := by
  obtain ⟨t, ts, hrest, ht⟩ := h.exists_cons
  rw [hrest]
  refine Stops.cons (Bool.eq_false_iff.mpr fun hk => ?_)
  obtain ⟨hne, hinner⟩ := hkinds _ hk
  rcases ht with ⟨rfl, -⟩ | ht
  · exact hne h.kind
  · rw [hinner] at ht
    exact absurd ht (by decide)

/-- Tokens of an expression do not lead over the `semicolon`. -/
lemma of_within (h : Ends semicolon c) (hd : Within inExpression c d) : Ends semicolon d := by
  obtain ⟨used, noted, hspan, hused, -⟩ := hd
  obtain ⟨inner, hrest, hinner⟩ := h.rest
  rw [hspan.rest] at hrest
  refine ⟨h.kind, ?_⟩
  rcases List.append_eq_append_iff.mp hrest with ⟨before, hbefore, hrest⟩ | ⟨after, hafter, hrest⟩
  · exact ⟨before, hrest, fun t ht => hinner t (by rw [hbefore]; exact List.mem_append_right _ ht)⟩
  · cases after with
    | nil => exact ⟨[], hrest.symm, by simp⟩
    | cons t ts =>
      obtain rfl : semicolon = t := by simpa using congrArg List.head? hrest
      have hkind := hused semicolon (by rw [hafter]; simp)
      rw [h.kind] at hkind
      exact absurd hkind (by decide)

end Ends

namespace Settles

variable {α β γ : Type} {V : α → γ → Prop} {r : Reader α} {f : α → Reader β}

lemma of_later {reply : Reply α} (hd : Within (fun _ => true) c d) (h : Settles semicolon d reply) :
    Settles semicolon c reply := by
  cases reply with
  | ok v e => exact ⟨h.1, hd.trans h.2⟩
  | fail x e => exact ⟨h.1, hd.trans h.2.1, h.2.2⟩
  | exhausted => trivial

/-- A first step within an expression. -/
lemma bind (hr : ReadsWithin inExpression V r) (hends : Ends semicolon c)
    (hf : ∀ v d, Ends semicolon d → Settles semicolon d (f v d)) :
    Settles semicolon c ((r >>= f) c) := by
  show Settles semicolon c (Reader.bind r f c)
  rw [Reader.bind]
  cases hc : r c with
  | ok v d =>
    obtain ⟨hd, -⟩ := hr.ok c v d hc
    exact of_later (hd.mono fun _ _ => rfl) (hf v d (hends.of_within hd))
  | fail e d =>
    obtain ⟨hd, hfault⟩ := hr.fail c e d hc
    exact ⟨hends.of_within hd, hd.mono fun _ _ => rfl, hfault⟩
  | exhausted => trivial

/-- The `semicolon` of a statement. -/
lemma end_of {fault : GrammarFault} {v : β} (hfault : fault.noted = false)
    (hends : Ends semicolon c) :
    Settles semicolon c ((expect .semicolon fault >>= fun _ => pure v) c) := by
  obtain ⟨t, ts, hrest, ⟨rfl, rfl⟩ | ht⟩ := hends.exists_cons
  · rw [bind_eq_of_ok (expect_eq_ok hrest hends.kind)]
    exact ⟨(advance_eq hrest).1, .advance hrest rfl⟩
  · have hne : t.kind ≠ .semicolon := by
      rintro hk
      rw [hk] at ht
      exact absurd ht (by decide)
    have hfail : expect .semicolon fault c = .fail (c.errorHere fault) c := by
      simp [expect, hrest, hne]
    have hall : (expect .semicolon fault >>= fun _ => pure v : Reader β) c =
        .fail (c.errorHere fault) c := by
      simp only [Bind.bind, Reader.bind, hfail]
    rw [hall]
    exact ⟨hends, .refl c, hfault⟩

/-- A statement that is the last part of another one. -/
lemma then_stay (hr : Settles semicolon c (r c)) (hf : ∀ v d, d.rest = [] → ∃ w, f v d = .ok w d) :
    Settles semicolon c ((r >>= f) c) := by
  show Settles semicolon c (Reader.bind r f c)
  rw [Reader.bind]
  cases hc : r c with
  | ok v d =>
    rw [hc] at hr
    obtain ⟨w, hw⟩ := hf v d hr.1
    dsimp only
    rw [hw]
    exact hr
  | fail e d =>
    rw [hc] at hr
    exact hr
  | exhausted => trivial

end Settles

/-! ## Statements -/

section

variable {expr : Reader Expr} {stmt : Reader Stmt} {decl : Reader (Option Stmt)} {steps : ℕ}
  {W : Expr → Expr → Prop} (hexpr : ReadsWithin inExpression W expr)

include hexpr

lemma expressionStatement_settles (hends : Ends semicolon c) :
    Settles semicolon c (expressionStatement expr c) :=
  .bind hexpr hends fun _ _ hd => .end_of rfl hd

lemma printStatement_settles (hends : Ends semicolon c) :
    Settles semicolon c (printStatement expr c) :=
  .bind hexpr hends fun _ _ hd => .end_of rfl hd

lemma returnStatement_settles (keyword : Token) (hends : Ends semicolon c) :
    Settles semicolon c (returnStatement expr keyword c) :=
  .bind ((readsWithin_closed inExpression).unlessSees .semicolon (s := expr) hexpr) hends
    fun _ _ hd => .end_of rfl hd

lemma variableDeclaration_settles (hends : Ends semicolon c) :
    Settles semicolon c (variableDeclaration expr c) := by
  have hclosed := readsWithin_closed inExpression
  refine .bind (hclosed.expect rfl rfl) hends fun name d hd =>
    .bind (hclosed.accept rfl) hd fun equal e he => ?_
  cases equal with
  | some _ =>
    have hsome : ReadsWithin inExpression (Option.Rel W) (some <$> expr) :=
      hclosed.map (s := expr) hexpr fun _ _ hv => .some hv
    exact .bind hsome he fun _ _ hk => .end_of rfl hk
  | none =>
    have hnone : ReadsWithin inExpression (Option.Rel W) (pure none : Reader (Option Expr)) :=
      hclosed.pure .none
    exact .bind hnone he fun _ _ hk => .end_of rfl hk

/-- The condition and the body of an `if` or `while`. -/
lemma condition_settles {f : Expr → Stmt → Reader Stmt} {opened closed : GrammarFault}
    (hopened : opened.noted = false) (hclosed' : closed.noted = false)
    (hstmt : ∀ d, Ends semicolon d → Settles semicolon d (stmt d))
    (hf : ∀ e s d, d.rest = [] → ∃ w, f e s d = .ok w d) (hends : Ends semicolon c) :
    Settles semicolon c ((do
      let _ ← expect .leftParen opened
      let condition ← expr
      let _ ← expect .rightParen closed
      let body ← stmt
      f condition body) c) := by
  have hclosed := readsWithin_closed inExpression
  refine .bind (hclosed.expect rfl hopened) hends fun _ _ hd =>
    .bind hexpr hd fun condition _ he => ?_
  exact .bind (hclosed.expect rfl hclosed') he fun _ _ hk => .then_stay (hstmt _ hk) (hf condition)

lemma ifStatement_settles (hstmt : ∀ d, Ends semicolon d → Settles semicolon d (stmt d))
    (hends : Ends semicolon c) : Settles semicolon c (ifStatement expr stmt c) := by
  refine condition_settles hexpr rfl rfl hstmt (fun condition body d hrest => ?_) hends
  have hnone : accept .elseWord d = .ok none d := accept_eq_none (by simp [hrest, Stops])
  exact ⟨_, bind_eq_of_ok hnone⟩

lemma whileStatement_settles (hstmt : ∀ d, Ends semicolon d → Settles semicolon d (stmt d))
    (hends : Ends semicolon c) : Settles semicolon c (whileStatement expr stmt c) :=
  condition_settles hexpr rfl rfl hstmt (fun _ _ _ _ => ⟨_, rfl⟩) hends

omit hexpr in
/-- There is no body of a function in front of the `semicolon`. -/
lemma functionDeclaration_settles (hends : Ends semicolon c) :
    Settles semicolon c (functionDeclaration decl steps c) := by
  have hclosed := readsWithin_closed inExpression
  refine .bind (hclosed.expect rfl rfl) hends fun name _ hd => .bind (hclosed.expect rfl rfl) hd
    fun _ _ he => ?_
  have hname : ReadsWithin inExpression Eq (expect .identifier .noParameterName) :=
    hclosed.expect rfl rfl
  refine .bind (hclosed.listed (s := exhausted) rfl rfl hname (le_refl steps)) he
    fun parameters _ hk => ?_
  refine .bind (hclosed.expect rfl rfl) hk fun _ d hd => ?_
  have hstops : Stops (· = .leftBrace) d.rest := hd.stops fun k => by cases k <;> decide
  obtain ⟨t, ts, hrest, -⟩ := hd.exists_cons
  have hne : t.kind ≠ .leftBrace := by simpa using hstops t (by simp [hrest])
  have hfail : expect .leftBrace .noFunctionBody d = .fail (d.errorHere .noFunctionBody) d := by
    simp [expect, hrest, hne]
  simp only [bind, Reader.bind, hfail]
  exact ⟨hd, .refl d, rfl⟩

end

lemma statement_settles (steps : ℕ) (hends : Ends semicolon c) :
    Settles semicolon c (statement steps c) := by
  cases steps with
  | zero => rw [statement]; trivial
  | succ steps =>
    have hnone : acceptIf leadsStatement c = .ok none c :=
      acceptIf_eq_none (hends.stops fun k => by cases k <;> decide)
    rw [statement, statementWith, bind_eq_of_ok hnone]
    exact expressionStatement_settles (expression_readsWithin steps) hends

/-- Kinds that a malformed statement may start with. -/
def opensMalformed (k : Kind) : Bool :=
  isInner k || leadsDeclaration k || (leadsStatement k && k ≠ .forWord && k ≠ .leftBrace)

/-- A statement that is no `for` and no block is read over the first `semicolon`, or given up in
front of it. -/
lemma declarationWith_settles (steps : ℕ) {decl : Reader (Option Stmt)} {t : Token}
    {inner : List Token} (hrest : c.rest = t :: (inner ++ [semicolon]))
    (hsemi : semicolon.kind = .semicolon) (ht : opensMalformed t.kind = true)
    (hinner : ∀ u ∈ inner, isInner u.kind = true) :
    Settles semicolon c (declarationWith (expression steps) (statement steps) decl steps c) := by
  have hexpr := expression_readsWithin steps
  have hadvance : Ends semicolon c.advance := ⟨hsemi, inner, (advance_eq hrest).1, hinner⟩
  have hstep : Within (fun _ => true) c c.advance := .advance hrest rfl
  -- By the first token: a declaration, a statement with a word of its own, or an expression.
  by_cases hdecl : leadsDeclaration t.kind = true
  · rw [declarationWith, bind_eq_of_ok (acceptIf_eq_some hrest hdecl)]
    refine .of_later hstep ?_
    dsimp only
    cases hk : t.kind with
    | funWord => exact functionDeclaration_settles hadvance
    | varWord => exact variableDeclaration_settles hexpr hadvance
    | _ => simp [hk, leadsDeclaration] at hdecl
  · have hstops : Stops leadsDeclaration c.rest := by
      rw [hrest]
      exact Stops.cons (Bool.eq_false_iff.mpr hdecl)
    rw [declarationWith, bind_eq_of_ok (acceptIf_eq_none hstops)]
    dsimp only
    by_cases hstmt : leadsStatement t.kind = true
    · rw [statementWith, bind_eq_of_ok (acceptIf_eq_some hrest hstmt)]
      refine .of_later hstep ?_
      dsimp only
      cases hk : t.kind with
      | ifWord => exact ifStatement_settles hexpr (fun d => statement_settles steps) hadvance
      | printWord => exact printStatement_settles hexpr hadvance
      | returnWord => exact returnStatement_settles hexpr t hadvance
      | whileWord => exact whileStatement_settles hexpr (fun d => statement_settles steps) hadvance
      | _ =>
        simp [hk, opensMalformed, isInner, leadsDeclaration, leadsStatement,
          Cursor.startsStatement] at ht hstmt
    · have hends : Ends semicolon c := by
        refine ⟨hsemi, t :: inner, hrest, List.forall_mem_cons.mpr ⟨?_, hinner⟩⟩
        simpa [opensMalformed, hdecl, hstmt] using ht
      have hstops : Stops leadsStatement c.rest := by
        rw [hrest]
        exact Stops.cons (Bool.eq_false_iff.mpr hstmt)
      rw [statementWith, bind_eq_of_ok (acceptIf_eq_none hstops)]
      exact expressionStatement_settles hexpr hends

/-! ## Going on behind the semicolon -/

lemma isInner_iff {k : Kind} (h : isInner k = true) :
    Cursor.startsStatement k = false ∧ k ≠ .semicolon := by
  revert h
  cases k <;> decide

lemma skipCount_semicolon (hsemi : semicolon.kind = .semicolon) (more : List Token) :
    Cursor.skipCount semicolon more = 0 := by
  cases more with
  | nil => rfl
  | cons u us => simp [Cursor.skipCount, hsemi]

lemma skipCount_inner {t : Token} {inner more : List Token} (hsemi : semicolon.kind = .semicolon)
    (ht : t.kind ≠ .semicolon) (hinner : ∀ u ∈ inner, isInner u.kind = true) :
    Cursor.skipCount t (inner ++ semicolon :: more) = inner.length + 1 := by
  induction inner generalizing t with
  | nil => simp [Cursor.skipCount, ht, hsemi, skipCount_semicolon hsemi, Cursor.startsStatement]
  | cons u us ih =>
    obtain ⟨hu, hus⟩ := List.forall_mem_cons.mp hinner
    obtain ⟨hstarts, hne⟩ := isInner_iff hu
    simp [Cursor.skipCount, ht, hstarts, ih hne hus]

/-- From the `inner` tokens of a statement `synchronize` gets right behind its semicolon. -/
lemma synchronize_inner {inner more : List Token} (hsemi : semicolon.kind = .semicolon)
    (hinner : ∀ u ∈ inner, isInner u.kind = true) (hrest : c.rest = inner ++ semicolon :: more) :
    c.synchronize = { c with rest := more, position := c.position + (inner.length + 1) } := by
  cases inner with
  | nil =>
    rw [Cursor.synchronize, hrest]
    simp [skipCount_semicolon hsemi]
  | cons t ts =>
    obtain ⟨ht, hts⟩ := List.forall_mem_cons.mp hinner
    rw [Cursor.synchronize, hrest]
    dsimp only [List.cons_append]
    rw [skipCount_inner hsemi (isInner_iff ht).2 hts]
    simp [Nat.add_comm, Nat.add_left_comm]

/-! ## Programs -/

/-- One declaration of a `program` and the others. -/
lemma program_succ {decl : Reader (Option Stmt)} {steps : ℕ} {first : Option Stmt}
    {rest : List Stmt} {e : Cursor} (hrest : c.rest ≠ []) (h : decl c = .ok first d)
    (hmore : program decl steps d = .ok rest e) :
    program decl (steps + 1) c = .ok (first.toList ++ rest) e := by
  have hend : atEnd c = .ok false c := by simp [atEnd, Cursor.atEnd, hrest]
  rw [program, bind_eq_of_ok hend]
  exact (bind_eq_of_ok h).trans (bind_eq_of_ok hmore)

/-- Declarations that the grammar derives (`hparts`) are read first, and then what stands behind
them. -/
lemma program_behind {n : ℕ} (parts : List (List Token × Stmt × Bool))
    (hparts : ∀ p ∈ parts, DerivesStmt .nearest .declaration p.1 p.2.1 p.2.2) :
    ∀ {steps : ℕ} {c : Cursor} {rest : List Token}, c.rest = parts.flatMap Prod.fst ++ rest →
      NoElse rest → c.rest.length + 3 ≤ n → c.rest.length < steps →
      ∃ kept d k, kept.map Stmt.anonymous = (parts.map fun p => p.2.1).map Stmt.anonymous ∧
        Span c d (parts.flatMap Prod.fst) [] ∧ d.rest = rest ∧ rest.length < k ∧
        ∀ more e, program (declaration n) k d = .ok more e →
          program (declaration n) steps c = .ok (kept ++ more) e := by
  induction parts with
  | nil =>
    intro steps c rest hc hstops hn hsteps
    exact ⟨[], c, steps, rfl, Span.refl c, hc, by rwa [hc] at hsteps, fun _ _ h => h⟩
  | cons p parts ih =>
    intro steps c rest hc hstops hn hsteps
    obtain ⟨hp, hparts⟩ := List.forall_mem_cons.mp hparts
    rw [List.flatMap_cons, List.append_assoc] at hc
    have hlen : c.rest.length = p.1.length + (parts.flatMap Prod.fst ++ rest).length := by
      rw [hc, List.length_append]
    obtain ⟨t, ts, hts, -⟩ := hp.starts
    have hpos : 0 < p.1.length := by simp [hts]
    have hne : c.rest ≠ [] := List.ne_nil_of_length_pos (by omega)
    obtain ⟨steps, rfl⟩ : ∃ k, steps = k + 1 := ⟨steps - 1, by omega⟩
    obtain ⟨v, d, hr, hrest, herrors, hv⟩ :=
      (readsStatements_readsDeclarations n p.1.length (by omega)).2 p.1 _ p.2.1 p.2.2 c hp le_rfl hc
        (noElse_append parts hparts hstops)
    obtain ⟨s, rfl, hs⟩ : ∃ s, v = some s ∧ s.anonymous = p.2.1.anonymous := by simpa using hv
    obtain ⟨used, noted, hspan, -⟩ := ((statement_declaration_reads n c hn).2 hne).ok hr
    -- The span is known by where it ends and by the errors at its end.
    obtain rfl : p.1 = used := by
      have happend := hspan.rest
      rw [hc, hrest] at happend
      exact List.append_cancel_right happend
    obtain rfl : noted = [] := by simpa [herrors] using hspan.errors
    rw [← hrest] at hlen
    obtain ⟨kept, e, k, hkept, hspan', hrest', hk, hmore⟩ :=
      ih hparts hrest hstops (by omega) (show _ < steps by omega)
    refine ⟨s :: kept, e, k, by simp [hs, hkept], ?_, hrest', hk, fun more f hf => ?_⟩
    · simpa using hspan.trans hspan'
    · simpa using program_succ hne hr (hmore more f hf)

/-- A program `before` that was accepted on its own is read first, and then what stands behind
it. -/
lemma program_behind_accepted {before : List Token} {i : NodeId}
    (h : (parseProgram before i).errors = []) {n steps : ℕ} {rest : List Token}
    (hc : c.rest = textOf before ++ rest) (hstops : NoElse rest) (hn : c.rest.length + 3 ≤ n)
    (hsteps : c.rest.length < steps) :
    ∃ kept d k, kept.map Stmt.anonymous = (parseProgram before i).statements.map Stmt.anonymous ∧
      Span c d (textOf before) [] ∧ d.rest = rest ∧ rest.length < k ∧
      ∀ more e, program (declaration n) k d = .ok more e →
        program (declaration n) steps c = .ok (kept ++ more) e := by
  obtain ⟨parts, hparts, htext, hstatements⟩ := (parseProgram_reads before i).2.2 h
  rw [← htext] at hc
  rw [← hstatements, ← htext]
  exact program_behind parts hparts hc hstops hn hsteps

/-- A text `front` without end of input in front of another token list. -/
lemma start_behind {front : List Token} (hfront : ∀ t ∈ front, t.kind ≠ .eof) (tail : List Token)
    (i j : NodeId) :
    (Cursor.start (front ++ tail) i).rest = front ++ textOf tail ∧
      (tail ≠ [] → (Cursor.start (front ++ tail) i).last = (Cursor.start tail j).last) := by
  refine ⟨List.takeWhile_append_of_pos (by simpa using hfront), fun hne => ?_⟩
  have hnone : front.find? (·.kind = .eof) = none := by simpa using hfront
  obtain ⟨t, ht⟩ : ∃ t, tail.getLast? = some t := ⟨_, List.getLast?_eq_some_getLast hne⟩
  simp [Cursor.start, List.find?_append, hnone, List.getLast?_append, ht]

lemma noElse_of_forall {ts : List Token} (hne : ts ≠ []) (h : ∀ t ∈ ts, t.kind ≠ .elseWord)
    (more : List Token) : NoElse (ts ++ more) := by
  obtain ⟨t, ts, rfl⟩ := List.exists_cons_of_ne_nil hne
  exact Stops.cons (decide_eq_false (h t List.mem_cons_self))

/-- Of a declaration that is `lost` between an accepted program and other tokens nothing remains but
its `own` errors. -/
lemma parseProgram_lost {before lost : List Token} {i : NodeId}
    (hbefore : (parseProgram before i).errors = [])
    (hlost : lost ≠ []) (hkinds : ∀ t ∈ lost, t.kind ≠ .eof) (after : List Token)
    (hstops : NoElse (lost ++ textOf after)) (own : ℕ → List GrammarError)
    (hdecl : ∀ {n : ℕ} {c : Cursor}, c.rest = lost ++ textOf after → c.rest.length + 3 ≤ n →
      ∃ d, declaration (n + 1) c = .ok none d ∧ d.rest = textOf after ∧
        d.errors.toList = c.errors.toList ++ own c.position) (k l : NodeId) :
    (parseProgram (textOf before ++ (lost ++ after)) l).statements.map Stmt.anonymous =
        (parseProgram before i).statements.map Stmt.anonymous ++
        (parseProgram after k).statements.map Stmt.anonymous ∧
      (parseProgram (textOf before ++ (lost ++ after)) l).errors =
        own (textOf before).length ++ (parseProgram after k).errors.map
          (GrammarError.later ((textOf before).length + lost.length)) := by
  let tokens := textOf before ++ (lost ++ after)
  have hfront : ∀ t ∈ textOf before ++ lost, t.kind ≠ .eof :=
    List.forall_mem_append.mpr ⟨fun t => kind_of_mem_textOf, hkinds⟩
  obtain ⟨hrest, hlast⟩ := start_behind hfront after l k
  rw [List.append_assoc] at hlast
  have hrest : (Cursor.start tokens l).rest = textOf before ++ (lost ++ textOf after) := by
    rw [List.append_assoc, List.append_assoc] at hrest
    exact hrest
  have hlen : (Cursor.start tokens l).rest.length ≤ tokens.length := length_textOf_le tokens
  have hn : (Cursor.start tokens l).rest.length + 4 ≤ stepsFor tokens := Nat.add_le_add_right hlen 4
  -- What was accepted, what is lost, and what stands behind it.
  obtain ⟨kept, c, steps, hkept, hspan, hc, hsteps, hprogram⟩ :=
    program_behind_accepted hbefore hrest hstops (Nat.le_of_succ_le hn)
      (show _ < stepsFor tokens by omega)
  have hshort := hspan.length
  have hcne : c.rest ≠ [] := by simp [hc, hlost]
  obtain ⟨steps, rfl⟩ : ∃ m, steps = m + 1 := ⟨steps - 1, by omega⟩
  obtain ⟨d, hd, hrest', herrors⟩ := hdecl hc (show c.rest.length + 3 ≤ tokens.length + 3 by omega)
  obtain ⟨used, noted, hspan', hmoved⟩ :=
    ((statement_declaration_reads _ c (by omega)).2 hcne).ok hd
  -- The steps that remain are enough for the tokens that remain.
  have hused := hspan'.length
  have hpos : 0 < used.length := List.length_pos_iff.mpr hmoved.moved
  rw [hc, List.length_append, hrest'] at hused
  rw [List.length_append] at hsteps
  rw [hc, List.length_append] at hshort
  have hlast' : textOf after ≠ [] → d.last = (Cursor.start after k).last := fun hne =>
    (hspan'.last.trans hspan.last).trans (hlast fun hnil => hne (by rw [hnil]; rfl))
  rw [← hrest'] at hused hsteps hshort
  obtain ⟨kept', e, hr, hkept', herrors'⟩ := program_elsewhere after k hrest' hlast'
    (show d.rest.length + 3 ≤ stepsFor tokens by omega) (show d.rest.length < steps by omega)
  have hposition : c.position = (textOf before).length := hspan.position.trans (Nat.zero_add _)
  have hposition' : d.position = (textOf before).length + lost.length := by
    rw [hspan'.position, hposition]
    omega
  have hnone : c.errors.toList = [] := hspan.errors
  rw [parseProgram_of_ok (hprogram _ e (program_succ hcne hd hr))]
  refine ⟨by rw [List.map_append, hkept, Option.toList_none, List.nil_append, hkept'], ?_⟩
  rw [herrors', herrors, hnone, hposition', hposition, List.nil_append]

/-! ## Malformed statements -/

/-- The tokens of a statement up to its semicolon, as far as they can be told to belong to it. -/
inductive IsMalformed : List Token → Prop where
  | mk {t : Token} {inner : List Token} :
      opensMalformed t.kind = true → (∀ u ∈ inner, isInner u.kind = true) → IsMalformed (t :: inner)

lemma isMalformed_of {malformed : List Token} (hne : malformed ≠ [])
    (hkinds : ∀ t ∈ malformed,
      t.kind ∉ [.semicolon, .leftBrace, .rightBrace, .eof, .elseWord, .forWord, .classWord])
    (hwords : ∀ t ∈ malformed.tail,
      t.kind ∉ [.funWord, .varWord, .ifWord, .whileWord, .printWord, .returnWord]) :
    IsMalformed malformed := by
  have hopens : ∀ k : Kind, k ∉ [.semicolon, .leftBrace, .rightBrace, .eof, .elseWord, .forWord,
      .classWord] →
      opensMalformed k = true := by
    intro k
    cases k <;> decide
  have hinner : ∀ k : Kind, k ∉ [.semicolon, .leftBrace, .rightBrace, .eof, .elseWord, .forWord,
      .classWord] →
      k ∉ [.funWord, .varWord, .ifWord, .whileWord, .printWord, .returnWord] →
      isInner k = true := by
    intro k
    cases k <;> decide
  obtain ⟨t, inner, rfl⟩ := List.exists_cons_of_ne_nil hne
  obtain ⟨ht, hrest⟩ := List.forall_mem_cons.mp hkinds
  exact .mk (hopens _ ht) fun u hu => hinner _ (hrest u hu) (hwords u hu)

lemma IsMalformed.kinds {malformed : List Token} (h : IsMalformed malformed) :
    ∀ t ∈ malformed, t.kind ≠ .eof ∧ t.kind ≠ .elseWord := by
  obtain ⟨ht, hinner⟩ := h
  refine List.forall_mem_cons.mpr ⟨?_, fun u hu => ?_⟩
  · revert ht
    cases Token.kind _ <;> decide
  · have hu := hinner u hu
    revert hu
    cases u.kind <;> decide

section

variable {malformed : List Token} (hmalformed : IsMalformed malformed)
  (hsemi : semicolon.kind = .semicolon)

include hmalformed hsemi

lemma start_malformed :
    (Cursor.start (malformed ++ [semicolon]) 0).rest = malformed ++ [semicolon] := by
  have hkind : ∀ t ∈ malformed ++ [semicolon], t.kind ≠ .eof := by
    refine List.forall_mem_append.mpr ⟨fun t ht => (hmalformed.kinds t ht).1, ?_⟩
    simp [hsemi]
  simpa using (start_behind hkind [] 0 0).1

variable (hbroken : ∃ e ∈ (parseProgram (malformed ++ [semicolon]) 0).errors, e.fault.noted = false)

include hbroken

/-- If the statement has an error that stops its reading (`hbroken`), it is given up in front of the
semicolon, and its errors are those found there. -/
lemma declarationWith_malformed {n : ℕ} (hn : n = malformed.length + 4) :
    ∃ e d, declarationWith (expression n) (statement n) (declaration n) n
      (.start (malformed ++ [semicolon]) 0) = .fail e d ∧
      Ends semicolon d ∧ Within (fun _ => true) (.start (malformed ++ [semicolon]) 0) d ∧
      e.fault.noted = false ∧
      (parseProgram (malformed ++ [semicolon]) 0).errors = d.errors.toList ++ [e] := by
  have hrest := start_malformed hmalformed hsemi
  have hsteps : stepsFor (malformed ++ [semicolon]) = n + 1 := by simp [stepsFor, hn]
  have hne : (Cursor.start (malformed ++ [semicolon]) 0).rest ≠ [] := by simp [hrest]
  have hsettles : Settles semicolon (.start (malformed ++ [semicolon]) 0)
      (declarationWith (expression n) (statement n) (declaration n) n
        (.start (malformed ++ [semicolon]) 0)) := by
    obtain ⟨ht, hinner⟩ := hmalformed
    exact declarationWith_settles n hrest hsemi ht hinner
  -- What the whole program comes to if the declaration leaves nothing behind it.
  have hparsed : ∀ first d,
      declaration (n + 1) (.start (malformed ++ [semicolon]) 0) = .ok first d → d.rest = [] →
      (parseProgram (malformed ++ [semicolon]) 0).errors = d.errors.toList := by
    intro first d hfirst hend
    have hprogram := program_succ hne hfirst (program_of_nil hend (show 0 < n by omega))
    rw [← hsteps] at hprogram
    rw [parseProgram_of_ok hprogram]
  cases hr : declarationWith (expression n) (statement n) (declaration n) n
    (.start (malformed ++ [semicolon]) 0) with
  | ok s d =>
    rw [hr] at hsettles
    obtain ⟨hend, used, noted, hspan, -, hnoted⟩ := hsettles
    have herrors := hparsed (some s) d (by rw [declaration, recovering, hr]) hend
    -- Had the statement been read over its semicolon, no error would have stopped the reading.
    obtain ⟨e, he, hfault⟩ := hbroken
    rw [herrors, hspan.errors] at he
    rw [hnoted e he] at hfault
    exact absurd hfault (by decide)
  | fail e d =>
    rw [hr] at hsettles
    obtain ⟨hends, hwithin, hfault⟩ := hsettles
    obtain ⟨inner, hinner, hkinds⟩ := hends.rest
    -- What is left of the statement has no token at which going on could stop earlier.
    have hsynchronize := synchronize_inner (c := d.record e) hsemi hkinds hinner
    have herrors := hparsed none (d.record e).synchronize (by rw [declaration, recovering, hr])
      (by rw [hsynchronize])
    refine ⟨e, d, rfl, hends, hwithin, hfault, herrors.trans ?_⟩
    rw [hsynchronize]
    simp [Cursor.record]
  | exhausted =>
    have hread := (statement_declaration_reads (n + 1) (.start (malformed ++ [semicolon]) 0)
      (by simp [hrest, hn])).2 hne
    rw [Reads, declaration, recovering, hr] at hread
    exact hread.elim

lemma countP_malformed :
    (parseProgram (malformed ++ [semicolon]) 0).errors.countP (fun e => !e.fault.noted) = 1 := by
  obtain ⟨e, d, -, -, ⟨used, noted, hspan, -, hnoted⟩, hfault, herrors⟩ :=
    declarationWith_malformed hmalformed hsemi hbroken rfl
  have hnone : noted.countP (fun e => !e.fault.noted) = 0 := by
    rw [List.countP_eq_zero]
    intro x hx
    simp [hnoted x hx]
  rw [herrors, hspan.errors, List.countP_append, List.countP_append, hnone]
  simp [Cursor.start, hfault]

/-- Wherever the `malformed` statement stands, nothing is kept of it, its errors are noted, and
reading goes on behind its semicolon. -/
lemma declaration_malformed {n : ℕ} {more : List Token}
    (hrest : c.rest = malformed ++ [semicolon] ++ more) (hn : c.rest.length + 3 ≤ n) :
    ∃ d, declaration (n + 1) c = .ok none d ∧ d.rest = more ∧
      d.errors.toList = c.errors.toList ++
        (parseProgram (malformed ++ [semicolon]) 0).errors.map (GrammarError.later c.position) := by
  obtain ⟨e, d, hfail, hends, -, -, herrors⟩ :=
    declarationWith_malformed hmalformed hsemi hbroken rfl
  obtain ⟨inner, hinner, hkinds⟩ := hends.rest
  have hstart := start_malformed hmalformed hsemi
  have hle : malformed.length + 4 ≤ n := by
    rw [hrest] at hn
    simp only [List.length_append, List.length_cons, List.length_nil] at hn
    omega
  -- The same as on its own, but in front of other tokens.
  let p : Placement := ⟨more, c.position, c.errors.toList, c.nextId, False, False.elim⟩
  have hc : p.Cursors (.start (malformed ++ [semicolon]) 0) c :=
    ⟨by rw [hstart, hrest], False.elim, (Nat.zero_add _).symm, (Nat.zero_add _).symm,
      (List.append_nil _).symm⟩
  obtain ⟨hstmt, hdecl⟩ := p.closed.statement_declaration Placement.Readers.recovering hle
  have hexpr := (p.closed.restrict fun _ _ => rfl).expression hle
  have hreply :=
    (p.closed.declarationWith hexpr hstmt hdecl hle).replies _ _ hc (.inr (by simp [hstart]))
  rw [hfail] at hreply
  obtain ⟨d', hfail', hd⟩ := hreply (.inr (by simp [hinner]))
  have hrest' : d'.rest = inner ++ semicolon :: more := by
    rw [hd.rest, hinner, List.append_assoc]
    rfl
  have hsynchronize := synchronize_inner (c := d'.record (e.later c.position)) hsemi hkinds hrest'
  have herrors' : d'.errors.toList =
      c.errors.toList ++ d.errors.toList.map (GrammarError.later c.position) := hd.errors
  refine ⟨(d'.record (e.later c.position)).synchronize, by rw [declaration, recovering, hfail'],
    by rw [hsynchronize], ?_⟩
  rw [hsynchronize]
  simp [Cursor.record, herrors', herrors]

end

/-- Recovery isolates one malformed statement.  Between an accepted program `before` and any other
tokens `after`, a statement that has an error which stops its reading (`hbroken`) costs only itself:
the statements before and behind it are kept, and the errors are its `own` and those behind it.
Only one of its own errors stops the reading. -/
theorem malformed_statement_isolated (before malformed after : List Token) (semicolon : Token)
    (i j k l : NodeId) (hbefore : (parseProgram before i).errors = []) (hmalformed : malformed ≠ [])
    (hkinds : ∀ t ∈ malformed,
      t.kind ∉ [.semicolon, .leftBrace, .rightBrace, .eof, .elseWord, .forWord, .classWord])
    (hwords : ∀ t ∈ malformed.tail,
      t.kind ∉ [.funWord, .varWord, .ifWord, .whileWord, .printWord, .returnWord])
    (hsemi : semicolon.kind = .semicolon)
    (hbroken : ∃ e ∈ (parseProgram (malformed ++ [semicolon]) j).errors, e.fault.noted = false) :
    let whole := parseProgram (textOf before ++ (malformed ++ [semicolon] ++ after)) l
    let own := (parseProgram (malformed ++ [semicolon]) j).errors
    whole.statements.map Stmt.anonymous =
        (parseProgram before i).statements.map Stmt.anonymous ++
        (parseProgram after k).statements.map Stmt.anonymous ∧
      whole.errors = own.map (GrammarError.later (textOf before).length) ++
        (parseProgram after k).errors.map
          (GrammarError.later ((textOf before).length + (malformed ++ [semicolon]).length)) ∧
      own.countP (fun e => !e.fault.noted) = 1 := by
  intro whole own
  have hown : own = (parseProgram (malformed ++ [semicolon]) 0).errors :=
    (parseProgram_numbered _ j 0).2
  have hmalformed := isMalformed_of hmalformed hkinds hwords
  have hbroken : ∃ e ∈ (parseProgram (malformed ++ [semicolon]) 0).errors, e.fault.noted = false :=
    hown ▸ hbroken
  have hplain : ∀ t ∈ malformed ++ [semicolon], t.kind ≠ .eof ∧ t.kind ≠ .elseWord :=
    List.forall_mem_append.mpr ⟨hmalformed.kinds, by simp [hsemi]⟩
  have hne : malformed ++ [semicolon] ≠ [] := by simp
  obtain ⟨hstatements, herrors⟩ := parseProgram_lost hbefore hne (fun t ht => (hplain t ht).1) after
    (noElse_of_forall hne (fun t ht => (hplain t ht).2) _)
    (fun position => (parseProgram (malformed ++ [semicolon]) 0).errors.map
      (GrammarError.later position))
    (declaration_malformed hmalformed hsemi hbroken) k l
  rw [hown]
  exact ⟨hstatements, herrors, countP_malformed hmalformed hsemi hbroken⟩

/-- In `print a; if (nil = a) b c; print b;` the middle statement has an error that is noted and one
that stops its reading. -/
theorem malformed_if_isolated :
    let a : Token := ⟨.identifier, "a", none, 1⟩
    let b : Token := ⟨.identifier, "b", none, 1⟩
    let c : Token := ⟨.identifier, "c", none, 1⟩
    let print : Token := ⟨.printWord, "print", none, 1⟩
    let semicolon : Token := ⟨.semicolon, ";", none, 1⟩
    let equal : Token := ⟨.equal, "=", none, 1⟩
    let malformed : List Token := [⟨.ifWord, "if", none, 1⟩, ⟨.leftParen, "(", none, 1⟩,
      ⟨.nilWord, "nil", none, 1⟩, equal, a, ⟨.rightParen, ")", none, 1⟩, b, c]
    let whole :=
      parseProgram ([print, a, semicolon] ++ (malformed ++ [semicolon] ++ [print, b, semicolon])) 7
    whole.statements.map Stmt.anonymous = [.print (.read 0 a), .print (.read 0 b)] ∧
      whole.errors = [⟨.assignmentTarget, equal, 6⟩, ⟨.noExpressionEnd, c, 10⟩] := by
  intro a b c print semicolon equal malformed whole
  obtain ⟨hstatements, herrors, -⟩ := malformed_statement_isolated [print, a, semicolon] malformed
    [print, b, semicolon]
    semicolon 0 0 0 7 rfl (by simp [malformed]) (by simp [malformed, a, b, c, equal])
      (by simp [malformed, a, b, c, equal]) rfl
    ⟨⟨.noExpressionEnd, c, 7⟩, List.mem_cons_of_mem _ List.mem_cons_self, rfl⟩
  exact ⟨hstatements, herrors⟩

end LoxLang.Grammar
