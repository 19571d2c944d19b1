import LoxLang.Proofs.Session.History

/-!
# Resolver and machine agree on scopes

Whenever a read of a variable or an assignment is evaluated, the frames from the current one
outwards are one for each scope that the resolver had open there, opened by the same blocks and
functions.  So a read at a recorded depth finds its name, and so does an assignment, unless it lies
in the initializer of its own variable.
-/

namespace LoxLang

open LoxLang.Action

/-! ## Frames of a chain -/

section

variable {made : Account} {store : Store} {globals f : FrameId} {origins : List Origin}
  {scopes : Scopes} {x : String}

/-- The `frames` of a chain, in order, with what opened them. -/
lemma Chain.frames (h : Chain made store globals f origins scopes)
    (hlast : store.enclosing? globals = none) :
    ∃ frames, store.IsChain f (frames ++ [globals]) ∧
      List.Forall₂ (fun g o => made g = some o) frames origins := by
  induction h with
  | globals _ => exact ⟨[], .last hlast, .nil⟩
  | @inner f outer o origins scope scopes hmade henclosing _ _ _ _ ih =>
    obtain ⟨frames, hchain, hmades⟩ := ih
    exact ⟨f :: frames, .inner henclosing hchain, .cons hmade hmades⟩

lemma Scopes.Settled.not_pending (h : scopes.Settled) (x : String) : scopes.pending x = false := by
  cases scopes with
  | nil => rfl
  | cons scope outer =>
    have hscope := h scope (by simp) x
    simpa [Scopes.pending, Scope.pending_iff, ← Bool.not_eq_true] using hscope

/-- The frame at the depth `d` of a name binds it, unless the name is not ready yet. -/
lemma Chain.binds_of_not_pending (h : Chain made store globals f origins scopes)
    (hpending : scopes.pending x = false) {d : ℕ} (hd : scopes.depth? x = some d) :
    ∃ g, store.ancestor? f d = some g ∧ store.Binds g x := by
  induction h generalizing d with
  | globals _ => exact absurd hd (by simp [Scopes.depth?])
  | @inner f outer o origins scope scopes hmade henclosing _ hready hsettled _ ih =>
    rw [Scopes.depth?_cons] at hd
    by_cases hdeclares : scope.declares x
    · rw [if_pos hdeclares] at hd
      obtain rfl := Option.some.inj hd
      exact ⟨f, rfl, hready x (Scope.lookup_of_declares hdeclares hpending)⟩
    · rw [if_neg hdeclares] at hd
      obtain ⟨n, hn, rfl⟩ := Option.map_eq_some_iff.mp hd
      obtain ⟨g, hg, hbinds⟩ := ih (hsettled.not_pending x) hn
      exact ⟨g, by simp [Store.ancestor?, henclosing, hg], hbinds⟩

end

/-! ## Variables at a moment -/

section

variable {P : Site → Prop} {C : FrameId → Origin → Prop} {made : Account} {m : Machine}
  {w : Site} {d : ℕ}

/-- A name that is ready is found at its depth `d`. -/
lemma Standing.holderAt? (h : Standing made m w.origins w.scopes)
    (hpending : w.scopes.pending w.name.lexeme = false) (hd : w.depth? = some d) :
    ∃ f v, m.store.holderAt? m.current d w.name.lexeme = some f ∧
      m.store.getAt? m.current d w.name.lexeme = some v := by
  obtain ⟨f, hf, hbinds⟩ := h.chain.binds_of_not_pending hpending hd
  obtain ⟨v, hv⟩ := hbinds.exists
  refine ⟨f, v, ?_, ?_⟩
  · rw [Store.holderAt?, hf, Option.filter_some]
    exact if_pos hbinds
  · rw [Store.getAt?, hf]
    exact hv

/-- A name that is not ready (`hpending`) is at depth zero, and the current frame does not bind
it. -/
lemma Standing.holderAt?_of_pending (h : Standing made m w.origins w.scopes)
    (hpending : w.scopes.pending w.name.lexeme = true) :
    w.depth? = some 0 ∧ m.store.holderAt? m.current 0 w.name.lexeme = none := by
  cases hscopes : w.scopes with
  | nil => exact absurd hpending (by simp [hscopes, Scopes.pending])
  | cons scope outer =>
    have hlookup : scope.lookup w.name.lexeme = some false := by
      rw [← Scope.pending_iff]
      simpa [hscopes, Scopes.pending] using hpending
    have hdeclares : scope.declares w.name.lexeme = true := by
      rw [Scope.declares_iff, hlookup]
      simp
    refine ⟨by rw [Site.depth?, hscopes, Scopes.depth?_cons, if_pos hdeclares], ?_⟩
    have hunbound : ¬ m.store.Binds m.current w.name.lexeme := by
      rw [h.names scope outer hscopes, hlookup]
      simp
    rw [Store.holderAt?, Store.ancestor?, Option.filter_some]
    exact if_neg hunbound

end

namespace Session

variable (readings : ℕ → Float) (sink : Sink) (runs : List (ℕ × String))

/-- The frames from the current one outwards are one for each scope around a site `w`, each added by
entering the same block or by calling the same function at a moment of the session, and then comes
the global frame. -/
def Agrees (m : Machine) (w : Site) : Prop :=
  ∃ frames, m.store.IsChain m.current (frames ++ [m.globals]) ∧ frames.length = w.scopes.length ∧
    List.Forall₂ (OpenedAt .byDepth (IsMoment readings sink runs)) frames w.origins

variable {readings sink runs}

lemma agrees_of_standing {P : Site → Prop} {made : Account} {m : Machine} {w : Site}
    (hsound : made.Sound P (OpenedAt .byDepth (IsMoment readings sink runs)) m)
    (hstanding : Standing made m w.origins w.scopes) (hw : w.Sound) :
    Agrees readings sink runs m w := by
  obtain ⟨frames, hchain, hmade⟩ := hstanding.chain.frames hsound.globals_last
  refine ⟨frames, hchain, hmade.length_eq.trans hw.length, hmade.imp fun f o ho =>
    hsound.created f o ho⟩

/-- An expression `e` that is evaluated at a moment stands at the sites of its occurrences. -/
lemma IsMoment.exprAt {k : ℕ} {e : Expr} {m : Machine} {o : Occurrence}
    (h : IsMoment readings sink runs k (.evaluate e) m) (ho : o ∈ e.occurrences) :
    ∃ w P made, w.occurrence = o ∧ IsSite readings sink runs w ∧ w.Sound ∧
      m.depths.get? o.id = w.depth? ∧
      made.Sound P (OpenedAt .byDepth (IsMoment readings sink runs)) m ∧
      ExprAt P made m w.origins w.scopes w.initializing e := by
  obtain ⟨P, made, hP, hsound, origins, scopes, initializing, hat⟩ := h.taskAt
  obtain ⟨hsite, hwsound, hdepth⟩ := hP _ (hat.sites _ (List.mem_map.mpr ⟨o, ho, rfl⟩))
  exact ⟨⟨o, origins, scopes, initializing⟩, P, made, rfl, hsite, hwsound, hdepth, hsound, hat⟩

/-- What an assignment does once its value `v` is known. -/
lemma evaluate_assign {k : ℕ} {id : NodeId} {name : Token} {value : Expr}
    {m m' : Machine} {v : Value} (hv : LoxLang.evaluate .byDepth k value m = .ok v m') :
    LoxLang.evaluate .byDepth (k + 1) (.assign id name value) m =
      match m'.holder? .byDepth id name.lexeme with
      | some f => .ok v { m' with store := m'.store.define f name.lexeme v }
      | none => .stop (.error (.undefined name)) m' := by
  rw [LoxLang.evaluate]
  refine (bind_eq_of_ok hv).trans ?_
  cases hholder : m'.holder? .byDepth id name.lexeme with
  | some f =>
    have hassign : assignVariable .byDepth id name v m' =
        .ok () { m' with store := m'.store.define f name.lexeme v } := by
      rw [assignVariable, hholder]
    exact bind_eq_of_ok hassign
  | none =>
    have hassign : assignVariable .byDepth id name v m' = .stop (.error (.undefined name)) m' := by
      rw [assignVariable, hholder]
    exact bind_eq_of_stop hassign

/-- Where an assignment is made, its own frames are those around its site, as they were before its
`value` was evaluated. -/
lemma IsMoment.assign {k : ℕ} {id : NodeId} {name : Token} {value : Expr}
    {m m' : Machine} {v : Value}
    (h : IsMoment readings sink runs (k + 1) (.evaluate (.assign id name value)) m)
    (hv : LoxLang.evaluate .byDepth k value m = .ok v m') {P : Site → Prop} {made : Account}
    {origins : List Origin} {scopes : Scopes} {initializing : Option Token}
    (hsound : made.Sound P (OpenedAt .byDepth (IsMoment readings sink runs)) m)
    (hat : ExprAt P made m origins scopes initializing (.assign id name value)) :
    m'.depths = m.depths ∧
      ∃ made', made'.Sound P (OpenedAt .byDepth (IsMoment readings sink runs)) m' ∧
        Standing made' m' origins scopes := by
  have hclosed := startClosed_isMoment readings sink runs
  have hsplit : (Expr.assign id name value).parts = [] ++ value :: [] := rfl
  have hstart : Starts .byDepth k (.evaluate (.assign id name value)) m (.evaluate value) m :=
    .part hsplit evaluateAll_nil rfl
  have hvalue : ExprAt P made m origins scopes initializing value :=
    ⟨hat.standing, fun w hw => hat.sites w (Expr.sites_of_mem_parts (by simp [Expr.parts]) hw)⟩
  obtain ⟨made', hgrows, hsound', -⟩ :=
    ((tasks_lead hclosed k).1 value made m origins scopes initializing
      (hclosed _ _ _ _ _ h hstart) hsound hvalue).ok_of_eq hv
  exact ⟨hgrows.depths, made', hsound', hat.standing.grow hgrows⟩

/-- Resolver and machine agree on scopes, in every session and at every moment at which a read of a
variable or an assignment is evaluated.  The node belongs to one site `w` of an accepted program,
the machine `Agrees` with the scopes around it, and its recorded depth is the one that the resolver
found there.  With a recorded depth, a read finds its name; an assignment does too, but one that is
`inOwnInitializer` of its local variable always stops with an undefined variable. -/
theorem frames_agree_with_scopes (readings : ℕ → Float) (sink : Sink) (runs : List (ℕ × String))
    (k : ℕ) (m : Machine) :
    (∀ id name, IsMoment readings sink runs (k + 1) (.evaluate (.read id name)) m →
      ∃ w, IsSite readings sink runs w ∧ w.occurrence = ⟨.get, id, name⟩ ∧
        (∀ w', IsSite readings sink runs w' → w'.id = id → w' = w) ∧
        Agrees readings sink runs m w ∧ m.depths.get? id = w.depth? ∧
        ∀ d, m.depths.get? id = some d → ∃ v, m.store.getAt? m.current d name.lexeme = some v ∧
          LoxLang.evaluate .byDepth (k + 1) (.read id name) m = .ok v m) ∧
    (∀ id name value, IsMoment readings sink runs (k + 1) (.evaluate (.assign id name value)) m →
      ∃ w, IsSite readings sink runs w ∧ w.occurrence = ⟨.set, id, name⟩ ∧
        (∀ w', IsSite readings sink runs w' → w'.id = id → w' = w) ∧
        Agrees readings sink runs m w ∧ m.depths.get? id = w.depth? ∧
        ∀ v m', LoxLang.evaluate .byDepth k value m = .ok v m' →
          Agrees readings sink runs m' w ∧
          (w.inOwnInitializer →
            LoxLang.evaluate .byDepth (k + 1) (.assign id name value) m =
              .stop (.error (.undefined name)) m') ∧
          (¬ w.inOwnInitializer → ∀ d, m.depths.get? id = some d →
            ∃ f, m'.store.holderAt? m'.current d name.lexeme = some f ∧
              LoxLang.evaluate .byDepth (k + 1) (.assign id name value) m =
                .ok v { m' with store := m'.store.define f name.lexeme v })) := by
  refine ⟨?_, ?_⟩
  · intro id name h
    obtain ⟨w, P, made, hw, hsite, hwsound, hdepth, hsound, hat⟩ :=
      h.exprAt (List.mem_singleton.mpr rfl)
    have hid : w.id = id := by rw [Site.id, hw]
    have hname : w.name = name := by rw [Site.name, hw]
    refine ⟨w, hsite, hw, fun w' hw' hid' => hw'.unique hsite (hid'.trans hid.symm),
      agrees_of_standing hsound hat.standing hwsound, hdepth, fun d hd => ?_⟩
    -- A program with a read in its own initializer would not have been accepted.
    have hpending : w.scopes.pending w.name.lexeme = false := hwsound.readable (by rw [hw])
    obtain ⟨-, v, -, hv⟩ := hat.standing.holderAt? hpending (hdepth.symm.trans hd)
    rw [hname] at hv
    refine ⟨v, hv, ?_⟩
    have hread : m.read? .byDepth id name.lexeme = some v := by simp only [Machine.read?, hd, hv]
    rw [LoxLang.evaluate, evaluateWith, readVariable, hread]
  · intro id name value h
    obtain ⟨w, P, made, hw, hsite, hwsound, hdepth, hsound, hat⟩ :=
      h.exprAt (List.mem_append_right _ (List.mem_singleton.mpr rfl))
    have hid : w.id = id := by rw [Site.id, hw]
    have hname : w.name = name := by rw [Site.name, hw]
    refine ⟨w, hsite, hw, fun w' hw' hid' => hw'.unique hsite (hid'.trans hid.symm),
      agrees_of_standing hsound hat.standing hwsound, hdepth, fun v m' hv => ?_⟩
    -- Evaluating the value may have added frames, but it leads back to the same one.
    obtain ⟨hdepths, made', hsound', hstanding⟩ := h.assign hv hsound hat
    have hown : w.scopes.pending w.name.lexeme = true ↔ w.inOwnInitializer := hwsound.pending_iff _
    refine ⟨agrees_of_standing hsound' hstanding hwsound, fun hinside => ?_,
      fun houtside d hd => ?_⟩
    · obtain ⟨hzero, hnone⟩ := hstanding.holderAt?_of_pending (hown.mpr hinside)
      have hholder : m'.holder? .byDepth id name.lexeme = none := by
        rw [hname] at hnone
        simp only [Machine.holder?, hdepths, hdepth.trans hzero, hnone]
      rw [evaluate_assign hv, hholder]
    · have hpending : w.scopes.pending w.name.lexeme = false := by
        rw [← Bool.not_eq_true, hown]
        exact houtside
      obtain ⟨f, -, hf, -⟩ := hstanding.holderAt? hpending (hdepth.symm.trans hd)
      rw [hname] at hf
      refine ⟨f, hf, ?_⟩
      have hholder : m'.holder? .byDepth id name.lexeme = some f := by
        simp only [Machine.holder?, hdepths, hd, hf]
      rw [evaluate_assign hv, hholder]

/-- In `{var a=nil;a=a;}` the assignment and the read in it are both evaluated, inside the one frame
of the block. -/
theorem frames_agree_in_block :
    ∃ m id id' name, ∃ w w' : Site,
      IsMoment (fun _ => 0) .unlimited [(4, "{var a=nil;a=a;}")] 2
        (.evaluate (.assign id name (.read id' name))) m ∧
      IsMoment (fun _ => 0) .unlimited [(4, "{var a=nil;a=a;}")] 1 (.evaluate (.read id' name)) m ∧
      w.occurrence = ⟨.set, id, name⟩ ∧ w'.occurrence = ⟨.get, id', name⟩ ∧
      Agrees (fun _ => 0) .unlimited [(4, "{var a=nil;a=a;}")] m w ∧
      Agrees (fun _ => 0) .unlimited [(4, "{var a=nil;a=a;}")] m w' := by
  have haccepts : (after (fun _ => 0) .unlimited []).Accepts "{var a=nil;a=a;}" := ⟨rfl, rfl⟩
  let name : Token := ⟨.identifier, "a", none, 1⟩
  have hstatements : (Program.read "{var a=nil;a=a;}" 0).statements =
      [.block ([.var name (some (.literal .nil))] ++
        [.expression (.assign 2 name (.read 1 name))])] := rfl
  obtain ⟨m, hassign⟩ : ∃ m, IsMoment (fun _ => 0) .unlimited [(4, "{var a=nil;a=a;}")] 2
      (.evaluate (.assign 2 name (.read 1 name))) m :=
    ⟨_, [], 4, _, [], rfl, haccepts, [], _, [], _, hstatements, rfl,
      .next (.next .self (.block rfl)) (.head rfl)⟩
  have hparts : (Expr.assign 2 name (.read 1 name)).parts = [] ++ .read 1 name :: [] := rfl
  have hread := startClosed_isMoment _ _ _ _ _ _ _ _ hassign (.part hparts evaluateAll_nil rfl)
  obtain ⟨w, -, hw, -, hagrees, -⟩ :=
    (frames_agree_with_scopes (fun _ => 0) .unlimited [(4, "{var a=nil;a=a;}")] 1 m).2 2
      name _ hassign
  obtain ⟨w', -, hw', -, hagrees', -⟩ :=
    (frames_agree_with_scopes (fun _ => 0) .unlimited [(4, "{var a=nil;a=a;}")] 0 m).1 1 name hread
  exact ⟨m, 2, 1, name, w, w', hassign, hread, hw, hw', hagrees, hagrees'⟩

end Session

end LoxLang
