import LoxLang.Proofs.Machine.Lookups
import LoxLang.Proofs.Scope.Shadowing
import LoxLang.Proofs.Session.ScopeAgreement

/-!
# Search agrees with depths

A session can find its variables by search alone.  As long as no program shadows a name late,
nothing changes: search stops at the frame that the recorded depth leads to, for none of the frames
before it ever binds the name.
-/

namespace LoxLang

/-! ## Frames that search finds -/

/-- From a frame `f` on, search for a name that is `Clear` comes to the frame at its depth; without
a depth it comes to the `globals`. -/
lemma Chain.holderWithin_of_clear {made : Account} {store : Store} {globals f : FrameId}
    {origins : List Origin} {scopes : Scopes} {x : String}
    (h : Chain made store globals f origins scopes) (hlast : store.enclosing? globals = none)
    (hnames : ∀ g o, made g = some o → store.Binds g x → o.Declares x)
    (hclear : Clear x origins scopes) (n : ℕ) (hn : f ≤ n) :
    store.holderWithin x (n + 1) f =
      match scopes.depth? x with
      | some d => store.holderAt? f d x
      | none => store.holder? globals x := by
  induction h generalizing n with
  | globals _ => simp [Scopes.depth?, Store.holder?, Store.holderWithin, hlast]
  | @inner f outer o origins scope scopes hmade henclosing hyounger hready hsettled _ ih =>
    obtain ⟨hpending, hdeclared⟩ := hclear
    rw [List.forall₂_cons] at hdeclared
    rw [Scopes.depth?_cons]
    by_cases hdeclares : scope.declares x
    · obtain ⟨v, hv⟩ := (hready x (Scope.lookup_of_declares hdeclares hpending)).exists
      simp [hdeclares, Store.holderWithin, Store.holderAt?, Store.ancestor?, Option.filter, hv]
    · -- A frame binds only names that its scope declares, and of those `x` would be ready by now.
      have hunbound : store.local? f x = none := by
        by_contra hsome
        have hbinds : store.Binds f x := Option.isSome_iff_ne_none.mpr hsome
        have htrue := hdeclared.1 (hnames f o hmade hbinds)
        exact hdeclares ((Scope.declares_iff scope x).mpr (by simp [htrue]))
      have hlt : outer < n := Nat.lt_of_lt_of_le hyounger hn
      obtain ⟨n, rfl⟩ := Nat.exists_eq_add_one_of_ne_zero (Nat.ne_zero_of_lt hlt)
      have houter := ih ⟨hsettled.not_pending x, hdeclared.2⟩ n (Nat.le_of_lt_succ hlt)
      rw [if_neg hdeclares, Store.holderWithin, hunbound]
      simp only [henclosing, Option.bind_some, houter]
      cases scopes.depth? x with
      | none => rfl
      | some d => simp [Store.holderAt?, Store.ancestor?, henclosing]

lemma Standing.holder?_byName {P : Site → Prop} {C : FrameId → Origin → Prop} {made : Account}
    {m : Machine} {w : Site} (h : Standing made m w.origins w.scopes) (hsound : made.Sound P C m)
    (hclear : w.Clear) (hdepth : m.depths.get? w.id = w.depth?) :
    m.holder? .byDepth w.id w.name.lexeme = m.holder? .byName w.id w.name.lexeme := by
  have hsearch := h.chain.holderWithin_of_clear hsound.globals_last
    (fun g o => hsound.names g o _) hclear m.current le_rfl
  rw [Site.depth?] at hdepth
  simp only [Machine.holder?, hdepth]
  refine Eq.trans ?_ hsearch.symm
  cases w.scopes.depth? w.name.lexeme <;> rfl

namespace Session

variable (readings : ℕ → Float) (sink : Sink)

/-- No accepted program of a session shadows a name late: each is `LoxLang.LateShadowingFree`. -/
def LateShadowingFree (runs : List (ℕ × String)) : Prop :=
  ∀ earlier steps source later, runs = earlier ++ (steps, source) :: later →
    (after readings sink earlier).Accepts source →
    LoxLang.LateShadowingFree (Program.read source (after readings sink earlier).nextId).statements

/-- The session after sources have been run with the way `lookup` to find variables. -/
def afterBy (lookup : Lookup) (runs : List (ℕ × String)) : Session :=
  runs.foldl (fun s r => (s.runBy lookup r.1 r.2).2) (Session.start readings sink)

variable {readings sink} {runs : List (ℕ × String)}

lemma LateShadowingFree.of_append {more : List (ℕ × String)}
    (h : LateShadowingFree readings sink (runs ++ more)) :
    LateShadowingFree readings sink runs := by
  rintro earlier steps source later rfl
  exact h earlier steps source (later ++ more) (by simp)

lemma LateShadowingFree.clear (h : LateShadowingFree readings sink runs) {w : Site}
    (hw : IsSite readings sink runs w) : w.Clear := by
  obtain ⟨earlier, steps, source, later, hruns, haccepts, hmem⟩ := hw
  exact (h earlier steps source later hruns haccepts).clear_sites (Program.shaped _ _) w hmem

/-- Without late shadowing, search `.byName` finds the same variables at every moment of a
session. -/
lemma LateShadowingFree.findAlike (h : LateShadowingFree readings sink runs) :
    FindAlike .byDepth .byName (IsMoment readings sink runs) where
  read k id name m hm := by
    obtain ⟨w, P, made, hw, hsite, -, hdepth, hsound, hat⟩ := hm.exprAt (List.mem_singleton.mpr rfl)
    have hid : w.id = id := by rw [Site.id, hw]
    have hname : w.name = name := by rw [Site.name, hw]
    subst hid hname
    rw [Machine.read?_eq_bind_holder?, Machine.read?_eq_bind_holder?,
      hat.standing.holder?_byName hsound (h.clear hsite) hdepth]
  assign k id name value m v m' hm hv := by
    obtain ⟨w, P, made, hw, hsite, -, hdepth, hsound, hat⟩ :=
      hm.exprAt (List.mem_append_right _ (List.mem_singleton.mpr rfl))
    have hid : w.id = id := by rw [Site.id, hw]
    have hname : w.name = name := by rw [Site.name, hw]
    subst hid hname
    obtain ⟨hdepths, made', hsound', hstanding⟩ := hm.assign hv hsound hat
    exact hstanding.holder?_byName hsound' (h.clear hsite) (by rw [hdepths]; exact hdepth)

/-- Two ways to find variables, `lookup` and `lookup'`, give the same run of a source if its
program, once accepted, is executed alike. -/
lemma runBy_congr {s : Session} {lookup lookup' : Lookup} {steps : ℕ} {source : String}
    (h : s.Accepts source →
      executeAll (LoxLang.execute lookup steps) (Program.read source s.nextId).statements
          (s.ready source).machine =
        executeAll (LoxLang.execute lookup' steps) (Program.read source s.nextId).statements
          (s.ready source).machine) :
    s.runBy lookup steps source = s.runBy lookup' steps source := by
  by_cases haccepts : s.Accepts source
  · rw [runBy_of_accepts haccepts, runBy_of_accepts haccepts, Session.execute, Session.execute,
      runProgram, runProgram, h haccepts]
  · rcases unread_or_misused haccepts with hread | ⟨hread, hmisused⟩
    · rw [runBy_of_unread hread, runBy_of_unread hread]
    · rw [runBy_of_misused hread hmisused, runBy_of_misused hread hmisused]

lemma LateShadowingFree.runBy {steps : ℕ} {source : String}
    (h : LateShadowingFree readings sink (runs ++ [(steps, source)])) :
    (after readings sink runs).runBy .byName steps source =
      (after readings sink runs).runBy .byDepth steps source := by
  refine (runBy_congr fun haccepts => ?_).symm
  refine executeAll_congr _ _ fun before s rest m hsplit hbefore => ?_
  have hclosed := startClosed_isMoment readings sink (runs ++ [(steps, source)])
  apply (runs_alike hclosed h.findAlike steps).2
  exact ⟨runs, steps, source, [], rfl, haccepts, before, s, rest, m, hsplit, hbefore, .self⟩

lemma LateShadowingFree.afterBy (h : LateShadowingFree readings sink runs) :
    Session.afterBy readings sink .byName runs = after readings sink runs := by
  induction runs using List.reverseRecOn with
  | nil => rfl
  | append_singleton runs r ih =>
    obtain ⟨steps, source⟩ := r
    rw [Session.afterBy, List.foldl_append, ← Session.afterBy, ih h.of_append, after_concat,
      Session.run]
    exact congrArg Prod.snd h.runBy

/-- In a session without late shadowing (`hfree`) it makes no difference whether variables are found
at their depths or by search, `.byName`: every run has the same outcome and leaves the same session
behind, with the same output and the same bindings. -/
theorem search_agrees_with_depths (readings : ℕ → Float) (sink : Sink) (runs : List (ℕ × String))
    (hfree : LateShadowingFree readings sink runs) (earlier : List (ℕ × String)) (steps : ℕ)
    (source : String) (later : List (ℕ × String))
    (hruns : runs = earlier ++ (steps, source) :: later) :
    (afterBy readings sink .byName earlier).runBy .byName steps source =
      (after readings sink earlier).run steps source := by
  have hfree' : LateShadowingFree readings sink (earlier ++ [(steps, source)]) := by
    have hsplit : runs = (earlier ++ [(steps, source)]) ++ later := by
      rw [hruns, List.append_assoc]; rfl
    exact (hsplit ▸ hfree).of_append
  rw [hfree'.of_append.afterBy, hfree'.runBy, Session.run]

/-- The two ways agree on `{var a=nil;a=a;}`. -/
theorem search_agrees_in_block :
    LateShadowingFree (fun _ => 0) .unlimited [(4, "{var a=nil;a=a;}")] ∧
      (afterBy (fun _ => 0) .unlimited .byName []).runBy .byName 4 "{var a=nil;a=a;}" =
        (after (fun _ => 0) .unlimited []).run 4 "{var a=nil;a=a;}" := by
  have hfree : LateShadowingFree (fun _ => 0) .unlimited [(4, "{var a=nil;a=a;}")] := by
    intro earlier steps source later hruns _
    obtain ⟨rfl, hrest⟩ := List.append_eq_singleton_iff.mp hruns.symm |>.resolve_right (by simp)
    obtain ⟨⟨rfl, rfl⟩, rfl⟩ : (steps = 4 ∧ source = "{var a=nil;a=a;}") ∧ later = [] := by
      simpa using hrest
    let name : Token := ⟨.identifier, "a", none, 1⟩
    have hstatements : (Program.read "{var a=nil;a=a;}" 0).statements =
        [.block [.var name (some (.literal .nil)), .expression (.assign 2 name (.read 1 name))]] :=
      rfl
    rw [show (after (fun _ => 0) .unlimited []).nextId = 0 from rfl, hstatements]
    decide
  exact ⟨hfree, search_agrees_with_depths (fun _ => 0) .unlimited _ hfree [] 4 _ [] rfl⟩

end Session

end LoxLang
