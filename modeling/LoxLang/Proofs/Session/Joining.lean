import LoxLang.Proofs.Scope.Matching
import LoxLang.Proofs.Session.Exits
import LoxLang.Proofs.Source.Joining

/-!
# Sources that are joined

Running two sources joined by a line end comes to the same as running one after the other.  The
program of the joined source is the one program followed by the other, but its node ids differ, and
the tokens of the second source stand on later lines.
-/

namespace LoxLang

/-! ## Programs -/

namespace Program

open Grammar

variable {a b source : String} {i j : NodeId}

lemma diagnostics_eq_nil_iff :
    (Program.read source i).diagnostics = [] ↔
      Source.errors source = [] ∧ (parseProgram (Source.tokens source) i).errors = [] := by
  simp [Program.read]

/-- A program `P` that is derived from a text matches what is read as that text with other
tokens. -/
lemma matches_of_anonymous {ts : List Token} {P P' : List Stmt} (h : DerivesProgram .nearest ts P)
    {g : Token → Token}
    (heq : P'.map Stmt.anonymous = (P.map (Stmt.relabel id g)).map Stmt.anonymous) :
    List.Forall₂ (Stmt.Matches anyIds fun t t' => t' = g t ∧ t ∈ ts) P P' := by
  have hmatches : List.Forall₂ (Stmt.Matches (· = ·) fun t t' => t' = g t ∧
      t ∈ ts) P (P.map (Stmt.relabel id g)) :=
    h.matches fun t ht => ⟨rfl, ht⟩
  refine Stmt.Matches.of_anonymous_all P hmatches ?_
  rw [Stmt.relabelAll_eq_map, Stmt.relabelAll_eq_map]
  exact heq.symm

/-- Reading a `source` again gives the same program with other node ids. -/
lemma read_again (h : (Program.read source i).diagnostics = []) (j : NodeId) :
    (Program.read source j).diagnostics = [] ∧
      List.Forall₂ (Stmt.Matches anyIds fun t t' => t' = t ∧ t ∈ textOf (Source.tokens source))
        (Program.read source i).statements (Program.read source j).statements := by
  obtain ⟨herrors, hsame⟩ := parseProgram_yields j (derives h)
  refine ⟨diagnostics_eq_nil_iff.mpr ⟨(diagnostics_eq_nil_iff.mp h).1, herrors⟩, ?_⟩
  refine matches_of_anonymous (g := id) (derives h) ?_
  rw [← Stmt.relabelAll_eq_map, Stmt.relabelAll_id]
  exact hsame

/-- The program of two sources `a` and `b` joined by a line end.  Its second part matches every
source `b'` that has the text of the second source up to the lines of tokens (`htext`). -/
lemma read_join {b' : String} {g : Token → Token} (hg : KeepsMeaning g)
    (ha : (Program.read a i).diagnostics = []) (hb : Source.errors b = [])
    (hb' : (Program.read b' j).diagnostics = [])
    (htext : (textOf (Source.tokens b)).map (Token.later (1 + Source.lineEnds a.toList)) =
      (textOf (Source.tokens b')).map g) (n : NodeId) :
    (Program.read (a ++ "\n" ++ b) n).diagnostics = [] ∧
      ∃ first second, (Program.read (a ++ "\n" ++ b) n).statements = first ++ second ∧
        List.Forall₂ (Stmt.Matches anyIds fun t t' => t' = t ∧ t ∈ textOf (Source.tokens a))
          (Program.read a i).statements first ∧
        List.Forall₂ (Stmt.Matches anyIds fun t t' => t' = g t ∧ t ∈ textOf (Source.tokens b'))
          (Program.read b' j).statements second := by
  have herrors := (diagnostics_eq_nil_iff.mp ha).1
  have hclosed : ∀ e ∈ Source.errors a, e.fault ≠ .unterminatedString := by simp [herrors]
  have hderives := (derives ha).append ((derives hb').relabel hg)
  rw [← htext, ← Source.textOf_join hclosed] at hderives
  obtain ⟨hparsed, hsame⟩ := parseProgram_yields n hderives
  rw [List.map_append] at hsame
  obtain ⟨first, second, hsplit, hfirst, hsecond⟩ := List.map_eq_append_iff.mp hsame
  refine ⟨diagnostics_eq_nil_iff.mpr ⟨?_, hparsed⟩, first, second, hsplit, ?_,
    matches_of_anonymous (derives hb') hsecond⟩
  · rw [Source.errors_join hclosed, herrors, hb]
    rfl
  · refine matches_of_anonymous (g := id) (derives ha) ?_
    rw [← Stmt.relabelAll_eq_map, Stmt.relabelAll_id]
    exact hfirst

end Program

/-! ## Acceptance -/

lemma bindingErrors_of_matches {tokens : Token → Token → Prop} {P P' : List Stmt}
    (htokens : KeepsText tokens) (h : List.Forall₂ (Stmt.Matches anyIds tokens) P P')
    (hP : bindingErrors (programFindings P) = []) : bindingErrors (programFindings P') = [] := by
  have hmatches := bindingErrors_matches htokens.lexeme h
  rw [hP] at hmatches
  exact List.forall₂_nil_left_iff.mp hmatches

lemma keepsMeaning_later (n : ℕ) : Grammar.KeepsMeaning (Token.later n) :=
  ⟨fun _ => rfl, fun _ => rfl⟩

lemma keepsText_later (n : ℕ) (K : Token → Prop) : KeepsText fun t t' => t' = t.later n ∧ K t :=
  keepsText_map (g := Token.later n) (fun _ => rfl) (fun _ => rfl) K

namespace Session

variable {s : Session} {a b source : String}

/-- Whether a source is accepted does not depend on the session: `s'` may be any other. -/
lemma Accepts.elsewhere (h : s.Accepts source) (s' : Session) : s'.Accepts source := by
  obtain ⟨hread, hmatches⟩ := Program.read_again h.read s'.nextId
  exact ⟨hread, bindingErrors_of_matches (keepsText_known _) hmatches h.resolved⟩

lemma Accepts.join (ha : s.Accepts a) (hb : s.Accepts b) : s.Accepts (a ++ "\n" ++ b) := by
  obtain ⟨herrors, -⟩ := Program.diagnostics_eq_nil_iff.mp hb.read
  obtain ⟨hread, first, second, hsplit, hfirst, hsecond⟩ :=
    Program.read_join (keepsMeaning_later _) ha.read herrors hb.read rfl s.nextId
  refine ⟨hread, ?_⟩
  have hshaped := Program.shaped (a ++ "\n" ++ b) s.nextId
  rw [hsplit] at hshaped ⊢
  have hnone := bindingErrors_of_matches (keepsText_known _) hfirst ha.resolved
  have hnone' := bindingErrors_of_matches (keepsText_later _ _) hsecond hb.resolved
  rw [← faultless_iff_bindingErrors] at hnone hnone' ⊢
  rw [(program_append hshaped).1, faultless_append]
  exact ⟨hnone, hnone'⟩

/-- Empty lines are a program without statements, which any session `Accepts`. -/
lemma accepts_emptyLines (s : Session) (n : ℕ) : s.Accepts (Source.emptyLines n) := by
  have htext : Grammar.textOf (Source.tokens (Source.emptyLines n)) = [] := by
    rw [Source.textOf_tokens, Source.items_emptyLines]
    rfl
  have hderives :
      Grammar.DerivesProgram .nearest (Grammar.textOf (Source.tokens (Source.emptyLines n))) [] :=
    ⟨[], by simp, htext.symm, rfl⟩
  obtain ⟨hparsed, hsame⟩ := Grammar.parseProgram_yields s.nextId hderives
  have herrors : Source.errors (Source.emptyLines n) = [] := by
    rw [Source.errors_eq, Source.items_emptyLines]
    rfl
  have hnone : (Program.read (Source.emptyLines n) s.nextId).statements = [] :=
    List.map_eq_nil_iff.mp hsame
  refine ⟨Program.diagnostics_eq_nil_iff.mpr ⟨herrors, hparsed⟩, ?_⟩
  rw [hnone]
  rfl

lemma Accepts.after_emptyLines (h : s.Accepts source) (n : ℕ) :
    s.Accepts (Source.emptyLines (1 + n) ++ source) := by
  rw [Source.emptyLines_succ]
  exact (s.accepts_emptyLines n).join h

/-! ## Runs of accepted programs -/

variable {steps steps' : ℕ}

/-- A program that is `.completed` has been executed to its end. -/
lemma ok_of_completed (haccepts : s.Accepts source) (h : (s.run steps source).1 = .completed) :
    ∃ m, executeAll (LoxLang.execute .byDepth steps) (Program.read source s.nextId).statements
        (s.ready source).machine = .ok () m ∧
      (s.run steps source).2 = { s.ready source with machine := m } := by
  rw [Session.run, runBy_of_accepts haccepts] at h ⊢
  exact ok_of_execute_completed haccepts.resolved h

lemma stop_of_failed {e : RuntimeError} (haccepts : s.Accepts source)
    (h : (s.run steps source).1 = .failed (.runtime e)) :
    ∃ m, executeAll (LoxLang.execute .byDepth steps) (Program.read source s.nextId).statements
      (s.ready source).machine = .stop (.error e) m := by
  have hflushed : ∀ m, flushed m ≠ .failed (.runtime e) := by
    intro m
    rw [flushed]
    cases m.sink.flush <;> simp
  rw [Session.run, runBy_of_accepts haccepts, execute_eq] at h
  cases hr : executeAll (LoxLang.execute .byDepth steps) (Program.read source s.nextId).statements
      (s.ready source).machine with
  | ok v m =>
    rw [hr] at h
    exact absurd h (hflushed m)
  | stop reason m =>
    rw [hr] at h
    cases reason with
    | error e' =>
      obtain rfl : e' = e := by simpa using h
      exact ⟨m, rfl⟩
    | sink fault => exact absurd h (by simp)
    | returned v => exact absurd h (hflushed m)
  | exhausted =>
    rw [hr] at h
    exact absurd h (by simp)

/-! ## Running one part after the other -/

/-- Sites at the same depth (`hdepth`), of programs that have just been read. -/
lemma sameDepth_ready {s s' : Session} {source source' : String}
    (hfresh : ∀ id, s.nextId ≤ id → s.machine.depths.get? id = none)
    (hfresh' : ∀ id, s'.nextId ≤ id → s'.machine.depths.get? id = none) {w w' : Site}
    (hw : w ∈ programSites (Program.read source s.nextId).statements)
    (hw' : w' ∈ programSites (Program.read source' s'.nextId).statements)
    (hdepth : w.depth? = w'.depth?) : (s.ready source).SameDepth (s'.ready source') w.id w'.id := by
  refine ⟨(Program.id_of_mem_sites _ _ hw).2, (Program.id_of_mem_sites _ _ hw').2, ?_⟩
  rw [get?_ready_of_mem hw hfresh, get?_ready_of_mem hw' hfresh', hdepth]

/-- A program and a matching `part` of another program come to matching results. -/
lemma executeAll_part {s s' : Session} {source source' : String} {part : List Stmt}
    {tokens tokens' : Token → Token → Prop}
    (hfresh : ∀ id, s.nextId ≤ id → s.machine.depths.get? id = none)
    (hfresh' : ∀ id, s'.nextId ≤ id → s'.machine.depths.get? id = none)
    (hpart : ∀ w ∈ programSites part, w ∈ programSites (Program.read source' s'.nextId).statements)
    (hmatches :
      List.Forall₂ (Stmt.Matches anyIds tokens) (Program.read source s.nextId).statements part)
    (htokens : ∀ t t', tokens t t' → tokens' t t') (h : KeepsText tokens') {m' : Machine}
    (hm : (s.ready source).machine.Matches ((s.ready source).pairing (s'.ready source') h) m')
    (hsteps : steps ≤ steps') :
    (executeAll (LoxLang.execute .byDepth steps) (Program.read source s.nextId).statements
      (s.ready source).machine).Matches ((s.ready source).pairing (s'.ready source') h)
      (fun _ _ => True) (executeAll (LoxLang.execute .byDepth steps') part m') := by
  have hwider :
      List.Forall₂ (Stmt.Matches anyIds tokens') (Program.read source s.nextId).statements part :=
    Stmt.Matches.mono_all htokens _ hmatches fun _ _ _ hid => hid
  have hrelated :
      List.Forall₂ (Stmt.Matches ((s.ready source).SameDepth (s'.ready source')) tokens')
      (Program.read source s.nextId).statements part :=
    Stmt.Matches.relate_allSites h.lexeme false [] [] _ hwider [] fun w hw w' hw' hdepth =>
      sameDepth_ready hfresh hfresh' hw (hpart w' hw') hdepth
  exact executeAll_matches (runs_match _ .byDepth hsteps).2 hrelated hm

variable {K : Token → Prop} (hknows : s.Knows K)
  (hfresh : ∀ id, s.nextId ≤ id → s.machine.depths.get? id = none)
  (ha : s.Accepts a) (hb : s.Accepts b) (hK : ∀ t ∈ Source.tokens a, K t)

include hknows hfresh hK

/-- The first source and the part `first` of the joined program come to matching results. -/
lemma executeAll_first {first second : List Stmt} (hsteps : steps ≤ steps')
    (hsplit : (Program.read (a ++ "\n" ++ b) s.nextId).statements = first ++ second)
    (hfirst : List.Forall₂
      (Stmt.Matches anyIds fun t t' => t' = t ∧ t ∈ Grammar.textOf (Source.tokens a))
      (Program.read a s.nextId).statements first) :
    (executeAll (LoxLang.execute .byDepth steps) (Program.read a s.nextId).statements
      (s.ready a).machine).Matches
      ((s.ready a).pairing (s.ready (a ++ "\n" ++ b)) (keepsText_known K)) (fun _ _ => True)
      (executeAll (LoxLang.execute .byDepth steps') first (s.ready (a ++ "\n" ++ b)).machine) := by
  have hshaped := Program.shaped (a ++ "\n" ++ b) s.nextId
  rw [hsplit] at hshaped
  refine executeAll_part hfresh hfresh (fun w hw => ?_) hfirst ?_ _ ?_ hsteps
  · rw [hsplit, (program_append hshaped).2]
    exact List.mem_append_left _ hw
  · rintro _ t ⟨rfl, ht⟩
    exact ⟨rfl, hK t ((List.takeWhile_prefix _).subset ht)⟩
  · exact matches_extend hknows (s.extends_ready a) (s.extends_ready _) _ fun _ _ h => h

include ha hb

/-- If the run of the first source fails, the run of the joined source `EndsAlike`. -/
lemma endsAlike_of_failed {e : RuntimeError} (hsteps : steps ≤ steps')
    (h : (s.run steps a).1 = .failed (.runtime e)) :
    EndsAlike (fun t t' => t' = t ∧ K t) (s.run steps a) (s.run steps' (a ++ "\n" ++ b)) := by
  obtain ⟨herrors, -⟩ := Program.diagnostics_eq_nil_iff.mp hb.read
  obtain ⟨-, first, second, hsplit, hfirst, -⟩ :=
    Program.read_join (keepsMeaning_later _) ha.read herrors hb.read rfl s.nextId
  obtain ⟨m, hstop⟩ := stop_of_failed ha h
  have hresult := executeAll_first hknows hfresh hK hsteps hsplit hfirst
  have hdone : (s.run steps a).1 ≠ .exhausted := by simp [h]
  rw [Session.run, runBy_of_accepts ha] at hdone ⊢
  rw [Session.run, runBy_of_accepts (ha.join hb), hsplit]
  refine endsAlike_of_matches (h := keepsText_known K) ?_ hdone
  rw [executeAll_append]
  cases hr : executeAll (LoxLang.execute .byDepth steps') first
    (s.ready (a ++ "\n" ++ b)).machine with
  -- The first part stops with the error, so the second part is not run.
  | stop reason m' =>
    rw [bind_eq_of_stop hr]
    rw [hr] at hresult
    exact hresult
  | ok v m' | exhausted =>
    rw [hstop, hr] at hresult
    exact hresult.elim

/-- If the run of the first source completes (`h`), the run of the joined source ends like the run
of the second source after it.  Instead of the second source `b`, any other `b'` with the same text
up to the lines of tokens (`htext`) may be run. -/
lemma endsAlike_of_completed {b' : String} {g : Token → Token}
    (hg : Grammar.KeepsMeaning g) {more : ℕ} (hsteps : steps ≤ more) (hsteps' : steps' ≤ more)
    (h : (s.run steps a).1 = .completed)
    (hfresh' : ∀ id, (s.run steps a).2.nextId ≤ id →
      (s.run steps a).2.machine.depths.get? id = none)
    (hb' : (s.run steps a).2.Accepts b')
    (htext : (Grammar.textOf (Source.tokens b)).map (Token.later (1 + Source.lineEnds a.toList)) =
      (Grammar.textOf (Source.tokens b')).map g)
    {tokens : Token → Token → Prop} (htokens : KeepsText tokens) (hold : ∀ t, K t → tokens t t)
    (hnew : ∀ t ∈ Source.tokens b', tokens t (g t))
    (hdone : ((s.run steps a).2.run steps' b').1 ≠ .exhausted) :
    EndsAlike tokens ((s.run steps a).2.run steps' b') (s.run more (a ++ "\n" ++ b)) := by
  obtain ⟨m, hok, hsession⟩ := ok_of_completed ha h
  generalize (s.run steps a).2 = sa at hfresh' hb' hdone hsession ⊢
  obtain ⟨herrors, -⟩ := Program.diagnostics_eq_nil_iff.mp hb.read
  -- The joined program is `first ++ second`, where `first` matches the program of `a` and `second`
  -- that of `b'`.  The run of the joined source is compared with the two runs part by part.
  obtain ⟨-, first, second, hsplit, hfirst, hsecond⟩ :=
    Program.read_join hg ha.read herrors hb'.read htext s.nextId
  have hresult := executeAll_first hknows hfresh hK hsteps hsplit hfirst
  have hshaped := Program.shaped (a ++ "\n" ++ b) s.nextId
  rw [hsplit] at hshaped
  rw [Session.run, runBy_of_accepts hb'] at hdone ⊢
  rw [Session.run, runBy_of_accepts (ha.join hb), hsplit]
  refine endsAlike_of_matches (h := htokens) ?_ hdone
  rw [executeAll_append]
  cases hr : executeAll (LoxLang.execute .byDepth more) first
    (s.ready (a ++ "\n" ++ b)).machine with
  | ok v m' =>
    rw [bind_eq_of_ok hr]
    rw [hok, hr] at hresult
    -- The first part has come to its end, on a machine `m'` that matches the one after `a`.
    refine executeAll_part hfresh' hfresh (fun w hw => ?_) hsecond ?_ _ ?_ hsteps'
    · rw [hsplit, (program_append hshaped).2]
      exact List.mem_append_right _ hw
    · rintro t _ ⟨rfl, ht⟩
      exact hnew t ((List.takeWhile_prefix _).subset ht)
    · have hm := hresult.2
      have hafter : sa.machine.Matches
          (sa.pairing { s.ready (a ++ "\n" ++ b) with machine := m' } (keepsText_known K)) m' := by
        rw [hsession, pairing_of_matches hm]
        exact hm
      -- Reading `b'` only adds node ids and depths, so the two machines still match.
      have hready := matches_extend hafter (sa.extends_ready b') (Extends.refl _) htokens
        (by rintro _ t ⟨rfl, ht⟩; exact hold t ht)
      have hsame : (sa.ready b').pairing { s.ready (a ++ "\n" ++ b) with machine := m' } htokens =
          (sa.ready b').pairing (s.ready (a ++ "\n" ++ b)) htokens :=
        pairing_congr _ rfl rfl rfl hm.depths'
      rwa [hsame] at hready
  | stop reason m' | exhausted =>
    rw [hok, hr] at hresult
    -- The run of `a` has completed, so the first part of the joined program does too.
    exact hresult.elim

omit hknows hfresh ha hb hK

/-- Tokens in `K` are as they were, the ones of a `source` have been moved down by `n` lines. -/
def Moved (K : Token → Prop) (n : ℕ) (source : String) (t t' : Token) : Prop :=
  t' = t ∧ K t ∨ t' = t.later n ∧ t ∈ Source.tokens source

lemma keepsText_moved (K : Token → Prop) (n : ℕ) (source : String) :
    KeepsText (Moved K n source) where
  kind := by
    rintro t _ (⟨rfl, -⟩ | ⟨rfl, -⟩) <;> rfl
  lexeme := by
    rintro t _ (⟨rfl, -⟩ | ⟨rfl, -⟩) <;> rfl

/-- A session is compositional over sources joined by a line end.  If it `Accepts` two sources `a`
and `b`, it accepts the joined source `a ++ "\n" ++ b` too.  If the run of `a` fails, the joined
source fails with the same error and leaves the same behind.  If it is `.completed`, the joined
source ends like `b` when that is run next, up to node ids and but for the tokens of `b`, which have
`Moved` down by the lines of `a`; with as many `emptyLines` before `b`, the tokens are the same
too. -/
theorem run_joined_sources (readings : ℕ → Float) (sink : Sink) (runs : List (ℕ × String))
    (a b : String) (ha : (after readings sink runs).Accepts a)
    (hb : (after readings sink runs).Accepts b) :
    (after readings sink runs).Accepts (a ++ "\n" ++ b) ∧
      ∀ steps more, steps ≤ more →
        (∀ e, ((after readings sink runs).run steps a).1 = .failed (.runtime e) →
          EndsAlike Eq ((after readings sink runs).run steps a)
            ((after readings sink runs).run more (a ++ "\n" ++ b))) ∧
        (((after readings sink runs).run steps a).1 = .completed →
          (after readings sink (runs ++ [(steps, a)])).Accepts b ∧
          ∀ steps' ≤ more,
            (((after readings sink (runs ++ [(steps, a)])).run steps' b).1 ≠ .exhausted →
              EndsAlike (Moved (IsToken (runs ++ [(steps, a)])) (1 + Source.lineEnds a.toList) b)
                ((after readings sink (runs ++ [(steps, a)])).run steps' b)
                ((after readings sink runs).run more (a ++ "\n" ++ b))) ∧
            (((after readings sink (runs ++ [(steps, a)])).run steps'
                (Source.emptyLines (1 + Source.lineEnds a.toList) ++ b)).1 ≠ .exhausted →
              EndsAlike Eq
                ((after readings sink (runs ++ [(steps, a)])).run steps'
                  (Source.emptyLines (1 + Source.lineEnds a.toList) ++ b))
                ((after readings sink runs).run more (a ++ "\n" ++ b)))) := by
  refine ⟨ha.join hb, fun steps more hsteps => ?_⟩
  have hknows : (after readings sink runs).Knows (IsToken (runs ++ [(steps, a)])) := by
    refine (knows_after readings sink runs).extend (Extends.refl _) ?_
    rintro t ⟨r, hr, ht⟩
    exact ⟨r, List.mem_append_left _ hr, ht⟩
  have hfresh := get?_after_of_le readings sink runs
  have hfresh' := get?_after_of_le readings sink (runs ++ [(steps, a)])
  have hK : ∀ t ∈ Source.tokens a, IsToken (runs ++ [(steps, a)]) t :=
    fun t ht => ⟨(steps, a), by simp, ht⟩
  rw [after_concat] at hfresh' ⊢
  refine ⟨fun e h => ?_,
    fun h => ⟨hb.elsewhere _, fun steps' hsteps' => ⟨fun hdone => ?_, fun hdone => ?_⟩⟩⟩
  · exact (endsAlike_of_failed hknows hfresh ha hb hK hsteps h).mono keepsText_eq
      fun _ _ ht => ht.1.symm
  · exact endsAlike_of_completed hknows hfresh ha hb hK (keepsMeaning_later _) hsteps hsteps' h
      hfresh' (hb.elsewhere _) rfl (keepsText_moved _ _ b) (fun t ht => Or.inl ⟨rfl, ht⟩)
      (fun t ht => Or.inr ⟨rfl, ht⟩) hdone
  · -- Behind empty lines the tokens of `b` stand on the lines that they have in the joined source.
    exact endsAlike_of_completed (g := id) hknows hfresh ha hb hK ⟨fun _ => rfl, fun _ => rfl⟩
      hsteps hsteps' h hfresh' ((hb.elsewhere _).after_emptyLines _)
      (by rw [Source.textOf_emptyLines, List.map_id]) keepsText_eq
      (fun _ _ => rfl) (fun _ _ => rfl) hdone

/-- A declaration of `b` that is joined with a call, and a call that fails before anything is joined
to it. -/
theorem run_declaration_joined_with_call :
    ((after (fun _ => 0) .unlimited []).run 3 "var b=nil;").1 = .completed ∧
      ((after (fun _ => 0) .unlimited [(3, "var b=nil;")]).run 3 "b();").1 =
        .failed (.runtime ⟨.notCallable, ⟨.rightParen, ")", none, 1⟩⟩) ∧
      EndsAlike (Moved (IsToken [(3, "var b=nil;")]) 1 "b();")
        ((after (fun _ => 0) .unlimited [(3, "var b=nil;")]).run 3 "b();")
        ((after (fun _ => 0) .unlimited []).run 3 ("var b=nil;" ++ "\n" ++ "b();")) ∧
      ((after (fun _ => 0) .unlimited []).run 3 "b();").1 =
        .failed (.runtime (.undefined ⟨.identifier, "b", none, 1⟩)) ∧
      EndsAlike Eq ((after (fun _ => 0) .unlimited []).run 3 "b();")
        ((after (fun _ => 0) .unlimited []).run 3 ("b();" ++ "\n" ++ "var b=nil;")) := by
  have hdeclaration : (after (fun _ => 0) .unlimited []).Accepts "var b=nil;" := ⟨rfl, rfl⟩
  have hcall : (after (fun _ => 0) .unlimited []).Accepts "b();" := ⟨rfl, rfl⟩
  have hstatements : (Program.read "var b=nil;" 0).statements =
      [.var ⟨.identifier, "b", none, 1⟩ (some (.literal .nil))] := rfl
  have hstatements' : (Program.read "b();" 0).statements =
      [.expression (.call (.read 0 ⟨.identifier, "b", none, 1⟩) ⟨.rightParen, ")", none, 1⟩ [])] :=
    rfl
  have hstart : (after (fun _ => 0) .unlimited []).nextId = 0 := rfl
  have hrun : (after (fun _ => 0) .unlimited []).run 3 "var b=nil;" =
      ((after (fun _ => 0) .unlimited []).ready "var b=nil;").execute .byDepth 3
        [.var ⟨.identifier, "b", none, 1⟩ (some (.literal .nil))] := by
    rw [Session.run, runBy_of_accepts hdeclaration, hstart, hstatements]
  have hcompleted : ((after (fun _ => 0) .unlimited []).run 3 "var b=nil;").1 = .completed := by
    rw [hrun]
    rfl
  have hafter : after (fun _ => 0) .unlimited [(3, "var b=nil;")] =
      ((after (fun _ => 0) .unlimited []).run 3 "var b=nil;").2 := rfl
  have hnext : (after (fun _ => 0) .unlimited [(3, "var b=nil;")]).nextId = 0 := by
    rw [hafter, hrun]
    rfl
  have hfailed : ((after (fun _ => 0) .unlimited [(3, "var b=nil;")]).run 3 "b();").1 =
      .failed (.runtime ⟨.notCallable, ⟨.rightParen, ")", none, 1⟩⟩) := by
    rw [Session.run, runBy_of_accepts (hcall.elsewhere _), hnext, hstatements', hafter, hrun]
    rfl
  have hundefined : ((after (fun _ => 0) .unlimited []).run 3 "b();").1 =
      .failed (.runtime (.undefined ⟨.identifier, "b", none, 1⟩)) := by
    rw [Session.run, runBy_of_accepts hcall, hstart, hstatements']
    rfl
  refine ⟨hcompleted, hfailed, ?_, hundefined, ?_⟩
  · refine ((((run_joined_sources (fun _ => 0) .unlimited [] "var b=nil;" "b();" hdeclaration
      hcall).2 3 3 (Nat.le_refl 3)).2 hcompleted).2 3 (Nat.le_refl 3)).1 ?_
    rw [List.nil_append, hfailed]
    simp
  · exact ((run_joined_sources (fun _ => 0) .unlimited [] "b();" "var b=nil;" hcall
      hdeclaration).2 3 3 (Nat.le_refl 3)).1 _ hundefined

end Session

end LoxLang
