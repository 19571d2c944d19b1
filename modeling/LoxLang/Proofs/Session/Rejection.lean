import LoxLang.Proofs.Grammar.Parallel
import LoxLang.Proofs.Session.Joining

/-!
# Sources that are rejected

A source that is rejected uses up node ids and may leave depths of its own nodes in the table, and
nothing else.  A session that differs from another in that way goes on like it: every later source
has the same outcome in both, its errors included, and writes the same.  Nor does any later source
change the depth of a node that was read before.
-/

namespace LoxLang

/-! ## Reading a source elsewhere -/

namespace Program

/-- What is wrong with a `source`: its lexical and grammar errors, or else its binding errors. -/
def objections (source : String) (nextId : NodeId) : List Diagnostic :=
  if (Program.read source nextId).diagnostics.isEmpty then
    (bindingErrors (programFindings (Program.read source nextId).statements)).map .binding
  else (Program.read source nextId).diagnostics

/-- Two readings of one text that number their nodes from `i` and from `j` on. -/
def renumbering (i j : NodeId) : Grammar.Parallel :=
  ⟨Eq, congrArg Token.kind, congrArg Token.literal, i, j⟩

lemma read_parallel (source : String) (i j : NodeId) :
    (Program.read source i).diagnostics = (Program.read source j).diagnostics ∧
      List.Forall₂ (Stmt.Matches anyIds Eq) (Program.read source i).statements
      (Program.read source j).statements := by
  have htokens : List.Forall₂ Eq (Source.tokens source) (Source.tokens source) :=
    List.forall₂_refl _
  have hparsed := Grammar.parseProgram_parallel (renumbering i j) htokens rfl
  have herrors : (Grammar.parseProgram (Source.tokens source) i).errors =
      (Grammar.parseProgram (Source.tokens source) j).errors := by
    refine List.forall₂_eq_eq_eq ▸ hparsed.errors.imp ?_
    rintro ⟨fault, token, position⟩ ⟨_, _, _⟩ ⟨rfl, rfl, rfl⟩
    rfl
  refine ⟨?_, Stmt.Matches.mono_all (fun _ _ ht => ht) _ hparsed.statements fun _ _ _ _ => trivial⟩
  rw [Program.read, Program.read, herrors]

/-- What is wrong with a `source` does not depend on where its nodes are numbered from. -/
lemma objections_eq (source : String) (i j : NodeId) :
    objections source i = objections source j := by
  obtain ⟨hdiagnostics, hmatches⟩ := read_parallel source i j
  have hbinding : bindingErrors (programFindings (Program.read source i).statements) =
      bindingErrors (programFindings (Program.read source j).statements) := by
    refine List.forall₂_eq_eq_eq ▸ (bindingErrors_matches keepsText_eq.lexeme hmatches).imp ?_
    rintro ⟨fault, token⟩ ⟨_, _⟩ ⟨rfl, rfl⟩
    rfl
  rw [objections, objections, hdiagnostics, hbinding]

end Program

namespace Session

variable {s u : Session} {lookup : Lookup} {steps : ℕ} {source : String}

/-! ## What a run leaves -/

lemma runBy_fst_of_not_accepts (h : ¬ s.Accepts source) :
    (s.runBy lookup steps source).1 = .rejected (Program.objections source s.nextId) := by
  rcases unread_or_misused h with hread | ⟨hread, hmisused⟩
  · rw [runBy_of_unread hread, Program.objections, if_neg (by simpa using hread)]
  · rw [runBy_of_misused hread hmisused, Program.objections, if_pos (by simp [hread])]

lemma not_accepts_of_rejected {ds : List Diagnostic} (h : (s.run steps source).1 = .rejected ds) :
    ¬ s.Accepts source := by
  intro haccepts
  rw [Session.run, runBy_of_accepts haccepts, execute_eq_conclude] at h
  exact conclude_ne_rejected _ _ ds h

/-- A run that was given too few steps leaves the session in which its program started,
`s.ready source`. -/
lemma run_of_exhausted (h : (s.run steps source).1 = .exhausted) :
    (s.run steps source).2 = s.ready source := by
  by_cases haccepts : s.Accepts source
  · rw [Session.run, runBy_of_accepts haccepts, execute_eq_conclude] at h ⊢
    rw [eq_exhausted_of_conclude h]
    rfl
  · rw [Session.run, runBy_fst_of_not_accepts haccepts] at h
    exact Outcome.noConfusion h

/-- However a `source` ends, it has used up its own node ids. -/
lemma nextId_run (s : Session) (steps : ℕ) (source : String) :
    (s.run steps source).2.nextId = (Program.read source s.nextId).nextId := by
  by_cases haccepts : s.Accepts source
  · rw [Session.run, runBy_of_accepts haccepts, execute_snd]
    cases executeAll (LoxLang.execute .byDepth steps) (Program.read source s.nextId).statements
      (s.ready source).machine <;> rfl
  · rcases (runBy_of_not_accepts haccepts).2 with heq | heq
    · rw [Session.run, heq]
    · rw [Session.run, heq]
      rfl

/-- However a `source` ends, the depths of older nodes are as they were. -/
lemma get?_run_of_lt {id : NodeId} (hid : id < s.nextId) (steps : ℕ) (source : String) :
    (s.run steps source).2.machine.depths.get? id = s.machine.depths.get? id := by
  obtain ⟨t, hextends, hkeeps⟩ := s.exists_extends_keeps steps source
  rw [hkeeps.depths, hextends.depths id hid]

/-- Sources that are run `later` leave the depths of older nodes as they are. -/
lemma get?_after_append (readings : ℕ → Float) (sink : Sink) {earlier : List (ℕ × String)}
    {id : NodeId} (hid : id < (after readings sink earlier).nextId) (later : List (ℕ × String)) :
    id < (after readings sink (earlier ++ later)).nextId ∧
      (after readings sink (earlier ++ later)).machine.depths.get? id =
        (after readings sink earlier).machine.depths.get? id := by
  induction later using List.reverseRecOn with
  | nil =>
    rw [List.append_nil]
    exact ⟨hid, rfl⟩
  | append_singleton later r ih =>
    obtain ⟨hlt, hdepth⟩ := ih
    rw [← List.append_assoc, after_concat, nextId_run, get?_run_of_lt hlt, hdepth]
    exact ⟨hlt.trans_le (Program.nextId_le _ _), rfl⟩

/-! ## Sessions that go on alike -/

/-- What the session `s` does, the session `u` does too. -/
def Follows (s u : Session) : Prop := s.machine.Matches (s.pairing u keepsText_eq) u.machine

lemma Follows.extend {s' u' : Session} (h : s.Follows u) (hs : s.Extends s') (hu : u.Extends u') :
    s'.Follows u' :=
  matches_extend h hs hu keepsText_eq fun _ _ ht => ht

lemma eq_of_outcome_matches {o o' : Outcome} (h : o.Matches Eq o') : o = o' := by
  cases h with
  | completed | sink => rfl
  | runtime fault ht => rw [ht]

/-- A run that comes to its end (`hdone`) does the same in a session that follows. -/
lemma Follows.run (h : s.Follows u) (hs : s.Reachable) (hu : u.Reachable)
    (hdone : (s.run steps source).1 ≠ .exhausted) :
    (s.run steps source).1 = (u.run steps source).1 ∧
      (s.run steps source).2.Follows (u.run steps source).2 := by
  by_cases haccepts : s.Accepts source
  · have hmatches := (Program.read_parallel source s.nextId u.nextId).2
    have hready := h.extend (s.extends_ready source) (u.extends_ready source)
    have hresult := executeAll_part hs.get?_of_le hu.get?_of_le (fun _ hw => hw) hmatches
      (fun _ _ ht => ht) keepsText_eq hready (Nat.le_refl steps)
    rw [Session.run, runBy_of_accepts haccepts] at hdone ⊢
    rw [Session.run, runBy_of_accepts (haccepts.elsewhere u)]
    obtain ⟨houtcome, _, hsession⟩ := endsAlike_of_matches hresult hdone
    exact ⟨eq_of_outcome_matches houtcome, hsession⟩
  · have haccepts' : ¬ u.Accepts source := fun hu => haccepts (hu.elsewhere s)
    refine ⟨?_, h.extend (extends_of_not_accepts haccepts) (extends_of_not_accepts haccepts')⟩
    rw [Session.run, Session.run, runBy_fst_of_not_accepts haccepts,
      runBy_fst_of_not_accepts haccepts', Program.objections_eq source s.nextId u.nextId]

/-- Two sessions of which each `Follows` the other. -/
structure Alike (s u : Session) : Prop where
  reachable : s.Reachable
  reachable' : u.Reachable
  forward : s.Follows u
  backward : u.Follows s

lemma Alike.symm (h : s.Alike u) : u.Alike s := ⟨h.reachable', h.reachable, h.backward, h.forward⟩

/-- A run that is given too few steps in one session is `.exhausted` in the other as well. -/
lemma Alike.exhausted (h : s.Alike u) (hdone : (s.run steps source).1 = .exhausted) :
    (u.run steps source).1 = .exhausted := by
  by_contra hends
  exact hends ((h.backward.run h.reachable' h.reachable hends).1.trans hdone)

lemma Alike.run (h : s.Alike u) (steps : ℕ) (source : String) :
    (s.run steps source).1 = (u.run steps source).1 ∧
    (s.run steps source).2.Alike (u.run steps source).2 := by
  have hs := h.reachable.run steps source
  have hu := h.reachable'.run steps source
  by_cases hdone : (s.run steps source).1 = .exhausted
  · have hdone' := h.exhausted hdone
    refine ⟨hdone.trans hdone'.symm, hs, hu, ?_, ?_⟩
    · rw [run_of_exhausted hdone, run_of_exhausted hdone']
      exact h.forward.extend (s.extends_ready source) (u.extends_ready source)
    · rw [run_of_exhausted hdone, run_of_exhausted hdone']
      exact h.backward.extend (u.extends_ready source) (s.extends_ready source)
  · have hdone' : (u.run steps source).1 ≠ .exhausted := fun hu => hdone (h.symm.exhausted hu)
    obtain ⟨houtcome, hforward⟩ := h.forward.run h.reachable h.reachable' hdone
    obtain ⟨-, hbackward⟩ := h.backward.run h.reachable' h.reachable hdone'
    exact ⟨houtcome, hs, hu, hforward, hbackward⟩

/-- What sources do that are run one after the other: how each ends, and the `Sink` that it
leaves. -/
def transcript (s : Session) : List (ℕ × String) → List (Outcome × Sink)
  | [] => []
  | (steps, source) :: later =>
    ((s.run steps source).1, (s.run steps source).2.machine.sink) ::
      (s.run steps source).2.transcript later

lemma Alike.transcript (h : s.Alike u) (later : List (ℕ × String)) :
    s.transcript later = u.transcript later := by
  induction later generalizing s u with
  | nil => rfl
  | cons r later ih =>
    obtain ⟨houtcome, halike⟩ := h.run r.1 r.2
    rw [Session.transcript, Session.transcript, houtcome, halike.forward.sink, ih halike]

/-- A session goes on alike after a `source` that was rejected. -/
lemma Reachable.alike_of_rejected (h : s.Reachable) (hrejects : ¬ s.Accepts source) (steps : ℕ) :
    s.Alike (s.run steps source).2 := by
  have hextends : s.Extends (s.run steps source).2 := extends_of_not_accepts hrejects
  refine ⟨h, h.run steps source, ?_, ?_⟩
  · obtain ⟨readings, sink, runs, rfl⟩ := h
    exact matches_extend (knows_after readings sink runs) (Extends.refl _) hextends keepsText_eq
      fun _ _ ht => ht.1.symm
  · obtain ⟨readings, sink, runs, rfl⟩ := h
    exact matches_extend (knows_after readings sink runs) hextends (Extends.refl _) keepsText_eq
      fun _ _ ht => ht.1.symm

/-- A rejected source leaves the session as it was.  After any `runs`, a `source` that is
`.rejected` changes nothing of the machine but the depth table: no output is written and no frame
changes.  Whatever sources are run later, their `transcript` is the same as if the rejected source
had not been run: they have the same outcomes and write the same.  And no source, accepted or
rejected, changes the depth of a node that an earlier source brought. -/
theorem rejected_source_leaves_session (readings : ℕ → Float) (sink : Sink)
    (runs : List (ℕ × String)) (steps : ℕ) (source : String) :
    (∀ ds, ((after readings sink runs).run steps source).1 = .rejected ds →
      (∃ depths, (after readings sink (runs ++ [(steps, source)])).machine =
        { (after readings sink runs).machine with depths := depths }) ∧
      ∀ later, (after readings sink (runs ++ [(steps, source)])).transcript later =
        (after readings sink runs).transcript later) ∧
    ∀ later, ∀ o ∈
      Stmt.allOccurrences (Program.read source (after readings sink runs).nextId).statements,
      (after readings sink (runs ++ (steps, source) :: later)).machine.depths.get? o.id =
        (after readings sink (runs ++ [(steps, source)])).machine.depths.get? o.id := by
  constructor
  · intro ds hrejected
    have hrejects := not_accepts_of_rejected hrejected
    have halike := (reachable_after readings sink runs).alike_of_rejected hrejects steps
    rw [after_concat]
    exact ⟨⟨_, (extends_of_not_accepts hrejects).machine⟩,
      fun later => (halike.transcript later).symm⟩
  · intro later o ho
    have hid : o.id < (after readings sink (runs ++ [(steps, source)])).nextId := by
      rw [after_concat, nextId_run]
      exact ((Grammar.parseProgram_reads _ _).2.1.range o ho).2
    rw [List.append_cons]
    exact (get?_after_append readings sink hid later).2

/-- A variable `a` that is read in its own initializer, between a declaration and a use of another
variable of that name. -/
theorem rejected_initializer_leaves_session :
    ((after (fun _ => 0) .unlimited [(3, "var a=nil;")]).run 3 "{var a=a;}").1 =
        .rejected [.binding ⟨.ownInitializer, ⟨.identifier, "a", none, 1⟩⟩] ∧
      (∃ depths,
        (after (fun _ => 0) .unlimited ([(3, "var a=nil;")] ++ [(3, "{var a=a;}")])).machine =
          { (after (fun _ => 0) .unlimited [(3, "var a=nil;")]).machine with depths := depths }) ∧
      (after (fun _ => 0) .unlimited ([(3, "var a=nil;")] ++ [(3, "{var a=a;}")])).transcript
        [(3, "print a;")] =
        (after (fun _ => 0) .unlimited [(3, "var a=nil;")]).transcript [(3, "print a;")] := by
  have hrejected : ((after (fun _ => 0) .unlimited [(3, "var a=nil;")]).run 3 "{var a=a;}").1 =
      .rejected [.binding ⟨.ownInitializer, ⟨.identifier, "a", none, 1⟩⟩] := by
    rfl
  obtain ⟨hmachine, htranscript⟩ :=
    (rejected_source_leaves_session (fun _ => 0) .unlimited [(3, "var a=nil;")] 3 "{var a=a;}").1 _
      hrejected
  exact ⟨hrejected, hmachine, htranscript _⟩

end Session

end LoxLang
