import LoxLang.Proofs.Machine.Evaluation
import LoxLang.Proofs.Session.Joining
import LoxLang.Proofs.Session.Operators

/-!
# Evaluating an expression and printing it

A source can be evaluated as a single expression, or be made into a program that prints the
expression.  The two end the parse at different tokens, and only the program goes through the
resolver.  They come to the same: the program evaluates the same tree, finds its variables in the
same frames, and differs by the line that it prints.
-/

namespace LoxLang

/-! ## The program -/

namespace Source

/-- The source of the program that prints the expression of a `source`.  The line end closes a
comment behind the expression. -/
def printing (source : String) : String := "print " ++ source ++ "\n;"

/-- The word `print` and the blank before a source are scanned by themselves. -/
lemma items_print (source : String) :
    items ("print " ++ source) = .token ⟨.printWord, "print", none, 1⟩ :: items source := by
  have hsegments : segments ("print " ++ source).toList =
      ⟨.token .printWord, "print".toList⟩ :: ⟨.blank, [' ']⟩ :: segments source.toList := by
    rw [String.toList_append]
    rfl
  rw [items, hsegments]
  rfl

lemma printing_eq (source : String) : printing source = "print " ++ source ++ "\n" ++ ";" := by
  have hend : "\n;" = "\n" ++ ";" := rfl
  rw [printing, hend, ← String.append_assoc]

variable {source : String}

lemma errors_print (source : String) : errors ("print " ++ source) = errors source := by
  rw [errors, items_print]
  rfl

/-- So nothing runs on into the line end: no string in `source` is left open. -/
lemma terminated_print (h : errors source = []) :
    ∀ e ∈ errors ("print " ++ source), e.fault ≠ .unterminatedString := by
  simp [errors_print, h]

lemma errors_printing (h : errors source = []) : errors (printing source) = [] := by
  rw [printing_eq, errors_join (terminated_print h), errors_print, h]
  rfl

/-- The text of the program `printing source` is the word, the text of the expression on the same
lines, and a semicolon. -/
lemma textOf_printing (h : errors source = []) :
    Grammar.textOf (tokens (printing source)) = ⟨.printWord, "print", none, 1⟩ ::
      (Grammar.textOf (tokens source) ++
        [⟨.semicolon, ";", none, 1 + (1 + lineEnds ("print " ++ source).toList)⟩]) := by
  have hrest : items source ≠ [] := itemsFrom_ne_nil 1 _
  rw [printing_eq, textOf_join (terminated_print h), textOf_tokens ("print " ++ source),
    textOf_tokens source, items_print, List.dropLast_cons_of_ne_nil hrest]
  rfl

end Source

open Grammar in
/-- The program is read as one statement, a `print` of the same tree up to node ids. -/
lemma Program.read_printing {source : String} {i : NodeId} {e : Expr}
    (hscan : Source.errors source = [])
    (he : (parseExpression (Source.tokens source) i).result = .ok e) (j : NodeId) :
    (Program.read (Source.printing source) j).diagnostics = [] ∧
      ∃ e', (Program.read (Source.printing source) j).statements = [.print e'] ∧
        e'.anonymous = e.anonymous := by
  have hstmt : DerivesStmt .nearest .declaration (textOf (Source.tokens (Source.printing source)))
      (.print e) false := by
    rw [Source.textOf_printing hscan]
    exact .statement (.print rfl (parseExpression_reads he) rfl)
  have hprogram : DerivesProgram .nearest (textOf (Source.tokens (Source.printing source)))
      [.print e] :=
    ⟨[(_, _, false)], List.forall_mem_singleton.mpr hstmt, List.append_nil _, rfl⟩
  obtain ⟨herrors, hsame⟩ := parseProgram_yields j hprogram
  refine ⟨diagnostics_eq_nil_iff.mpr ⟨Source.errors_printing hscan, herrors⟩, ?_⟩
  obtain ⟨s, hs, hprint⟩ := List.map_eq_singleton_iff.mp hsame
  cases s with
  | print e' => exact ⟨e', hs, Stmt.print.inj hprint⟩
  | _ => exact absurd hprint (by simp [Stmt.anonymous, Stmt.relabel])

/-- Outside of all scopes there is nothing to find in an expression `e`. -/
lemma programFindings_print (e : Expr) : programFindings [.print e] = [] := by
  have hnone : ∀ o : Occurrence, o.findings [] = [] := by
    intro o
    simp [Occurrence.findings, Scopes.pending, Scopes.locate, Scopes.depth?]
  have hfound : e.findings [] = [] := by
    rw [Expr.findings_eq_flatMap]
    exact List.flatMap_eq_nil_iff.mpr fun o _ => hnone o
  exact (List.append_nil _).trans hfound

namespace Session

/-! ## Sessions that are ready for anything -/

/-- No depth is recorded for a node id that is not in use yet (`fresh`), and the `sink` takes
everything. -/
structure Open (s : Session) : Prop where
  fresh : ∀ id, s.nextId ≤ id → s.machine.depths.get? id = none
  sink : s.machine.sink.TakesAll

variable {s : Session} {m : Machine} {source : String} {steps : ℕ}

lemma Open.of_keeps (h : s.Open) (hkeeps : s.machine.Keeps m) (hsink : m.sink.TakesAll) :
    { s with machine := m }.Open where
  fresh id hid := by
    show m.depths.get? id = none
    rw [hkeeps.depths]
    exact h.fresh id hid
  sink := hsink

lemma Open.ready (h : s.Open) (source : String) : (s.ready source).Open where
  fresh id hid := by
    rw [get?_ready_of_le hid]
    exact h.fresh id ((Program.nextId_le source s.nextId).trans hid)
  sink := h.sink

lemma Open.execute (h : s.Open) (lookup : Lookup) (steps : ℕ) (statements : List Stmt) :
    (s.execute lookup steps statements).2.Open := by
  have hkeeps := executeAll_keeps lookup steps statements s.machine
  have hsink := Action.LeavesSink.closed.executeAll (Action.LeavesSink.closed.runs lookup steps).2
    statements s.machine h.sink
  rw [execute_snd]
  cases hr : executeAll (LoxLang.execute lookup steps) statements s.machine with
  | ok v m =>
    rw [hr] at hkeeps hsink
    exact h.of_keeps hkeeps hsink
  | stop reason m =>
    rw [hr] at hkeeps hsink
    exact h.of_keeps hkeeps hsink
  | exhausted => exact h

lemma Open.run (h : s.Open) (steps : ℕ) (source : String) : (s.run steps source).2.Open := by
  rw [Session.run]
  by_cases haccepts : s.Accepts source
  · rw [runBy_of_accepts haccepts]
    exact (h.ready source).execute _ _ _
  · rcases (runBy_of_not_accepts haccepts).2 with heq | heq
    · rw [heq]
      exact ⟨fun id hid => h.fresh id ((Program.nextId_le source s.nextId).trans hid), h.sink⟩
    · rw [heq]
      exact h.ready source

lemma Open.evaluateTree (h : s.Open) (steps : ℕ) (e : Expr) : (s.evaluateTree steps e).2.Open := by
  have hkeeps :=
    Action.Keeps.closed.catchReturn ((Action.Keeps.closed.runs .byDepth steps).1 e) s.machine
  have hsink := Action.LeavesSink.closed.catchReturn
    ((Action.LeavesSink.closed.runs .byDepth steps).1 e) s.machine h.sink
  rw [← evaluateAlone] at hkeeps hsink
  rw [Session.evaluateTree]
  rcases hr : evaluateAlone .byDepth steps e s.machine with ⟨v, m⟩ | ⟨_ | _ | _, m⟩ | _
  all_goals rw [hr] at hkeeps hsink
  case exhausted => exact h
  all_goals exact h.of_keeps hkeeps hsink

lemma Open.evaluate (h : s.Open) (steps : ℕ) (source : String) :
    (s.evaluate steps source).2.Open := by
  have hread :
      { s with nextId := (Grammar.parseExpression (Source.tokens source) s.nextId).nextId }.Open :=
    ⟨fun id hid => h.fresh id ((Grammar.parseExpression_spans _ _).1.trans hid), h.sink⟩
  rw [Session.evaluate]
  dsimp only
  split_ifs
  · cases (Grammar.parseExpression (Source.tokens source) s.nextId).result with
    | ok e => exact hread.evaluateTree steps e
    | error errors => exact hread
  · exact h

/-- A session stays `Open` whatever it is asked for. -/
lemma open_served (readings : ℕ → Float) {sink : Sink} (hsink : sink.TakesAll) (turns : List Turn) :
    (served readings sink turns).Open := by
  induction turns using List.reverseRecOn with
  | nil => exact ⟨fun id _ => Depths.get?_empty id, hsink⟩
  | append_singleton turns r ih =>
    rw [served_concat]
    cases r with
    | run steps source => exact ih.run steps source
    | evaluate steps source => exact ih.evaluate steps source

/-! ## Both ways from one session -/

/-- An expression that is evaluated alone, by `evaluateAlone`, ends as it would inside a program: it
is not left by a `return`. -/
lemma evaluateAlone_eq (lookup : Lookup) (steps : ℕ) (e : Expr) (m : Machine) :
    evaluateAlone lookup steps e m = LoxLang.evaluate lookup steps e m := by
  have hcontained := (returns_contained lookup steps).1 e m
  unfold evaluateAlone Action.catchReturn
  cases hr : LoxLang.evaluate lookup steps e m with
  | ok v m₁ => rfl
  | stop reason m₁ =>
    rw [hr] at hcontained
    cases reason with
    | returned v => exact absurd rfl (hcontained v)
    | error error | sink fault => rfl
  | exhausted => rfl

/-- A program of one statement `print e` evaluates `e` and prints a line. -/
lemma executeAll_print (lookup : Lookup) (steps : ℕ) (e : Expr) (m : Machine) :
    executeAll (LoxLang.execute lookup (steps + 1)) [.print e] m =
      (LoxLang.evaluate lookup steps e >>= fun v => Action.printLine v.text) m := by
  have hstmt : LoxLang.execute lookup (steps + 1) (.print e) =
      LoxLang.evaluate lookup steps e >>= fun v => Action.printLine v.text := by
    rw [LoxLang.execute]
    rfl
  rw [executeAll_cons, hstmt]
  cases hr : (LoxLang.evaluate lookup steps e >>= fun v => Action.printLine v.text) m with
  | ok v m₁ => exact bind_eq_of_ok hr
  | stop reason m₁ => exact bind_eq_of_stop hr
  | exhausted => exact bind_eq_of_exhausted hr

section

variable {i : NodeId} {e : Expr} (hopen : s.Open) (hscan : Source.errors source = [])
  (hid : s.nextId ≤ i)
  (he : (Grammar.parseExpression (Source.tokens source) i).result = .ok e)

include hopen hscan hid he

/-- The tree of the program `Matches` the tree of the expression: neither has a depth at any of its
variables. -/
lemma exists_print_matches :
    ∃ e', (Program.read (Source.printing source) s.nextId).statements = [.print e'] ∧
      e'.anonymous = e.anonymous ∧
      (∀ o ∈ e'.occurrences, s.machine.depths.get? o.id = none) ∧
      e.Matches s.machine.depths.Same Eq e' := by
  obtain ⟨-, e', hstatements, hsame⟩ := Program.read_printing hscan he s.nextId
  obtain ⟨hnumbered, hderives⟩ := (Grammar.parseExpression_spans _ _).2 e he
  -- Both trees have ids that the session has not used yet.
  have hfresh : ∀ o ∈ e.occurrences, s.machine.depths.get? o.id = none := fun o ho =>
    hopen.fresh o.id (hid.trans (hnumbered.range o ho).1)
  have hfresh' : ∀ o ∈ e'.occurrences, s.machine.depths.get? o.id = none := by
    intro o ho
    have hnumbered' :=
      (Grammar.parseProgram_reads (Source.tokens (Source.printing source)) s.nextId).2.1
    have hmem :
        o ∈ Stmt.allOccurrences (Program.read (Source.printing source) s.nextId).statements := by
      rw [hstatements]
      exact List.mem_append_left _ ho
    exact hopen.fresh o.id (hnumbered'.range o hmem).1
  have hself : e.Matches (· = ·) Eq e := by
    have hmatches : e.Matches (· = ·) Eq (e.relabel id id) := hderives.matches fun _ _ => rfl
    rwa [Expr.relabel_id] at hmatches
  refine ⟨e', hstatements, hsame, hfresh', ?_⟩
  refine (hself.of_anonymous e hsame.symm).relate (fun _ _ => congrArg Token.lexeme) e
    fun o ho o' ho' _ => ?_
  rw [Depths.Same, hfresh o ho, hfresh' o' ho']

/-- The program `printing source` evaluates the expression and prints what it comes to. -/
lemma run_printing (steps : ℕ) :
    s.run (steps + 1) (Source.printing source) =
      { s with nextId := (Program.read (Source.printing source) s.nextId).nextId }.conclude
        ((LoxLang.evaluate .byDepth steps e >>= fun v => Action.printLine v.text) s.machine) := by
  obtain ⟨e', hstatements, -, -, hmatches⟩ := exists_print_matches hopen hscan hid he
  have hfound :
      programFindings (Program.read (Source.printing source) s.nextId).statements = [] := by
    rw [hstatements, programFindings_print]
  have haccepts : s.Accepts (Source.printing source) :=
    ⟨(Program.read_printing hscan he s.nextId).1, by rw [hfound]; rfl⟩
  have hready : s.ready (Source.printing source) =
      { s with nextId := (Program.read (Source.printing source) s.nextId).nextId } := by
    rw [ready, hfound]
    rfl
  rw [Session.run, runBy_of_accepts haccepts, hready, execute_eq_conclude, hstatements]
  apply congrArg
  rw [executeAll_print]
  exact bind_congr (evaluate_eq_of_matches .byDepth steps hmatches).symm fun _ _ _ => rfl

/-- The two end alike, in one of three ways: with a value, with a failure, or with their `steps`
used up. -/
lemma evaluateTree_run_printing (steps : ℕ) :
    let nextId := (Program.read (Source.printing source) s.nextId).nextId
    (∃ v m, s.evaluateTree steps e = (.value e v, ⟨m, s.nextId⟩) ∧
        s.run (steps + 1) (Source.printing source) = (.completed, ⟨m.withLine v.text, nextId⟩)) ∨
      (∃ failure m, s.evaluateTree steps e = (.failed e failure, ⟨m, s.nextId⟩) ∧
        s.run (steps + 1) (Source.printing source) = (.failed failure, ⟨m, nextId⟩)) ∨
      s.evaluateTree steps e = (.exhausted e, s) ∧
        s.run (steps + 1) (Source.printing source) = (.exhausted, ⟨s.machine, nextId⟩) := by
  intro nextId
  have hsink := (Action.LeavesSink.closed.runs .byDepth steps).1 e s.machine hopen.sink
  have hcontained := (returns_contained .byDepth steps).1 e s.machine
  rw [run_printing hopen hscan hid he, evaluateTree, evaluateAlone_eq]
  cases hr : LoxLang.evaluate .byDepth steps e s.machine with
  | ok v m =>
    rw [hr] at hsink
    have hsink : m.sink.TakesAll := hsink
    -- The line is written and flushed, as the sink takes everything.
    have hflushed : flushed (m.withLine v.text) = .completed := by
      rw [flushed, (Machine.takesAll_withLine hsink v.text).flush]
      rfl
    rw [bind_eq_of_ok hr, printLine_eq_withLine hsink, conclude, hflushed]
    exact .inl ⟨v, m, rfl, rfl⟩
  | stop reason m =>
    rw [bind_eq_of_stop hr]
    rw [hr] at hcontained
    cases reason with
    | returned v => exact absurd rfl (hcontained v)
    | error error => exact .inr (.inl ⟨.runtime error, m, rfl, rfl⟩)
    | sink fault => exact .inr (.inl ⟨.sink fault, m, rfl, rfl⟩)
  | exhausted =>
    rw [bind_eq_of_exhausted hr]
    exact .inr (.inr ⟨rfl, rfl⟩)

end

/-- Evaluating an expression alone agrees with printing it in a program.  Take a `source` that is
read as an expression `e` (`hscan`, `he`), and any session on a sink that takes everything
(`hsink`).  With `print` before the source and a line end and `;` behind it, the source is a program
without errors: one statement, which prints the same tree up to node ids, and in which the resolver
finds nothing, so that no depth is recorded for it.  In the same session the two come to the same.
The program is `.completed` if and only if `evaluateTree` has a value; then it leaves the machine
that evaluating the expression leaves, with the line of the value as its only further output.  The
program is `.failed` if and only if evaluating the expression is, with the same `failure` on the
same machine. -/
theorem evaluation_agrees_with_printing (readings : ℕ → Float) (sink : Sink) (turns : List Turn)
    (source : String) (i : NodeId) (e : Expr) (hsink : sink.TakesAll)
    (hid : (served readings sink turns).nextId ≤ i) (hscan : Source.errors source = [])
    (he : (Grammar.parseExpression (Source.tokens source) i).result = .ok e) :
    let s := served readings sink turns
    let program := Program.read (Source.printing source) s.nextId
    let ran := fun steps => s.run steps (Source.printing source)
    program.diagnostics = [] ∧
      (∃ e', program.statements = [.print e'] ∧ e'.anonymous = e.anonymous ∧
        ∀ o ∈ e'.occurrences, (s.ready (Source.printing source)).machine.depths.get? o.id = none) ∧
      programFindings program.statements = [] ∧
      ∀ steps,
        (∀ u, ran (steps + 1) = (.completed, u) ↔
          ∃ v m, s.evaluateTree steps e = (.value e v, ⟨m, s.nextId⟩) ∧
            u = ⟨m.withLine v.text, program.nextId⟩) ∧
        (∀ failure u, ran (steps + 1) = (.failed failure, u) ↔
          ∃ m, s.evaluateTree steps e = (.failed e failure, ⟨m, s.nextId⟩) ∧
            u = ⟨m, program.nextId⟩) ∧
        ((ran (steps + 1)).1 = .exhausted ↔ (s.evaluateTree steps e).1 = .exhausted e) := by
  intro s program ran
  have hopen : s.Open := open_served readings hsink turns
  obtain ⟨e', hstatements, hsame, hnone, -⟩ := exists_print_matches hopen hscan hid he
  have hfound : programFindings program.statements = [] := by
    rw [hstatements]
    exact programFindings_print e'
  refine ⟨(Program.read_printing hscan he s.nextId).1, ⟨e', hstatements, hsame, fun o ho => ?_⟩,
    hfound, fun steps => ?_⟩
  · rw [ready, hfound]
    exact hnone o ho
  · obtain ⟨v, m, hv, hr⟩ | ⟨failure, m, hv, hr⟩ | ⟨hv, hr⟩ :=
      evaluateTree_run_printing hopen hscan hid he steps
    · simp [ran, hr, hv, program, eq_comm]
    · simp [ran, hr, hv, program, eq_comm]
    · simp [ran, hr, hv]

/-- A call of a function `f` that an earlier source has declared, with a comment behind the call. -/
theorem call_agrees_with_printing :
    let f : Token := ⟨.identifier, "f", none, 1⟩
    let call : Expr := .call (.read 0 f) ⟨.rightParen, ")", none, 1⟩ []
    let s := served (fun _ => 0) .unlimited [.run 1 "fun f(){print nil;}"]
    s.nextId = 0 ∧ Source.errors "f()//a" = [] ∧
      (Grammar.parseExpression (Source.tokens "f()//a") 0).result = .ok call ∧
      ∃ m, s.evaluateTree 4 call = (.value call .nil, ⟨m, s.nextId⟩) ∧
        m.sink.written.toList = "nil\n".toUTF8.data.toList ∧
        s.run 5 "print f()//a\n;" =
          (.completed, ⟨m.withLine "nil", (Program.read "print f()//a\n;" s.nextId).nextId⟩) := by
  intro f call s
  have hstatements : (Program.read "fun f(){print nil;}" 0).statements =
      [.function f [] [.print (.literal .nil)]] := rfl
  have haccepts : (start (fun _ => 0) .unlimited).Accepts "fun f(){print nil;}" := ⟨rfl, rfl⟩
  have hs : s = (((start (fun _ => 0) .unlimited).ready "fun f(){print nil;}").execute .byDepth 1
      [.function f [] [.print (.literal .nil)]]).2 := by
    show ((start (fun _ => 0) .unlimited).run 1 "fun f(){print nil;}").2 = _
    rw [Session.run, runBy_of_accepts haccepts, ← hstatements]
    rfl
  have hid : s.nextId = 0 := by
    rw [hs]
    rfl
  have hparse : (Grammar.parseExpression (Source.tokens "f()//a") 0).result = .ok call := rfl
  have hvalue : ∃ m, s.evaluateTree 4 call = (.value call .nil, ⟨m, s.nextId⟩) ∧
      m.sink.written.toList = "nil\n".toUTF8.data.toList := by
    rw [hs]
    exact ⟨_, rfl, rfl⟩
  obtain ⟨m, hm, hwritten⟩ := hvalue
  have hagree := evaluation_agrees_with_printing (fun _ => 0) .unlimited
    [.run 1 "fun f(){print nil;}"] "f()//a" 0 call ⟨rfl, rfl⟩ hid.le rfl hparse
  exact ⟨hid, rfl, hparse, m, hm, hwritten, ((hagree.2.2.2 4).1 _).mpr ⟨_, m, hm, rfl⟩⟩

end Session

end LoxLang
