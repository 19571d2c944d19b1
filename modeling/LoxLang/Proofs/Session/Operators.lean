import LoxLang.Proofs.Grammar.Trees
import LoxLang.Proofs.Machine.Operators
import LoxLang.Proofs.Session.Rejection

/-!
# Well-formed trees in sessions

Whatever a session is asked to run or to evaluate, the trees that it reads are well formed and
number their nodes on from the trees before.  So are the bodies of the functions that earlier
sources have left in its store, and no run ever comes upon an operator that is not known.
-/

namespace LoxLang

namespace Session

/-- What a session is asked for at a time: to `run` a source or to `evaluate` one. -/
inductive Turn where
  | run (steps : ℕ) (source : String)
  | evaluate (steps : ℕ) (source : String)

/-- What the parser reads in a turn; a source with lexical `errors` is not read as an expression. -/
def Turn.inputs : Turn → List Grammar.Input
  | run _ source => [.program (Source.tokens source)]
  | evaluate _ source =>
    if (Source.errors source).isEmpty then [.expression (Source.tokens source)] else []

/-- The session after a turn: `run` or `evaluate` is done, and the result dropped. -/
def serve (s : Session) : Turn → Session
  | .run steps source => (s.run steps source).2
  | .evaluate steps source => (s.evaluate steps source).2

/-- The session after `turns`, one after the other, which starts with the clock `readings` and
prints to `sink`. -/
def served (readings : ℕ → Float) (sink : Sink) (turns : List Turn) : Session :=
  turns.foldl serve (start readings sink)

variable {s : Session}

/-! ## What a turn does -/

lemma run_wellFormed (hs : s.machine.store.WellFormed) (steps : ℕ) (source : String) :
    (s.run steps source).2.machine.store.WellFormed ∧
      ∀ e, (s.run steps source).1 = .failed (.runtime e) → ¬ e.fault.IsUnknownOperator := by
  by_cases haccepts : s.Accepts source
  · have hstatements : ∀ t ∈ (Program.read source s.nextId).statements, t.WellFormed False :=
      Grammar.parseProgram_gives (Source.tokens source) s.nextId
    have hrun := executeAll_wellFormed (m := (s.ready source).machine)
      (runs_wellFormed .byDepth steps).2 hstatements hs
    -- A program that has come to its end can only fail to flush, which is no runtime error.
    have hflushed : ∀ (m : Machine) (e : RuntimeError), flushed m ≠ .failed (.runtime e) := by
      intro m e
      rw [flushed]
      cases m.sink.flush <;> simp
    rw [Session.run, runBy_of_accepts haccepts, execute_eq_conclude]
    rcases hr : executeAll (LoxLang.execute .byDepth steps)
      (Program.read source s.nextId).statements (s.ready source).machine with
      ⟨_, m⟩ | ⟨e | v | fault, m⟩ | _
    all_goals rw [hr] at hrun
    · exact ⟨hrun.2, fun e he => absurd he (hflushed m e)⟩
    · refine ⟨hrun.2, fun e' he => ?_⟩
      obtain rfl : e = e' := by simpa [conclude] using he
      exact hrun.1
    · exact ⟨hrun.2, fun e he => absurd he (hflushed m e)⟩
    · exact ⟨hrun.2, fun e he => by simp [conclude] at he⟩
    · exact ⟨hs, fun e he => by simp [conclude] at he⟩
  · obtain ⟨⟨diagnostics, hrejected⟩, hafter⟩ :
        (∃ diagnostics, (s.run steps source).1 = .rejected diagnostics) ∧
          ((s.run steps source).2 = { s with nextId := (Program.read source s.nextId).nextId } ∨
            (s.run steps source).2 = s.ready source) := runBy_of_not_accepts haccepts
    refine ⟨?_, fun e he => by simp [hrejected] at he⟩
    rcases hafter with hafter | hafter
    · rw [hafter]
      exact hs
    · rw [hafter]
      exact hs

lemma evaluateTree_wellFormed (hs : s.machine.store.WellFormed) (steps : ℕ) {e : Expr}
    (he : e.WellFormed False) :
    (s.evaluateTree steps e).2.machine.store.WellFormed ∧
      ∀ tree error, (s.evaluateTree steps e).1 = .failed tree (.runtime error) →
      ¬ error.fault.IsUnknownOperator := by
  have hrun := ((runs_wellFormed .byDepth steps).1 e s.machine he hs).catchReturn
  rw [← evaluateAlone] at hrun
  rw [evaluateTree]
  cases hr : evaluateAlone .byDepth steps e s.machine with
  | ok v m =>
    rw [hr] at hrun
    exact ⟨hrun.2, fun tree error htree => by simp at htree⟩
  | stop reason m =>
    rw [hr] at hrun
    cases reason with
    | error error =>
      refine ⟨hrun.2, fun tree error' htree => ?_⟩
      obtain ⟨-, rfl⟩ : e = tree ∧ error = error' := by simpa [Failure.ofStop?] using htree
      exact hrun.1
    | returned v => exact ⟨hrun.2, fun tree error htree => by simp [Failure.ofStop?] at htree⟩
    | sink fault => exact ⟨hrun.2, fun tree error htree => by simp [Failure.ofStop?] at htree⟩
  | exhausted => exact ⟨hs, fun tree error htree => by simp at htree⟩

lemma evaluate_wellFormed (hs : s.machine.store.WellFormed) (steps : ℕ) (source : String) :
    (s.evaluate steps source).2.machine.store.WellFormed ∧
      ∀ tree error, (s.evaluate steps source).1 = .failed tree (.runtime error) →
      ¬ error.fault.IsUnknownOperator := by
  rw [Session.evaluate]
  dsimp only
  split_ifs
  · let read : Session :=
      { s with nextId := (Grammar.parseExpression (Source.tokens source) s.nextId).nextId }
    cases hresult : (Grammar.parseExpression (Source.tokens source) s.nextId).result with
    | ok e =>
      have he : e.WellFormed False :=
        (Grammar.parseExpression_reads hresult).wellFormed.mono False.elim
      have hread : read.machine.store.WellFormed := hs
      exact evaluateTree_wellFormed hread steps he
    | error errors => exact ⟨hs, fun tree error htree => by simp at htree⟩
  · exact ⟨hs, fun tree error htree => by simp at htree⟩

lemma nextId_evaluate (s : Session) (steps : ℕ) (source : String) :
    (s.evaluate steps source).2.nextId =
      Grammar.Input.idAfterAll s.nextId (Turn.inputs (.evaluate steps source)) := by
  have htree : ∀ (u : Session) (e : Expr), (u.evaluateTree steps e).2.nextId = u.nextId := by
    intro u e
    rw [evaluateTree]
    rcases evaluateAlone .byDepth steps e u.machine with ⟨v, m⟩ | ⟨error | v | fault, m⟩ | _
    all_goals rfl
  rw [Session.evaluate, Turn.inputs]
  dsimp only
  split_ifs
  · cases (Grammar.parseExpression (Source.tokens source) s.nextId).result with
    | ok e => exact htree _ e
    | error errors => rfl
  · rfl

/-! ## Whole sessions -/

section

variable (readings : ℕ → Float) (sink : Sink)

lemma served_concat (turns : List Turn) (r : Turn) :
    served readings sink (turns ++ [r]) = (served readings sink turns).serve r := by
  rw [served, List.foldl_append]
  rfl

/-- At first the store holds no declared function, and so is `WellFormed`. -/
lemma store_start_wellFormed : (start readings sink).machine.store.WellFormed := by
  intro f x v h
  obtain ⟨id, rfl⟩ := eq_clock_of_start h
  trivial

lemma served_wellFormed (turns : List Turn) :
    (served readings sink turns).machine.store.WellFormed := by
  induction turns using List.reverseRecOn with
  | nil => exact store_start_wellFormed readings sink
  | append_singleton turns r ih =>
    rw [served_concat]
    cases r with
    | run steps source => exact (run_wellFormed ih steps source).1
    | evaluate steps source => exact (evaluate_wellFormed ih steps source).1

/-- A session numbers the nodes of what it reads from where the `inputs` before have ended. -/
lemma nextId_served (turns : List Turn) :
    (served readings sink turns).nextId =
      Grammar.Input.idAfterAll 0 (turns.flatMap Turn.inputs) := by
  induction turns using List.reverseRecOn with
  | nil => rfl
  | append_singleton turns r ih =>
    rw [served_concat, List.flatMap_append, Grammar.Input.idAfterAll, List.foldl_append]
    rw [Grammar.Input.idAfterAll] at ih
    rw [← ih, List.flatMap_singleton]
    cases r with
    | run steps source => exact nextId_run _ steps source
    | evaluate steps source => exact nextId_evaluate _ steps source

end

/-- Trees that are read are `WellFormed`, and so unknown operators do not occur.  Whatever `tokens`
are read as a program, with or without errors, the statements have known operators only and no
declaration directly in a branch or a loop; without errors, calls and functions also keep to 255
arguments and parameters.  The same holds of an expression that is read.  No two variables in all
that is read one after the other have the same node id, and sessions read in this way.  Whatever
`turns` a session was asked for before, nothing that it runs or evaluates fails with the message of
an unknown operator. -/
theorem parsed_trees_well_formed (readings : ℕ → Float) (sink : Sink) :
    (∀ tokens nextId, ∀ s ∈ (Grammar.parseProgram tokens nextId).statements,
        s.WellFormed ((Grammar.parseProgram tokens nextId).errors = [])) ∧
      (∀ tokens nextId e, (Grammar.parseExpression tokens nextId).result = .ok e →
        e.WellFormed True) ∧
      (∀ inputs nextId, ((Grammar.Input.allOccurrences nextId inputs).map Occurrence.id).Nodup) ∧
      ∀ turns : List Turn,
        (served readings sink turns).nextId =
          Grammar.Input.idAfterAll 0 (turns.flatMap Turn.inputs) ∧
          (∀ steps source e, ((served readings sink turns).run steps source).1 =
            .failed (.runtime e) →
            e.fault.message ≠ "Invalid unary operator." ∧
            e.fault.message ≠ "Invalid binary operator.") ∧
          ∀ steps source tree e,
            ((served readings sink turns).evaluate steps source).1 = .failed tree (.runtime e) →
            e.fault.message ≠ "Invalid unary operator." ∧
            e.fault.message ≠ "Invalid binary operator." := by
  refine ⟨Grammar.parseProgram_wellFormed,
    fun _ _ _ he => (Grammar.parseExpression_reads he).wellFormed, ?_, fun turns => ?_⟩
  · intro inputs nextId
    exact (Grammar.Input.allNumbered inputs nextId).2.nodup
  · have hstore := served_wellFormed readings sink turns
    refine ⟨nextId_served readings sink turns, fun steps source e he => ?_,
      fun steps source tree e he => ?_⟩
    · exact RuntimeFault.message_ne ((run_wellFormed hstore steps source).2 e he)
    · exact RuntimeFault.message_ne ((evaluate_wellFormed hstore steps source).2 tree e he)

end Session

end LoxLang
