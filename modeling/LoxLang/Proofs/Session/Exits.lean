import LoxLang.Proofs.Machine.Keeping
import LoxLang.Proofs.Machine.Returns
import LoxLang.Proofs.Session.Pairing

/-!
# How a run is left

A run may be left at its end, by a runtime error, by a `return` or by a write that fails.  Each of
these ways leads back to the frame where the run began, and no frame is moved or loses a name on the
way.  A `return` leads no further than to the call that it ends: not out of an expression, and not
out of a program that is accepted.
-/

namespace LoxLang

open LoxLang.Action

/-- Executing the statements `body` inside a `frame` leads back out of it. -/
lemma executeBlock_keeps (lookup : Lookup) (steps : ℕ) (body : List Stmt) (frame : FrameId) :
    (executeBlock lookup steps body frame).Keeps :=
  Action.Keeps.closed.inFrame frame (executeAll_keeps lookup steps body)

/-- Every statement of `statements` is executed to its end, one after the other. -/
def ExecutedToEnd (lookup : Lookup) (steps : ℕ) (statements : List Stmt) (m : Machine) : Prop :=
  ∀ before s after, statements = before ++ s :: after →
    ∃ m₁ m₂, executeAll (execute lookup steps) before m = .ok () m₁ ∧
      execute lookup steps s m₁ = .ok () m₂

lemma executedToEnd_of_ok {lookup : Lookup} {steps : ℕ} {statements : List Stmt} {m m' : Machine}
    (h : executeAll (execute lookup steps) statements m = .ok () m') :
    ExecutedToEnd lookup steps statements m := by
  rintro before s after rfl
  rw [executeAll_append] at h
  obtain ⟨_, m₁, hbefore, h⟩ := bind_eq_ok h
  rw [executeAll_cons] at h
  obtain ⟨_, m₂, hs, -⟩ := bind_eq_ok h
  exact ⟨m₁, m₂, hbefore, hs⟩

section

variable {statements : List Stmt}

/-- A program without `bindingErrors` is not left by a `return`. -/
lemma executeAll_contained_of_accepted (h : bindingErrors (programFindings statements) = [])
    (lookup : Lookup) (steps : ℕ) (m : Machine) :
    (executeAll (execute lookup steps) statements m).Contained :=
  executeAll_contained (returns_contained lookup steps).2 statements
    (Stmt.allReturnFree_of_faultless statements [] (faultless_iff_bindingErrors.mpr h)) m

lemma Stmt.returnFree_of_mem {s : Stmt} (h : Stmt.AllReturnFree statements)
    (hs : s ∈ statements) : s.ReturnFree := by
  induction statements with
  | nil => exact absurd hs (by simp)
  | cons t rest ih =>
    rcases List.mem_cons.mp hs with rfl | hs
    · exact h.1
    · exact ih h.2 hs

lemma Result.Contained.ne_returned {α : Type} {r : Result α} (h : r.Contained) (v : Value)
    (m : Machine) : r ≠ .stop (.returned v) m := by
  rintro rfl
  exact h v rfl

end

namespace Session

variable {s : Session} {lookup : Lookup} {steps : ℕ} {source : String} {statements : List Stmt}

/-- A program without `bindingErrors` that is `.completed` has been executed to its end. -/
lemma ok_of_execute_completed (hresolved : bindingErrors (programFindings statements) = [])
    (h : (s.execute lookup steps statements).1 = .completed) :
    ∃ m, executeAll (LoxLang.execute lookup steps) statements s.machine = .ok () m ∧
      (s.execute lookup steps statements).2 = { s with machine := m } := by
  have hcontained := executeAll_contained_of_accepted hresolved lookup steps s.machine
  rw [execute_eq] at h ⊢
  cases hr : executeAll (LoxLang.execute lookup steps) statements s.machine with
  | ok v m => exact ⟨m, rfl, rfl⟩
  | stop reason m =>
    rw [hr] at h hcontained
    cases reason with
    | error e | sink fault => exact absurd h (by simp)
    | returned v => exact absurd rfl (hcontained v)
  | exhausted =>
    rw [hr] at h
    exact absurd h (by simp)

lemma accepts_of_completed (h : (s.run steps source).1 = .completed) : s.Accepts source := by
  by_contra hrejects
  have hrejected : ∃ diagnostics, (s.run steps source).1 = .rejected diagnostics :=
    (runBy_of_not_accepts hrejects).1
  obtain ⟨diagnostics, hdiagnostics⟩ := hrejected
  exact Outcome.noConfusion (hdiagnostics.symm.trans h)

lemma execute_keeps (s : Session) (lookup : Lookup) (steps : ℕ) (statements : List Stmt) :
    s.machine.Keeps (s.execute lookup steps statements).2.machine := by
  have hkeeps := executeAll_keeps lookup steps statements s.machine
  rw [execute_snd]
  cases hr : executeAll (LoxLang.execute lookup steps) statements s.machine with
  | ok v m =>
    rw [hr] at hkeeps
    exact hkeeps
  | stop reason m =>
    rw [hr] at hkeeps
    exact hkeeps
  | exhausted => exact .refl _

/-- Once the depths of a source have been entered, its run `Keeps` what the machine has, whether or
not it is accepted. -/
lemma ready_keeps_run (s : Session) (steps : ℕ)
    (hread : (Program.read source s.nextId).diagnostics = []) :
    (s.ready source).machine.Keeps (s.run steps source).2.machine := by
  by_cases hresolved : bindingErrors
    (programFindings (Program.read source s.nextId).statements) = []
  · rw [Session.run, runBy_of_accepts ⟨hread, hresolved⟩]
    exact execute_keeps _ _ _ _
  · rw [Session.run, runBy_of_misused hread hresolved]
    exact .refl _

/-- A run enters depths of new nodes into the table, and from there on `Keeps` what the machine
has. -/
lemma exists_extends_keeps (s : Session) (steps : ℕ) (source : String) :
    ∃ t, s.Extends t ∧ t.machine.Keeps (s.run steps source).2.machine := by
  by_cases hread : (Program.read source s.nextId).diagnostics = []
  · exact ⟨s.ready source, s.extends_ready source, s.ready_keeps_run steps hread⟩
  · exact ⟨_, extends_of_not_accepts fun haccepts => hread haccepts.read, .refl _⟩

/-- However a run ends, it `Keeps` what the machine has, but for the depths that were entered before
it began. -/
lemma run_keeps (s : Session) (steps : ℕ) (source : String) :
    { s.machine with depths := (s.run steps source).2.machine.depths }.Keeps
    (s.run steps source).2.machine := by
  obtain ⟨t, hextends, hkeeps⟩ := s.exists_extends_keeps steps source
  rw [hkeeps.depths, ← hextends.machine]
  exact hkeeps

/-- Every way out of an evaluation restores the scope.  Whatever expression is evaluated, whatever
statement is executed, and whatever statements inside whatever frame, from any machine and with any
result, `Action.Keeps` holds: the current frame, the global frame and the depth table are the ones
from before, and every frame lies where it lay and binds what it bound.  The same holds of
`Session.run`, apart from the depths entered for the source; so after any runs, however each of them
ended, the current frame is the global one. -/
theorem exits_restore_scope :
    (∀ lookup steps e, (LoxLang.evaluate lookup steps e).Keeps) ∧
      (∀ lookup steps s, (LoxLang.execute lookup steps s).Keeps) ∧
      (∀ lookup steps body frame, (executeBlock lookup steps body frame).Keeps) ∧
      (∀ (s : Session) steps source,
        { s.machine with depths := (s.run steps source).2.machine.depths }.Keeps
        (s.run steps source).2.machine) ∧
      ∀ readings sink runs,
        (after readings sink runs).machine.current =
          (after readings sink runs).machine.globals := by
  refine ⟨fun lookup steps => ?_, fun lookup steps => ?_, executeBlock_keeps, run_keeps,
    fun readings sink runs => ?_⟩
  · exact (Action.Keeps.closed.runs lookup steps).1
  · exact (Action.Keeps.closed.runs lookup steps).2
  · exact (reachable_after readings sink runs).current

/-- A `return` ends at its call.  No expression is left by one, whatever functions the machine
holds: `evaluate` is never `.stop (.returned v)`.  No statement of a program without `bindingErrors`
is left by one either, so the program as a whole is not; and if it is `.completed`, then all its
statements were `ExecutedToEnd`.  The same holds of a source that completes. -/
theorem returns_end_at_calls :
    (∀ lookup steps e m v m', LoxLang.evaluate lookup steps e m ≠ .stop (.returned v) m') ∧
      (∀ statements, bindingErrors (programFindings statements) = [] → ∀ lookup steps m,
        (∀ s ∈ statements, ∀ v m', LoxLang.execute lookup steps s m ≠ .stop (.returned v) m') ∧
        ∀ v m', executeAll (LoxLang.execute lookup steps) statements m ≠ .stop (.returned v) m') ∧
      (∀ statements, bindingErrors (programFindings statements) = [] → ∀ (s : Session) lookup steps,
        (s.execute lookup steps statements).1 = .completed →
        ExecutedToEnd lookup steps statements s.machine) ∧
      ∀ (s : Session) steps source, (s.run steps source).1 = .completed →
        ExecutedToEnd .byDepth steps (Program.read source s.nextId).statements
          (s.ready source).machine := by
  have hexecuted : ∀ statements, bindingErrors (programFindings statements) = [] →
      ∀ (s : Session) lookup steps, (s.execute lookup steps statements).1 = .completed →
      ExecutedToEnd lookup steps statements s.machine := by
    intro statements hresolved s lookup steps hcompleted
    obtain ⟨m, hm, -⟩ := ok_of_execute_completed hresolved hcompleted
    exact executedToEnd_of_ok hm
  refine ⟨?_, ?_, hexecuted, ?_⟩
  · intro lookup steps e m
    exact ((returns_contained lookup steps).1 e m).ne_returned
  · intro statements hresolved lookup steps m
    -- The resolver has found no `return` outside of functions.
    have hfree :=
      Stmt.allReturnFree_of_faultless statements [] (faultless_iff_bindingErrors.mpr hresolved)
    constructor
    · intro s hs
      exact ((returns_contained lookup steps).2 s m (Stmt.returnFree_of_mem hfree hs)).ne_returned
    · exact (executeAll_contained_of_accepted hresolved lookup steps m).ne_returned
  · intro s steps source hcompleted
    have haccepts := accepts_of_completed hcompleted
    rw [Session.run, runBy_of_accepts haccepts] at hcompleted
    exact hexecuted _ haccepts.resolved (s.ready source) .byDepth steps hcompleted

/-- A function `f` that returns, and the call of it. -/
theorem return_ends_at_call :
    bindingErrors (programFindings (Program.read "fun f(){return;}f();" 0).statements) = [] ∧
      ((start (fun _ => 0) .unlimited).run 6 "fun f(){return;}f();").1 = .completed ∧
      (∀ s ∈ (Program.read "fun f(){return;}f();" 0).statements, ∀ m v m',
        LoxLang.execute .byDepth 6 s m ≠ .stop (.returned v) m') ∧
      ExecutedToEnd .byDepth 6 (Program.read "fun f(){return;}f();" 0).statements
        ((start (fun _ => 0) .unlimited).ready "fun f(){return;}f();").machine := by
  have haccepts : (start (fun _ => 0) .unlimited).Accepts "fun f(){return;}f();" := ⟨rfl, rfl⟩
  have hstatements : (Program.read "fun f(){return;}f();" 0).statements =
      [.function ⟨.identifier, "f", none, 1⟩ [] [.ret ⟨.returnWord, "return", none, 1⟩ none],
        .expression (.call (.read 0 ⟨.identifier, "f", none, 1⟩) ⟨.rightParen, ")", none, 1⟩ [])] :=
    rfl
  have hrun : (start (fun _ => 0) .unlimited).run 6 "fun f(){return;}f();" =
      ((start (fun _ => 0) .unlimited).ready "fun f(){return;}f();").execute .byDepth 6
        [.function ⟨.identifier, "f", none, 1⟩ [] [.ret ⟨.returnWord, "return", none, 1⟩ none],
          .expression (.call (.read 0 ⟨.identifier, "f", none, 1⟩)
            ⟨.rightParen, ")", none, 1⟩ [])] := by
    rw [Session.run, runBy_of_accepts haccepts, ← hstatements]
    rfl
  have hcompleted : ((start (fun _ => 0) .unlimited).run 6 "fun f(){return;}f();").1 =
      .completed := by
    rw [hrun]
    rfl
  obtain ⟨-, hcontained, -, hexecuted⟩ := returns_end_at_calls
  exact ⟨haccepts.resolved, hcompleted,
    fun s hs m => (hcontained _ haccepts.resolved .byDepth 6 m).1 s hs,
    hexecuted _ _ _ hcompleted⟩

end Session

end LoxLang
