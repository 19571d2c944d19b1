import LoxLang.Proofs.Machine.Limits
import LoxLang.Proofs.Session.Pairing

/-!
# Runs on a sink that fails

A sink that accepts only so many bytes truncates a run: the output is cut off where the room ends,
the run fails there if it goes on to write, and the session is left at the frame where the run
began.
-/

namespace LoxLang.Session

/-- The session with `room` for so many more bytes on its sink; without a number, for any. -/
def withRoom (s : Session) (room : Option ℕ) : Session :=
  { s with machine := { s.machine with sink := { s.machine.sink with room := room } } }

/-- How a run `r'` from `s` on a sink with room for `n` bytes goes with the run `r` on a sink
without a limit, which writes `output`. -/
structure Truncates (s : Session) (n : ℕ) (output : List UInt8) (r r' : Outcome × Session) :
    Prop where
  written : r.2.machine.sink.written.toList = s.machine.sink.written.toList ++ output
  truncated : r'.2.machine.sink.written.toList = s.machine.sink.written.toList ++ output.take n
  same : output.length ≤ n → r' = (r.1, r.2.withRoom (some (n - output.length)))
  closed : n < output.length → r'.1 = .failed (.sink .closed) ∧ r'.1.exitCode = 74
  current : r'.2.machine.current = s.machine.current
  globals : r'.2.machine.globals = s.machine.globals

variable {s : Session} {n : ℕ}

lemma withRoom_some_machine (s : Session) (n : ℕ) :
    (s.withRoom (some n)).machine =
      (s.withRoom none).machine.limit (s.machine.sink.written.size + n) := by
  simp [withRoom, Machine.limit]

/-- If a limit truncates a run of statements (`hlimited`), it truncates what the run is concluded
with. -/
lemma truncates_of_limited {m₁ : Machine} {r r' : Result Unit} {o : Outcome}
    (hkeeps : (s.withRoom none).machine.Keeps m₁)
    (hlimited : Result.Limited (s.machine.sink.written.size + n) (s.withRoom none).machine m₁ r r')
    (hconclude : (s.withRoom (some n)).conclude r =
      (o, ⟨m₁.limit (s.machine.sink.written.size + n), s.nextId⟩)) :
    ∃ output, Truncates s n output (o, ⟨m₁, s.nextId⟩) ((s.withRoom (some n)).conclude r') := by
  obtain ⟨output, houtput⟩ := hkeeps.written
  have hsize : m₁.sink.written.size = s.machine.sink.written.size + output.length := by
    rw [← Array.length_toList, ← houtput, List.length_append]
    rfl
  refine ⟨output, ?_⟩
  rcases Nat.lt_or_ge n output.length with hlt | hle
  · -- There is too little room: the run is cut off where the first `n` bytes are written.
    obtain ⟨m₂, rfl, hcurrent, hglobals, htruncated⟩ := hlimited.cut (by omega)
    refine ⟨houtput.symm, ?_, fun hle => absurd hlt (Nat.not_lt.mpr hle), fun _ => ⟨rfl, rfl⟩,
      hcurrent, hglobals⟩
    refine htruncated.trans ?_
    rw [← houtput, ← Array.length_toList]
    exact List.take_length_add_append n
  · -- There is room enough: the run is the same, and the room that is left is smaller.
    obtain rfl := hlimited.fits (by omega)
    rw [hconclude]
    have hroom : s.machine.sink.written.size + n - m₁.sink.written.size = n - output.length := by
      omega
    refine ⟨houtput.symm, ?_, fun _ => ?_, fun hlt => absurd hlt (Nat.not_lt.mpr hle),
      hkeeps.current, hkeeps.globals⟩
    · rw [List.take_of_length_le hle]
      exact houtput.symm
    · rw [Machine.limit, hroom]
      rfl

/-- A limit of `n` bytes truncates the execution of a program. -/
lemma execute_truncates (s : Session) (lookup : Lookup) (steps n : ℕ) (ss : List Stmt)
    (hends : ((s.withRoom none).execute lookup steps ss).1 ≠ .exhausted) :
    ∃ output, Truncates s n output ((s.withRoom none).execute lookup steps ss)
      ((s.withRoom (some n)).execute lookup steps ss) := by
  have hrun := executeAll_truncates lookup steps ss
  have hlimited := hrun.truncates (s.machine.sink.written.size + n) (s.withRoom none).machine rfl
    (Nat.le_add_right _ _)
  have hkeeps := hrun.keeps (s.withRoom none).machine
  rw [execute_eq_conclude] at hends ⊢
  rw [execute_eq_conclude, withRoom_some_machine]
  cases hr : executeAll (LoxLang.execute lookup steps) ss (s.withRoom none).machine with
  | ok v m₁ =>
    rw [hr] at hlimited hkeeps
    exact truncates_of_limited hkeeps hlimited rfl
  | stop reason m₁ =>
    rw [hr] at hlimited hkeeps
    cases reason <;> exact truncates_of_limited hkeeps hlimited rfl
  | exhausted =>
    rw [hr] at hends
    exact absurd rfl hends

/-- What `room` there is does not matter to a source that is rejected. -/
lemma runBy_withRoom_of_not_accepts {source : String} (h : ¬ s.Accepts source) (room : Option ℕ)
    (lookup : Lookup) (steps : ℕ) :
    (s.withRoom room).runBy lookup steps source =
      ((s.runBy lookup steps source).1, (s.runBy lookup steps source).2.withRoom room) := by
  rcases unread_or_misused h with hread | ⟨hread, hmisused⟩
  · rw [runBy_of_unread hread, runBy_of_unread (s := s.withRoom room) hread]
    rfl
  · rw [runBy_of_misused hread hmisused, runBy_of_misused (s := s.withRoom room) hread hmisused]
    rfl

lemma run_truncates_of_not_accepts {source : String} (h : ¬ s.Accepts source) (steps n : ℕ) :
    Truncates s n [] ((s.withRoom none).run steps source)
      ((s.withRoom (some n)).run steps source) := by
  have hmachine := (extends_of_not_accepts h : s.Extends (s.run steps source).2).machine
  rw [Session.run] at hmachine
  rw [Session.run, Session.run, runBy_withRoom_of_not_accepts h, runBy_withRoom_of_not_accepts h]
  generalize (s.runBy .byDepth steps source).2 = u at hmachine ⊢
  have hwritten : u.machine.sink.written.toList = s.machine.sink.written.toList ++ [] := by
    rw [hmachine, List.append_nil]
  refine ⟨hwritten, by rw [List.take_nil]; exact hwritten, fun _ => rfl,
    fun hlt => absurd hlt (Nat.not_lt_zero n), ?_, ?_⟩
  · show u.machine.current = _
    rw [hmachine]
  · show u.machine.globals = _
    rw [hmachine]

/-- A sink that fails only `Truncates`.  Take a run that comes to its end on a sink without a limit
(`hends`), and its `output`.  On a sink with room for `n` more bytes the same run writes the first
`n` bytes of that output.  If that is all, it ends alike; if not, it fails for want of room, with
exit code 74, wherever it was.  In either case it comes back to the frame it started in, which for
every `Reachable` session is the global one. -/
theorem run_on_failing_sink (s : Session) (source : String) (steps n : ℕ)
    (hends : ((s.withRoom none).run steps source).1 ≠ .exhausted) :
    (∃ output, Truncates s n output ((s.withRoom none).run steps source)
      ((s.withRoom (some n)).run steps source)) ∧
      (s.Reachable → ((s.withRoom (some n)).run steps source).2.machine.current =
        ((s.withRoom (some n)).run steps source).2.machine.globals) := by
  obtain ⟨output, h⟩ : ∃ output,
      Truncates s n output ((s.withRoom none).run steps source)
        ((s.withRoom (some n)).run steps source) := by
    by_cases haccepts : s.Accepts source
    · have haccepts' : ∀ room, (s.withRoom room).Accepts source :=
        fun _ => ⟨haccepts.read, haccepts.resolved⟩
      rw [Session.run, runBy_of_accepts (haccepts' none)] at hends ⊢
      rw [Session.run, runBy_of_accepts (haccepts' (some n))]
      obtain ⟨output, h⟩ := execute_truncates (s.ready source) .byDepth steps n _ hends
      exact ⟨output, h.written, h.truncated, h.same, h.closed, h.current, h.globals⟩
    · exact ⟨[], run_truncates_of_not_accepts haccepts steps n⟩
  refine ⟨⟨output, h⟩, fun hreachable => ?_⟩
  rw [h.current, h.globals]
  exact hreachable.current

/-- A `print` inside a call, on a sink that has room for two of its four bytes. -/
theorem run_call_on_failing_sink :
    (((start (fun _ => 0) .unlimited).withRoom none).run 6 "fun f(){print nil;}f();").1 =
      .completed ∧
      (((start (fun _ => 0) .unlimited).withRoom (some 2)).run 6 "fun f(){print nil;}f();").1 =
        .failed (.sink .closed) ∧
      (∃ output, Truncates (start (fun _ => 0) .unlimited) 2 output
        (((start (fun _ => 0) .unlimited).withRoom none).run 6 "fun f(){print nil;}f();")
        (((start (fun _ => 0) .unlimited).withRoom (some 2)).run 6 "fun f(){print nil;}f();")) ∧
      (((start (fun _ => 0) .unlimited).withRoom (some 2)).run 6
          "fun f(){print nil;}f();").2.machine.current =
        (((start (fun _ => 0) .unlimited).withRoom (some 2)).run 6
          "fun f(){print nil;}f();").2.machine.globals := by
  have haccepts : ∀ room,
      ((start (fun _ => 0) .unlimited).withRoom room).Accepts "fun f(){print nil;}f();" :=
    fun _ => ⟨rfl, rfl⟩
  have hstatements : (Program.read "fun f(){print nil;}f();" 0).statements =
      [.function ⟨.identifier, "f", none, 1⟩ [] [.print (.literal .nil)],
        .expression (.call (.read 0 ⟨.identifier, "f", none, 1⟩) ⟨.rightParen, ")", none, 1⟩ [])] :=
    rfl
  have hrun : ∀ room,
      ((start (fun _ => 0) .unlimited).withRoom room).run 6 "fun f(){print nil;}f();" =
        (((start (fun _ => 0) .unlimited).withRoom room).ready
            "fun f(){print nil;}f();").execute .byDepth 6
          [.function ⟨.identifier, "f", none, 1⟩ [] [.print (.literal .nil)],
            .expression (.call (.read 0 ⟨.identifier, "f", none, 1⟩)
              ⟨.rightParen, ")", none, 1⟩ [])] := by
    intro room
    rw [Session.run, runBy_of_accepts (haccepts room), ← hstatements]
    rfl
  have hcompleted :
      (((start (fun _ => 0) .unlimited).withRoom none).run 6 "fun f(){print nil;}f();").1 =
        .completed := by
    rw [hrun]
    rfl
  have hfailed :
      (((start (fun _ => 0) .unlimited).withRoom (some 2)).run 6 "fun f(){print nil;}f();").1 =
        .failed (.sink .closed) := by
    rw [hrun]
    rfl
  have htruncated := run_on_failing_sink (start (fun _ => 0) .unlimited)
    "fun f(){print nil;}f();" 6 2 (by rw [hcompleted]; exact Outcome.noConfusion)
  exact ⟨hcompleted, hfailed, htruncated.1, htruncated.2 ⟨_, _, [], rfl⟩⟩

end LoxLang.Session
