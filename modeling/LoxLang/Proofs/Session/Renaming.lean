import LoxLang.Proofs.Grammar.Parallel
import LoxLang.Proofs.Machine.RenamedRuns
import LoxLang.Proofs.Scope.Renaming
import LoxLang.Proofs.Session.Pairing
import LoxLang.Proofs.Source.Renaming

/-!
# Renaming local variables

Scoping is lexical: what a local variable is called cannot be observed.  A source in which a local
variable has got a name that occurs nowhere else is read, resolved and run like the first one, in
whatever session; only the message about an undefined variable may show the new name.
-/

namespace LoxLang

/-! ## Reading -/

namespace Program

variable {x y source source' : String}

/-- Two readings of sources of which the second has identifiers `x` replaced by `y`. -/
def replacement (x y : String) (nextId : NodeId) : Grammar.Parallel :=
  ⟨Token.Replaced x y, Token.Replaced.kind_eq, Token.Replaced.literal_eq, nextId, nextId⟩

lemma eof_replaced {ts ts' : List Token} (h : List.Forall₂ (Token.Replaced x y) ts ts') :
    Option.Rel (Token.Replaced x y) (ts.find? (·.kind = .eof)) (ts'.find? (·.kind = .eof)) := by
  induction h with
  | nil => exact .none
  | cons ht _ ih =>
    rw [List.find?_cons, List.find?_cons, ← ht.kind_eq]
    split
    · exact .some ht
    · exact ih

lemma last_replaced {ts ts' : List Token} (h : List.Forall₂ (Token.Replaced x y) ts ts')
    (nextId : NodeId) :
    Token.Replaced x y (Grammar.Cursor.start ts nextId).last
      (Grammar.Cursor.start ts' nextId).last := by
  have hlines : ts.map Token.line = ts'.map Token.line := by
    rw [← List.forall₂_eq_eq_eq, List.forall₂_map_left_iff, List.forall₂_map_right_iff]
    exact h.imp fun _ _ ht => ht.line_eq
  have hfound := eof_replaced h
  -- Without an end of its own, a list of tokens gets one on its last line.
  rw [Grammar.Cursor.start, Grammar.Cursor.start, ← List.getLast?_map, ← List.getLast?_map, hlines]
  generalize ts.find? (·.kind = .eof) = found, ts'.find? (·.kind = .eof) = found' at hfound
  cases hfound with
  | none => exact Or.inl rfl
  | some ht => exact ht

lemma read_replaced (h : Source.Replaced x y source source') (nextId : NodeId)
    (hread : (Program.read source nextId).diagnostics = []) :
    (Program.read source' nextId).diagnostics = [] ∧
      (Program.read source' nextId).nextId = (Program.read source nextId).nextId ∧
      List.Forall₂ (Stmt.Matches Eq (Token.Replaced x y)) (Program.read source nextId).statements
        (Program.read source' nextId).statements := by
  have htokens := Source.tokens_replaced h
  have hparsed :=
    Grammar.parseProgram_parallel (replacement x y nextId) htokens (last_replaced htokens nextId)
  have hids : ∀ i i', (replacement x y nextId).ids i i' → i = i' := fun _ _ => Nat.add_right_cancel
  obtain ⟨hlexical, hgrammar⟩ := List.append_eq_nil_iff.mp hread
  refine ⟨?_, (hids _ _ hparsed.nextId).symm, ?_⟩
  · have herrors := hparsed.errors
    have hnone : (Grammar.parseProgram (Source.tokens source) nextId).errors = [] :=
      List.map_eq_nil_iff.mp hgrammar
    have hnone' : (Grammar.parseProgram (Source.tokens source') nextId).errors = [] :=
      List.length_eq_zero_iff.mp (herrors.length_eq.symm.trans (List.length_eq_zero_iff.mpr hnone))
    rw [Source.errors_of_replaced h] at hlexical
    rw [Program.read, hlexical, hnone']
    rfl
  · exact Stmt.Matches.mono_all (fun _ _ ht => ht) _ hparsed.statements fun _ _ _ => hids _ _

/-- A name `y` that is the lexeme of no token of a source occurs nowhere in its program. -/
lemma avoids_of_fresh {nextId : NodeId} (hread : (Program.read source nextId).diagnostics = [])
    (hy : ∀ t ∈ Source.tokens source, t.lexeme ≠ y) :
    List.Forall₂ (Stmt.Matches anyIds (avoids y)) (Program.read source nextId).statements
      (Program.read source nextId).statements :=
  Stmt.Matches.mono_all (fun _ _ ht => hy _ ht.2) _ (matches_self hread) fun _ _ _ _ => trivial

end Program

/-! ## A session beside itself -/

/-- Nothing is marked as yet. -/
abbrev unmarked : Marking := fun _ => false

lemma Chain.marked {made : Account} {store : Store} {globals f : FrameId} {origins : List Origin}
    {scopes : Scopes} (h : Chain made store globals f origins scopes)
    (hlast : store.enclosing? globals = none) :
    ∃ marks, Unmarked marks ∧ Marked unmarked store globals f marks := by
  induction h with
  | globals hlt => exact ⟨[], fun _ => List.not_mem_nil.elim, .globals hlt hlast rfl⟩
  | inner _ henclosing _ _ _ _ ih =>
    obtain ⟨marks, hunmarked, hmarked⟩ := ih
    exact ⟨false :: marks, hunmarked.inner, .inner henclosing hmarked⟩

namespace Session

variable {s : Session} {x y source source' : String}

/-- Between runs every function keeps a frame whose chain ends in the global one, so a session
stands `Beside` itself. -/
lemma Reachable.beside (h : s.Reachable) (x y source : String) :
    Beside ⟨x, y, (s.ready source).machine.depths⟩ unmarked [] (s.ready source).machine
      (s.ready source).machine := by
  obtain ⟨readings, sink, runs, rfl⟩ := h
  obtain ⟨made, hmade⟩ :=
    exists_inOrder runs (fun _ _ _ => True) (fun _ _ _ _ _ _ _ => trivial) fun _ _ _ _ => trivial
  obtain ⟨hsound, hcurrent, -, -, -⟩ := hmade.ready source
  generalize ((after readings sink runs).ready source).machine = m at hsound hcurrent
  have hvalue : ∀ f z v, m.store.local? f z = some v → v.Renamed ⟨x, y, m.depths⟩ unmarked m v := by
    intro f z v hv
    have hfunction := hsound.values f z v hv
    cases v with
    | nil => exact .nil
    | bool b => exact .bool b
    | number n => exact .number n
    | string text => exact .string text
    | callable c =>
      cases c with
      | clock id => exact .clock id
      | function id f closure =>
        -- Nothing is marked, so the body of the function is its own renaming.
        obtain ⟨origins, scopes, hchain, -⟩ := hfunction
        obtain ⟨marks, hunmarked, hmarked⟩ := hchain.marked hsound.globals_last
        refine .function id closure ⟨rfl, false, marks, hmarked, ?_, .refl hunmarked.inner f.body⟩
        exact List.forall₂_same.mpr fun t _ => .refl rfl t
  refine ⟨⟨rfl, fun _ => rfl, fun f z z' hz => ?_, rfl, rfl, rfl, rfl, rfl, rfl, rfl⟩, ?_⟩
  · cases hz
    cases hv : m.store.local? f z with
    | none => exact .none
    | some v => exact .some (hvalue f z v hv)
  · rw [hcurrent]
    exact .globals hsound.globals_lt hsound.globals_last rfl

/-! ## Renamed sources -/

/-- A second source `source'` is a first one in which local variables `x` are called `y`: their
declarations and exactly the reads and assignments that the resolver binds to them.  The name `y`
occurs nowhere in the first source. -/
structure RenamesLocals (s : Session) (x y source source' : String) : Prop where
  text : Source.Replaced x y source source'
  fresh : ∀ t ∈ Source.tokens source, t.lexeme ≠ y
  statements : Stmt.AllRenamed x y (s.ready source).machine.depths []
    (Program.read source s.nextId).statements (Program.read source' s.nextId).statements

/-- The `same` outcome, or an `undefined` variable that is shown under its new name. -/
inductive OutcomeRenamed (x y : String) : Outcome → Outcome → Prop where
  | same (o : Outcome) : OutcomeRenamed x y o o
  | undefined {name : Token} : name.lexeme = x →
      OutcomeRenamed x y (.failed (.runtime (.undefined name)))
        (.failed (.runtime (.undefined { name with lexeme := y })))

lemma OutcomeRenamed.of_token {mark : Bool} {name name' : Token} (h : name.Renamed x y mark name') :
    OutcomeRenamed x y (.failed (.runtime (.undefined name)))
      (.failed (.runtime (.undefined name'))) := by
  obtain ⟨hlexeme, hrest⟩ := h
  rw [hrest]
  generalize hz : name.lexeme = z, name'.lexeme = z' at hlexeme
  cases hlexeme with
  | kept | other _ _ =>
    subst hz
    exact .same _
  | renamed => exact .undefined hz

/-- The renamed `source'` is resolved like the first one: it is accepted, and leaves the same depth
table. -/
lemma RenamesLocals.ready_eq (h : s.RenamesLocals x y source source') (hreachable : s.Reachable)
    (haccepts : s.Accepts source) : s.Accepts source' ∧ s.ready source' = s.ready source := by
  obtain ⟨hread, hnextId, -⟩ := Program.read_replaced h.text s.nextId haccepts.read
  have hholds : (s.ready source).machine.depths.Hold
      (programSites (Program.read source s.nextId).statements) :=
    fun w hw => get?_ready_of_mem hw hreachable.get?_of_le
  have hfindings := programFindings_of_renamed h.statements
    (Program.avoids_of_fresh haccepts.read h.fresh) hholds
      (faultless_iff_bindingErrors.mpr haccepts.resolved)
  refine ⟨⟨hread, ?_⟩, ?_⟩
  · rw [hfindings]
    exact haccepts.resolved
  · rw [Session.ready, Session.ready, hfindings, hnextId]

/-- Results `r` and `r'` that correspond end a session in the same way and with the same output. -/
lemma conclude_renamed {p : Renaming} {marking : Marking} {m : Machine} {r r' : Result Unit}
    (h : r.Renamed p marking m done r') :
    (s.conclude r').2.machine.sink = (s.conclude r).2.machine.sink ∧
      OutcomeRenamed p.x p.y (s.conclude r).1 (s.conclude r').1 := by
  have hflushed : ∀ {m₁ m₁' : Machine}, m₁.sink = m₁'.sink →
      OutcomeRenamed p.x p.y (flushed m₁) (flushed m₁') := by
    intro m₁ m₁' hsink
    rw [flushed, flushed, hsink]
    exact .same _
  cases r with
  | ok v m₁ => cases r' with
    | ok v' m₁' =>
      obtain ⟨marking₁, hcontinues, -⟩ := h
      exact ⟨hcontinues.machines.sink.symm, hflushed hcontinues.machines.sink⟩
    | stop reason' m₁' | exhausted => exact h.elim
  | stop reason m₁ => cases r' with
    | stop reason' m₁' =>
      obtain ⟨marking₁, hcontinues, hreason⟩ := h
      have hsink := hcontinues.machines.sink
      cases hreason with
      | error e => exact ⟨hsink.symm, .same _⟩
      | undefined hname => exact ⟨hsink.symm, .of_token hname⟩
      | returned hv => exact ⟨hsink.symm, hflushed hsink⟩
      | sink fault => exact ⟨hsink.symm, .same _⟩
    | ok v' m₁' | exhausted => exact h.elim
  | exhausted => cases r' with
    | exhausted => exact ⟨rfl, .same _⟩
    | ok v' m₁' | stop reason' m₁' => exact h.elim

/-- What a local variable is called cannot be observed.  After any `runs`, let a `source` be
accepted, and let `source'` be that one with local variables `x` renamed to a name `y` that occurs
nowhere in it (`hrenames`).  Then `source'` is accepted, every node of it has the depth of the
corresponding node of the first, or none like it, and run with the same steps it writes the same and
has the same outcome, but that the name of an undefined variable may be the new one:
`OutcomeRenamed`. -/
theorem renamed_locals_run_alike (readings : ℕ → Float) (sink : Sink) (runs : List (ℕ × String))
    {x y source source' : String} (haccepts : (after readings sink runs).Accepts source)
    (hrenames : (after readings sink runs).RenamesLocals x y source source') :
    (after readings sink runs).Accepts source' ∧
      List.Forall₂
        (fun o o' => o'.access = o.access ∧ o'.id = o.id ∧
          ((after readings sink runs).ready source').machine.depths.get? o'.id =
            ((after readings sink runs).ready source).machine.depths.get? o.id)
        (Stmt.allOccurrences (Program.read source (after readings sink runs).nextId).statements)
        (Stmt.allOccurrences (Program.read source' (after readings sink runs).nextId).statements) ∧
      ∀ steps,
        ((after readings sink runs).run steps source').2.machine.sink =
            ((after readings sink runs).run steps source).2.machine.sink ∧
          OutcomeRenamed x y ((after readings sink runs).run steps source).1
            ((after readings sink runs).run steps source').1 := by
  have hreachable := reachable_after readings sink runs
  generalize after readings sink runs = s at *
  obtain ⟨haccepts', hready⟩ := hrenames.ready_eq hreachable haccepts
  refine ⟨haccepts', ?_, fun steps => ?_⟩
  · obtain ⟨-, -, hmatches⟩ := Program.read_replaced hrenames.text s.nextId haccepts.read
    refine (Stmt.Matches.occurrences_all _ hmatches).imp fun o o' ho =>
      ⟨ho.access.symm, ho.id.symm, ?_⟩
    rw [hready, ho.id]
  · have hruns := (runs_renamed ⟨x, y, (s.ready source).machine.depths⟩ steps).2
    have hresult := executeAll_renamed hruns _ hrenames.statements (hreachable.beside x y source)
    rw [Session.run, Session.run, runBy_of_accepts haccepts, runBy_of_accepts haccepts', hready,
      execute_eq_conclude, execute_eq_conclude]
    exact conclude_renamed hresult

/-- The segments of a block with a variable `name` of its own, before a read of a global
variable. -/
def shadowingSegments (name : List Char) : List Source.Segment :=
  [⟨.token .leftBrace, ['{']⟩, ⟨.token .varWord, "var".toList⟩, ⟨.blank, [' ']⟩,
    ⟨.token .identifier, name⟩, ⟨.token .equal, ['=']⟩, ⟨.token .nilWord, "nil".toList⟩,
    ⟨.token .semicolon, [';']⟩, ⟨.token .printWord, "print".toList⟩, ⟨.blank, [' ']⟩,
    ⟨.token .identifier, name⟩, ⟨.token .semicolon, [';']⟩, ⟨.token .rightBrace, ['}']⟩,
    ⟨.token .printWord, "print".toList⟩, ⟨.blank, [' ']⟩, ⟨.token .identifier, ['a']⟩,
    ⟨.token .semicolon, [';']⟩]

/-- The statements that the `shadowingSegments` stand for. -/
def shadowingStatements (name : Token) : List Stmt :=
  [.block [.var name (some (.literal .nil)), .print (.read 0 name)],
    .print (.read 1 ⟨.identifier, "a", none, 1⟩)]

/-- The variable of a block gets another name, `b`, and the global variable `a` that it shadows
keeps its own. -/
theorem renamed_shadowing_variable :
    (after (fun _ => 0) .unlimited []).Accepts "{var a=nil;print a;}print a;" ∧
      (after (fun _ => 0) .unlimited []).RenamesLocals "a" "b" "{var a=nil;print a;}print a;"
        "{var b=nil;print b;}print a;" ∧
      (after (fun _ => 0) .unlimited []).Accepts "{var b=nil;print b;}print a;" ∧
      ∀ steps,
        ((after (fun _ => 0) .unlimited []).run steps
            "{var b=nil;print b;}print a;").2.machine.sink =
          ((after (fun _ => 0) .unlimited []).run steps
            "{var a=nil;print a;}print a;").2.machine.sink ∧
        OutcomeRenamed "a" "b"
          ((after (fun _ => 0) .unlimited []).run steps "{var a=nil;print a;}print a;").1
          ((after (fun _ => 0) .unlimited []).run steps "{var b=nil;print b;}print a;").1 := by
  have haccepts : (after (fun _ => 0) .unlimited []).Accepts "{var a=nil;print a;}print a;" :=
    ⟨rfl, rfl⟩
  have hstart : (after (fun _ => 0) .unlimited []).nextId = 0 := rfl
  have hfirst : (Program.read "{var a=nil;print a;}print a;" 0).statements =
      shadowingStatements ⟨.identifier, "a", none, 1⟩ := rfl
  have hsecond : (Program.read "{var b=nil;print b;}print a;" 0).statements =
      shadowingStatements ⟨.identifier, "b", none, 1⟩ := rfl
  have hrenames :
      (after (fun _ => 0) .unlimited []).RenamesLocals "a" "b" "{var a=nil;print a;}print a;"
        "{var b=nil;print b;}print a;" := by
    refine ⟨?_, ?_, ?_⟩
    · have hsegments : Source.segments "{var a=nil;print a;}print a;".toList =
          shadowingSegments ['a'] := rfl
      have hsegments' : Source.segments "{var b=nil;print b;}print a;".toList =
          shadowingSegments ['b'] := rfl
      rw [Source.Replaced, hsegments, hsegments', shadowingSegments, shadowingSegments]
      simp [Source.Segment.Replaced]
    · have hlexemes : (Source.tokens "{var a=nil;print a;}print a;").map Token.lexeme =
          ["\x7b", "var", "a", "=", "nil", ";", "print", "a", ";", "\x7d", "print", "a", ";", ""] :=
        rfl
      intro t ht hlexeme
      have hmem := List.mem_map_of_mem (f := Token.lexeme) ht
      rw [hlexemes, hlexeme] at hmem
      simp at hmem
    · -- Only the read inside the block has a depth, so only that one is renamed.
      have hdepths :
          ((after (fun _ => 0) .unlimited []).ready "{var a=nil;print a;}print a;").machine.depths =
            Depths.empty.note 0 0 := by
        rw [Session.ready, hstart, hfirst]
        rfl
      have hinner : (Depths.empty.note 0 0).mark [true] 0 = true := by simp [Depths.mark]
      have houter : (Depths.empty.note 0 0).mark [] 1 = false := by simp [Depths.mark]
      rw [hdepths, hstart, hfirst, hsecond]
      refine .cons (.block true (.cons (.var ⟨.renamed, rfl⟩ (.some (.literal .nil)))
        (.cons (.print (.read ?_)) .nil))) (.cons (.print (.read (.refl houter _))) .nil)
      exact ⟨hinner ▸ .renamed, rfl⟩
  obtain ⟨haccepts', -, hruns⟩ :=
    renamed_locals_run_alike (fun _ => 0) .unlimited [] haccepts hrenames
  exact ⟨haccepts, hrenames, haccepts', hruns⟩

end Session

end LoxLang
