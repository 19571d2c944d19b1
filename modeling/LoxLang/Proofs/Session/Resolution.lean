import LoxLang.Proofs.Scope.Places
import LoxLang.Proofs.Session.Exits

/-!
# What resolving a program comes to

The depth table holds for each occurrence how far out the nearest scope lies that declares its name
before it, and the misuses are the places where one of the three rules about names and `return` is
broken.  Both can be told from the tree alone.  Nothing is asked of the program: whatever tokens are
parsed, the tree is in shape and its nodes have different ids, and the resolver goes on after a
misuse as if it had not been there.
-/

namespace LoxLang

/-- The scope at distance `d` declares the name `x`, and no closer one does. -/
def NearestAt (layers : List Layer) (x : String) (d : ℕ) : Prop :=
  (∃ l ∈ layers[d]?, l.Declares x) ∧ ∀ i < d, ∀ l ∈ layers[i]?, ¬ l.Declares x

/-- The table has for each occurrence the distance at which its name is declared (`found`), and
nothing if no scope around it declares the name (`missing`). -/
structure Depths.RecordsDistances (t : Depths) (statements : List Stmt) : Prop where
  found : ∀ o layers, ⟨.access o, layers⟩ ∈ programPlaces statements →
    ∀ d, t.get? o.id = some d ↔ NearestAt layers o.name.lexeme d
  missing : ∀ o layers, ⟨.access o, layers⟩ ∈ programPlaces statements →
    (t.get? o.id = none ↔ ∀ l ∈ layers, ¬ l.Declares o.name.lexeme)

section

variable {layers : List Layer} {x : String}

lemma distance?_eq_some_iff {d : ℕ} : distance? layers x = some d ↔ NearestAt layers x d := by
  rw [distance?, List.findIdx?_eq_some_iff_getElem, NearestAt]
  constructor
  · rintro ⟨hlt, hhere, hcloser⟩
    refine ⟨⟨layers[d], by simp, by simpa using hhere⟩, fun i hi l hl => ?_⟩
    obtain ⟨-, rfl⟩ := List.getElem?_eq_some_iff.mp hl
    simpa using hcloser i hi
  · rintro ⟨⟨l, hl, hdeclares⟩, hcloser⟩
    obtain ⟨hlt, rfl⟩ := List.getElem?_eq_some_iff.mp hl
    refine ⟨hlt, by simpa using hdeclares, fun i hi => ?_⟩
    simpa using hcloser i hi layers[i] (by simp)

lemma distance?_eq_none_iff : distance? layers x = none ↔ ∀ l ∈ layers, ¬ l.Declares x := by
  simp [distance?, List.findIdx?_eq_none_iff]

end

section

variable {statements : List Stmt} {t : Depths} (hshaped : Stmt.AllShaped statements)
  (hnodup : ((Stmt.allOccurrences statements).map Occurrence.id).Nodup)
  (ht : ∀ o ∈ Stmt.allOccurrences statements, t.get? o.id = none)

include hshaped hnodup ht

/-- Of the nodes of a program, the table gets the `distance?` at their places. -/
lemma get?_noteAll_of_place {o : Occurrence} {layers : List Layer}
    (h : ⟨.access o, layers⟩ ∈ programPlaces statements) :
    (t.noteAll (programFindings statements)).get? o.id = distance? layers o.name.lexeme := by
  have hmem : (o, layers) ∈ (programPlaces statements).filterMap Place.access? :=
    List.mem_filterMap.mpr ⟨_, h, rfl⟩
  have hoccurrences := occurrences_programPlaces statements
  have ho : o ∈ Stmt.allOccurrences statements := by
    rw [← hoccurrences]
    exact List.mem_filterMap.mpr ⟨_, h, rfl⟩
  refine Depths.get?_noteAll_of_mem (fun a : Occurrence × List Layer => a.1.id)
    (fun a => distance? a.2 a.1.name.lexeme) ?_ ?_ hmem (ht o ho)
  · rw [entries_eq_filterMap hshaped, List.filterMap_filterMap]
    rfl
  · rw [← hoccurrences, ← List.map_filterMap, List.map_map] at hnodup
    exact hnodup

lemma recordsDistances_noteAll :
    (t.noteAll (programFindings statements)).RecordsDistances statements where
  found o layers h d := by rw [get?_noteAll_of_place hshaped hnodup ht h, distance?_eq_some_iff]
  missing o layers h := by rw [get?_noteAll_of_place hshaped hnodup ht h, distance?_eq_none_iff]

end

lemma recordsDistances_parseProgram (tokens : List Token) {nextId : NodeId} {t : Depths}
    (ht : ∀ id, nextId ≤ id → t.get? id = none) :
    (t.noteAll (programFindings (Grammar.parseProgram tokens nextId).statements)).RecordsDistances
      (Grammar.parseProgram tokens nextId).statements := by
  have hnumbered := (Grammar.parseProgram_reads tokens nextId).2.1
  exact recordsDistances_noteAll (Grammar.shaped_parseProgram tokens nextId) hnumbered.nodup
    fun o ho => ht o.id (hnumbered.range o ho).1

/-- The misuses that the resolver reports, the `bindingErrors`, are the places that break a rule,
`Place.violation?`, each once and in the order of the places.  Whether a place breaks a rule depends
on where it stands, and not on what is reported elsewhere.  Outside of all local scopes, neither the
name of a declaration nor an access breaks a rule. -/
theorem misuses_are_violations (tokens : List Token) (nextId : NodeId) :
    bindingErrors (programFindings (Grammar.parseProgram tokens nextId).statements) =
        (programPlaces (Grammar.parseProgram tokens nextId).statements).filterMap Place.violation? ∧
      ∀ p ∈ programPlaces (Grammar.parseProgram tokens nextId).statements, p.layers = [] →
        (∃ name, p.point = .declaration name) ∨ (∃ o, p.point = .access o) →
        p.violation? = none := by
  refine ⟨bindingErrors_eq_filterMap (Grammar.shaped_parseProgram tokens nextId), ?_⟩
  rintro p - hglobal (⟨name, hpoint⟩ | ⟨o, hpoint⟩)
  · simp [Place.violation?, hpoint, hglobal]
  · simp [Place.violation?, hpoint, hglobal]

/-- A global variable may be read in its own initializer and a local one may not; nor may a local
variable be declared again, or a `return` stand in no function. -/
theorem misuses_of_three_kinds :
    (programPlaces (Grammar.parseProgram
        (Source.tokens "var a=a;{var b=b;var b;}return;") 0).statements).filterMap
        Place.violation? =
      [⟨.ownInitializer, ⟨.identifier, "b", none, 1⟩⟩, ⟨.redeclared, ⟨.identifier, "b", none, 1⟩⟩,
        ⟨.returnOutsideFunction, ⟨.returnWord, "return", none, 1⟩⟩] ∧
      ⟨.access ⟨.get, 0, ⟨.identifier, "a", none, 1⟩⟩, []⟩ ∈
        programPlaces
          (Grammar.parseProgram (Source.tokens "var a=a;{var b=b;var b;}return;") 0).statements ∧
      Place.violation? ⟨.access ⟨.get, 0, ⟨.identifier, "a", none, 1⟩⟩, []⟩ = none := by
  obtain ⟨hviolations, hglobal⟩ :=
    misuses_are_violations (Source.tokens "var a=a;{var b=b;var b;}return;") 0
  have hstatements :
      (Grammar.parseProgram (Source.tokens "var a=a;{var b=b;var b;}return;") 0).statements =
      [.var ⟨.identifier, "a", none, 1⟩ (some (.read 0 ⟨.identifier, "a", none, 1⟩)),
        .block [.var ⟨.identifier, "b", none, 1⟩ (some (.read 1 ⟨.identifier, "b", none, 1⟩)),
          .var ⟨.identifier, "b", none, 1⟩ none],
        .ret ⟨.returnWord, "return", none, 1⟩ none] := rfl
  have hplace : (⟨.access ⟨.get, 0, ⟨.identifier, "a", none, 1⟩⟩, []⟩ : Place) ∈
      programPlaces (Grammar.parseProgram (Source.tokens "var a=a;{var b=b;var b;}return;")
        0).statements := by
    rw [hstatements]
    exact List.mem_flatMap.mpr ⟨_, List.mem_cons_self, List.mem_of_getLast? rfl⟩
  refine ⟨?_, hplace, hglobal _ hplace rfl (Or.inr ⟨_, rfl⟩)⟩
  rw [← hviolations, hstatements]
  rfl

namespace Session

/-- The depth of an occurrence is the distance to the nearest scope around it that declares its name
before it, `NearestAt`.  Every occurrence of a program has a place.  Entering the findings of a
parsed program into a table without entries for its node ids gives one that `RecordsDistances`; so
in any session, after the run of a `source` that could be read, the table has them for its program,
however the run ended. -/
theorem depths_are_distances :
    (∀ statements, (programPlaces statements).filterMap Place.occurrence? =
      Stmt.allOccurrences statements) ∧
      (∀ tokens nextId (t : Depths), (∀ id, nextId ≤ id → t.get? id = none) →
        (t.noteAll
            (programFindings (Grammar.parseProgram tokens nextId).statements)).RecordsDistances
          (Grammar.parseProgram tokens nextId).statements) ∧
      ∀ readings sink runs steps source,
        (Program.read source (after readings sink runs).nextId).diagnostics = [] →
        (after readings sink (runs ++ [(steps, source)])).machine.depths.RecordsDistances
          (Program.read source (after readings sink runs).nextId).statements := by
  refine ⟨occurrences_programPlaces,
    fun tokens nextId t ht => recordsDistances_parseProgram tokens ht, ?_⟩
  intro readings sink runs steps source hread
  have hkeeps := (after readings sink runs).ready_keeps_run steps hread
  rw [after_concat, hkeeps.depths]
  exact recordsDistances_parseProgram _ (reachable_after readings sink runs).get?_of_le

/-- A variable `a` of a block, read in a block inside of that. -/
theorem distance_recorded_in_block :
    (∀ id, 0 ≤ id → Depths.empty.get? id = none) ∧
      (Program.read "{var a;{a;}}" 0).diagnostics = [] ∧
      (Depths.empty.noteAll
        (programFindings (Grammar.parseProgram (Source.tokens "{var a;{a;}}") 0).statements)).get?
        0 = some 1 ∧
      (after (fun _ => 0) .unlimited [(3, "{var a;{a;}}")]).machine.depths.get? 0 = some 1 := by
  obtain ⟨-, htable, hsession⟩ := depths_are_distances
  have hempty : ∀ id, 0 ≤ id → Depths.empty.get? id = none := fun id _ => Depths.get?_empty id
  have hstatements : (Grammar.parseProgram (Source.tokens "{var a;{a;}}") 0).statements =
      [.block [.var ⟨.identifier, "a", none, 1⟩ none,
        .block [.expression (.read 0 ⟨.identifier, "a", none, 1⟩)]]] := rfl
  have hplace : ∃ layers, ⟨.access ⟨.get, 0, ⟨.identifier, "a", none, 1⟩⟩, layers⟩ ∈
      programPlaces (Grammar.parseProgram (Source.tokens "{var a;{a;}}") 0).statements ∧
      NearestAt layers "a" 1 := by
    rw [hstatements]
    exact ⟨_, List.mem_of_getLast? rfl, distance?_eq_some_iff.mp rfl⟩
  obtain ⟨layers, hplace, hnearest⟩ := hplace
  have hread : (Program.read "{var a;{a;}}" 0).diagnostics = [] := rfl
  have hnext : (after (fun _ => 0) .unlimited []).nextId = 0 := rfl
  have hrecords := hsession (fun _ => 0) .unlimited [] 3 "{var a;{a;}}"
  rw [hnext, List.nil_append] at hrecords
  refine ⟨hempty, hread, ?_, ?_⟩
  · exact ((htable _ _ _ hempty).found _ _ hplace 1).mpr hnearest
  · exact ((hrecords hread).found _ _ hplace 1).mpr hnearest

end Session

end LoxLang
