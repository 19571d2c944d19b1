import LoxLang.Proofs.Grammar.Acceptance
import LoxLang.Proofs.Grammar.Shapes
import LoxLang.Proofs.Scope.Tasks
import LoxLang.Session

/-!
# Sessions and their moments

A session is the sources that have been run so far.  Its moments are the ones of the runs of its
accepted programs, and its sites are the sites of these programs.  Node ids tell sites apart across
the whole session, and the depth table holds the depth of every site.
-/

namespace LoxLang

/-! ## Programs that have been read -/

namespace Program

variable (source : String) (nextId : NodeId)

lemma nextId_le : nextId ≤ (Program.read source nextId).nextId :=
  (Grammar.parseProgram_reads (Source.tokens source) nextId).1

/-- The `programSites` of a program have ids of their own. -/
lemma nodup_sites : ((programSites (Program.read source nextId).statements).map Site.id).Nodup := by
  have hnumbered := (Grammar.parseProgram_reads (Source.tokens source) nextId).2.1
  have hmap : (programSites (Program.read source nextId).statements).map Site.id =
      (Stmt.allOccurrences (Program.read source nextId).statements).map Occurrence.id := by
    rw [← Stmt.map_occurrence_allSites false [] _ [], List.map_map]
    rfl
  rw [hmap]
  exact hnumbered.nodup

/-- The ids of a program are new: `nextId` or later. -/
lemma id_of_mem_sites {w : Site} (hw : w ∈ programSites (Program.read source nextId).statements) :
    nextId ≤ w.id ∧ w.id < (Program.read source nextId).nextId := by
  have hnumbered := (Grammar.parseProgram_reads (Source.tokens source) nextId).2.1
  refine hnumbered.range w.occurrence ?_
  have hmem := List.mem_map_of_mem (f := Site.occurrence) hw
  rwa [programSites, Stmt.map_occurrence_allSites] at hmem

/-- Even with errors in it, a program has the shape of programs, `AllShaped`. -/
lemma shaped : Stmt.AllShaped (Program.read source nextId).statements :=
  Grammar.shaped_parseProgram (Source.tokens source) nextId

variable {source nextId}

lemma derives (h : (Program.read source nextId).diagnostics = []) :
    Grammar.DerivesProgram .nearest (Grammar.textOf (Source.tokens source))
      (Program.read source nextId).statements := by
  have herrors : (Grammar.parseProgram (Source.tokens source) nextId).errors = [] := by
    simpa using (List.append_eq_nil_iff.mp h).2
  exact (Grammar.parseProgram_reads (Source.tokens source) nextId).2.2 herrors

end Program

/-! ## Sources that are run -/

namespace Session

/-- A `source` without lexical, grammar or binding errors. -/
structure Accepts (s : Session) (source : String) : Prop where
  read : (Program.read source s.nextId).diagnostics = []
  resolved : bindingErrors (programFindings (Program.read source s.nextId).statements) = []

/-- The session in which the program of a `source` starts: its depths have been entered. -/
def ready (s : Session) (source : String) : Session :=
  { s with nextId := (Program.read source s.nextId).nextId }.note
    (programFindings (Program.read source s.nextId).statements)

variable {s : Session} {lookup : Lookup} {steps : ℕ} {source : String}

lemma runBy_of_accepts (h : s.Accepts source) :
    s.runBy lookup steps source =
      (s.ready source).execute lookup steps (Program.read source s.nextId).statements := by
  simp only [runBy, h.read, h.resolved, List.isEmpty_nil, if_true]
  rfl

/-- A source that cannot be read is `.rejected` and leaves node ids behind. -/
lemma runBy_of_unread (h : (Program.read source s.nextId).diagnostics ≠ []) :
    s.runBy lookup steps source =
      (.rejected (Program.read source s.nextId).diagnostics,
        { s with nextId := (Program.read source s.nextId).nextId }) := by
  simp only [runBy, List.isEmpty_eq_false_iff.mpr h]
  rfl

/-- A source that can be read but misuses names is `.rejected` and leaves node ids and depths
behind. -/
lemma runBy_of_misused (hread : (Program.read source s.nextId).diagnostics = [])
    (h : bindingErrors (programFindings (Program.read source s.nextId).statements) ≠ []) :
    s.runBy lookup steps source =
      (.rejected ((bindingErrors
          (programFindings (Program.read source s.nextId).statements)).map .binding),
        s.ready source) := by
  simp only [runBy, hread, List.isEmpty_nil, if_true, List.isEmpty_eq_false_iff.mpr h]
  rfl

lemma unread_or_misused (h : ¬ s.Accepts source) :
    (Program.read source s.nextId).diagnostics ≠ [] ∨
    (Program.read source s.nextId).diagnostics = [] ∧
      bindingErrors (programFindings (Program.read source s.nextId).statements) ≠ [] := by
  by_cases hread : (Program.read source s.nextId).diagnostics = []
  · exact .inr ⟨hread, fun hresolved => h ⟨hread, hresolved⟩⟩
  · exact .inl hread

/-- A source that is not accepted is `.rejected`; all that it leaves behind are node ids and
depths. -/
lemma runBy_of_not_accepts (h : ¬ s.Accepts source) :
    (∃ diagnostics, (s.runBy lookup steps source).1 = .rejected diagnostics) ∧
      ((s.runBy lookup steps source).2 =
        { s with nextId := (Program.read source s.nextId).nextId } ∨
        (s.runBy lookup steps source).2 = s.ready source) := by
  rcases unread_or_misused h with hread | ⟨hread, hmisused⟩
  · rw [runBy_of_unread hread]
    exact ⟨⟨_, rfl⟩, .inl rfl⟩
  · rw [runBy_of_misused hread hmisused]
    exact ⟨⟨_, rfl⟩, .inr rfl⟩

/-- The outcome of a program that has come to its end on the machine `m`: it may still fail to
flush. -/
def flushed (m : Machine) : Outcome :=
  m.sink.flush.elim .completed fun fault => .failed (.sink fault)

/-- What `Session.execute` comes to, from what the statements come to. -/
lemma execute_eq (statements : List Stmt) :
    s.execute lookup steps statements =
      match executeAll (LoxLang.execute lookup steps) statements s.machine with
      | .ok _ m => (flushed m, { s with machine := m })
      | .stop (.error e) m => (.failed (.runtime e), { s with machine := m })
      | .stop (.returned _) m => (flushed m, { s with machine := m })
      | .stop (.sink fault) m => (.failed (.sink fault), { s with machine := m })
      | .exhausted => (.exhausted, s) := by
  rw [Session.execute, runProgram]
  cases executeAll (LoxLang.execute lookup steps) statements s.machine with
  | ok _ m =>
    dsimp only [Action.flush, flushed]
    cases m.sink.flush <;> rfl
  | stop reason m =>
    cases reason with
    | returned v =>
      dsimp only [Action.flush, flushed]
      cases m.sink.flush <;> rfl
    | error e | sink fault => rfl
  | exhausted => rfl

/-- The outcome of a program whose statements have come to a result, and the session it leaves. -/
def conclude (s : Session) : Result Unit → Outcome × Session
  | .ok _ m => (flushed m, { s with machine := m })
  | .stop (.error e) m => (.failed (.runtime e), { s with machine := m })
  | .stop (.returned _) m => (flushed m, { s with machine := m })
  | .stop (.sink fault) m => (.failed (.sink fault), { s with machine := m })
  | .exhausted => (.exhausted, s)

lemma execute_eq_conclude (s : Session) (lookup : Lookup) (steps : ℕ) (statements : List Stmt) :
    s.execute lookup steps statements =
      s.conclude (executeAll (LoxLang.execute lookup steps) statements s.machine) :=
  execute_eq statements

/-- A program that was started is not `.rejected` any more. -/
lemma conclude_ne_rejected (s : Session) (r : Result Unit) (ds : List Diagnostic) :
    (s.conclude r).1 ≠ .rejected ds := by
  have hflushed : ∀ m, flushed m ≠ .rejected ds := by
    intro m
    rw [flushed]
    cases m.sink.flush <;> simp
  rcases r with ⟨_, m⟩ | ⟨_ | _ | _, m⟩ | _
  · exact hflushed m
  · exact Outcome.noConfusion
  · exact hflushed m
  · exact Outcome.noConfusion
  · exact Outcome.noConfusion

lemma eq_exhausted_of_conclude {r : Result Unit} (h : (s.conclude r).1 = .exhausted) :
    r = .exhausted := by
  have hflushed : ∀ m, flushed m ≠ .exhausted := by
    intro m
    rw [flushed]
    cases m.sink.flush <;> simp
  rcases r with ⟨_, m⟩ | ⟨_ | _ | _, m⟩ | _
  · exact absurd h (hflushed m)
  · exact Outcome.noConfusion h
  · exact absurd h (hflushed m)
  · exact Outcome.noConfusion h
  · rfl

lemma execute_snd (statements : List Stmt) :
    (s.execute lookup steps statements).2 =
      match executeAll (LoxLang.execute lookup steps) statements s.machine with
      | .ok _ m => { s with machine := m }
      | .stop _ m => { s with machine := m }
      | .exhausted => s := by
  rw [execute_eq]
  cases executeAll (LoxLang.execute lookup steps) statements s.machine with
  | ok _ m | exhausted => rfl
  | stop reason m => cases reason <;> rfl

/-! ## Histories -/

/-- The session after the sources of `runs` have been run one after the other, each with the steps
it was given. -/
def after (readings : ℕ → Float) (sink : Sink) (runs : List (ℕ × String)) : Session :=
  runs.foldl (fun s r => (s.run r.1 r.2).2) (Session.start readings sink)

variable (readings : ℕ → Float) (sink : Sink)

lemma after_concat (runs : List (ℕ × String)) (r : ℕ × String) :
    after readings sink (runs ++ [r]) = ((after readings sink runs).run r.1 r.2).2 := by
  rw [after, List.foldl_append]
  rfl

/-- A moment of the run of an accepted source of a session: with `k` steps left, the task `t` is
started on the machine `m`. -/
def IsMoment (runs : List (ℕ × String)) (k : ℕ) (t : Task) (m : Machine) : Prop :=
  ∃ earlier steps source later, runs = earlier ++ (steps, source) :: later ∧
    (after readings sink earlier).Accepts source ∧
    ReachesIn .byDepth steps (Program.read source (after readings sink earlier).nextId).statements
      ((after readings sink earlier).ready source).machine k t m

/-- The site `w` is one of an accepted program of a session. -/
def IsSite (runs : List (ℕ × String)) (w : Site) : Prop :=
  ∃ earlier steps source later, runs = earlier ++ (steps, source) :: later ∧
    (after readings sink earlier).Accepts source ∧
    w ∈ programSites (Program.read source (after readings sink earlier).nextId).statements

lemma startClosed_isMoment (runs : List (ℕ × String)) :
    StartClosed .byDepth (IsMoment readings sink runs) := by
  rintro k t m t' m' ⟨earlier, steps, source, later, hruns, haccepts, before, s, after, m₁, hsplit,
    hbefore, hreach⟩ hstart
  exact ⟨earlier, steps, source, later, hruns, haccepts, before, s, after, m₁, hsplit, hbefore,
    .next hreach hstart⟩

variable {readings sink}

lemma IsMoment.append {runs : List (ℕ × String)} {k : ℕ} {t : Task} {m : Machine}
    (h : IsMoment readings sink runs k t m) (more : List (ℕ × String)) :
    IsMoment readings sink (runs ++ more) k t m := by
  obtain ⟨earlier, steps, source, later, rfl, hrest⟩ := h
  exact ⟨earlier, steps, source, later ++ more, by simp, hrest⟩

lemma IsSite.append {runs : List (ℕ × String)} {w : Site} (h : IsSite readings sink runs w)
    (more : List (ℕ × String)) : IsSite readings sink (runs ++ more) w := by
  obtain ⟨earlier, steps, source, later, rfl, hrest⟩ := h
  exact ⟨earlier, steps, source, later ++ more, by simp, hrest⟩

/-- The sites after one more `source`. -/
lemma isSite_concat_iff {runs : List (ℕ × String)} {w : Site} :
    IsSite readings sink (runs ++ [(steps, source)]) w ↔ IsSite readings sink runs w ∨
      (after readings sink runs).Accepts source ∧
        w ∈ programSites (Program.read source (after readings sink runs).nextId).statements := by
  constructor
  · rintro ⟨earlier, steps', source', later, hruns, hrest⟩
    rcases List.eq_nil_or_concat later with rfl | ⟨later', r, rfl⟩
    · obtain ⟨rfl, hlast⟩ := List.append_inj' hruns rfl
      obtain ⟨rfl, rfl⟩ : steps = steps' ∧ source = source' := by simpa using hlast
      exact Or.inr hrest
    · refine Or.inl ⟨earlier, steps', source', later', ?_, hrest⟩
      have hruns' : runs ++ [(steps, source)] =
          (earlier ++ (steps', source') :: later') ++ [r] := by
        simpa using hruns
      exact (List.append_inj' hruns' rfl).1
  · rintro (h | h)
    · exact h.append _
    · exact ⟨runs, steps, source, [], rfl, h⟩

/-! ## The invariant of a session -/

/-- What holds between two runs of a session with the sites `P`. -/
structure InOrder (P : Site → Prop) (M : ℕ → Task → Machine → Prop) (made : Account) (s : Session) :
    Prop where
  sound : made.Sound P (OpenedAt .byDepth M) s.machine
  current : s.machine.current = s.machine.globals
  sites : ∀ w, P w → w.Sound ∧ w.id < s.nextId ∧ s.machine.depths.get? w.id = w.depth?
  unique : ∀ w w', P w → P w' → w.id = w'.id → w = w'
  fresh : ∀ id, s.nextId ≤ id → s.machine.depths.get? id = none

variable {P Q : Site → Prop} {M : ℕ → Task → Machine → Prop} {made made' : Account}

/-- At first only the `clock` is bound. -/
lemma eq_clock_of_start {f : FrameId} {x : String} {v : Value}
    (h : (Session.start readings sink).machine.store.local? f x = some v) :
    ∃ id, v = .callable (.clock id) := by
  rcases Store.local?_of_define h with rfl | hold
  · exact ⟨_, rfl⟩
  · have hold : (Store.empty.add none).2.local? f x = some v := hold
    by_cases hf : f = Store.empty.size
    · rw [hf, Store.local?_add_self] at hold
      exact absurd hold (by simp)
    · rw [Store.local?_add_of_ne hf] at hold
      exact absurd (Store.lt_size_of_local? hold) (Nat.not_lt_zero f)

lemma inOrder_start (M : ℕ → Task → Machine → Prop) :
    InOrder (fun _ => False) M (fun _ => none) (Session.start readings sink) where
  sound := by
    have hlt : 0 < (Store.empty.add none).2.size := by rw [Store.size_add]; exact Nat.succ_pos _
    refine ⟨?_, ?_, rfl, nofun, nofun, nofun, ?_⟩
    · exact (Store.size_define.symm ▸ hlt : 0 < ((Store.empty.add none).2.define 0 "clock" _).size)
    · exact Store.enclosing?_define.trans Store.enclosing?_add_self
    · intro f x v hv
      obtain ⟨id, rfl⟩ := eq_clock_of_start hv
      trivial
  current := rfl
  sites _ h := h.elim
  unique _ _ h := h.elim
  fresh id _ := Depths.get?_empty id

/-- Entering the depths of a source leaves the old entries alone, for its node ids are new: an `id`
that was in use keeps its entry. -/
lemma get?_ready_of_lt {id : NodeId} (hid : id < s.nextId) :
    (s.ready source).machine.depths.get? id = s.machine.depths.get? id := by
  refine Depths.get?_noteAll_of_notMem (Stmt.filterMap_resolveAll false [] _ []) fun w hw hw' => ?_
  have hnew := (Program.id_of_mem_sites source s.nextId hw).1
  rw [hw'] at hnew
  exact absurd hid (Nat.not_lt.mpr hnew)

lemma get?_ready_of_le {id : NodeId} (hid : (s.ready source).nextId ≤ id) :
    (s.ready source).machine.depths.get? id = s.machine.depths.get? id := by
  refine Depths.get?_noteAll_of_notMem (Stmt.filterMap_resolveAll false [] _ []) fun w hw hw' => ?_
  have hnew := (Program.id_of_mem_sites source s.nextId hw).2
  rw [hw'] at hnew
  exact absurd hnew (Nat.not_lt.mpr hid)

/-- The entry of a site `w` of the source is its depth. -/
lemma get?_ready_of_mem {w : Site} (hw : w ∈ programSites (Program.read source s.nextId).statements)
    (hfresh : ∀ id, s.nextId ≤ id → s.machine.depths.get? id = none) :
    (s.ready source).machine.depths.get? w.id = w.depth? :=
  Depths.get?_noteAll_of_mem Site.id Site.depth? (Stmt.filterMap_resolveAll false [] _ [])
    (Program.nodup_sites source s.nextId) hw
      (hfresh w.id (Program.id_of_mem_sites source s.nextId hw).1)

/-- Reading and resolving a `source` keeps the session in order. -/
lemma InOrder.ready (h : InOrder P M made s) (source : String) :
    InOrder P M made (s.ready source) where
  sound := h.sound.of_store_eq rfl rfl
  current := h.current
  sites w hw := by
    obtain ⟨hsound, hlt, hdepth⟩ := h.sites w hw
    refine ⟨hsound, hlt.trans_le (Program.nextId_le source s.nextId), ?_⟩
    rw [get?_ready_of_lt hlt, hdepth]
  unique := h.unique
  fresh id hid := by
    rw [get?_ready_of_le hid]
    exact h.fresh id ((Program.nextId_le source s.nextId).trans hid)

/-- If the source is accepted (`haccepts`), its sites join the ones before. -/
lemma InOrder.accept (h : InOrder P M made s) (haccepts : s.Accepts source) :
    InOrder (fun w => P w ∨ w ∈ programSites (Program.read source s.nextId).statements) M made
      (s.ready source) where
  sound := (h.ready source).sound.mono fun w hw => Or.inl hw
  current := h.current
  sites w hw := by
    rcases hw with hw | hw
    · exact (h.ready source).sites w hw
    · refine ⟨?_, (Program.id_of_mem_sites source s.nextId hw).2, get?_ready_of_mem hw h.fresh⟩
      exact Stmt.sound_allSites false [] _ [] (Program.shaped source s.nextId)
        (by simp [Scopes.Settled]) rfl (faultless_iff_bindingErrors.mpr haccepts.resolved) w hw
  unique w w' hw hw' hid := by
    -- A new site has an id that no old one has, as reading goes on from `nextId`.
    have hne : ∀ v v', P v → v' ∈ programSites (Program.read source s.nextId).statements →
        v.id ≠ v'.id := by
      intro v v' hv hv' heq
      have hlt := (h.sites v hv).2.1
      rw [heq] at hlt
      exact absurd hlt (Nat.not_lt.mpr (Program.id_of_mem_sites source s.nextId hv').1)
    rcases hw with hw | hw <;> rcases hw' with hw' | hw'
    · exact h.unique w w' hw hw' hid
    · exact absurd hid (hne w w' hw hw')
    · exact absurd hid.symm (hne w' w hw' hw)
    · exact List.inj_on_of_nodup_map (Program.nodup_sites source s.nextId) hw hw' hid
  fresh := (h.ready source).fresh

/-- The program of a `source` starts at the global frame, inside no scope. -/
lemma InOrder.stmtsAt (h : InOrder P M made s) (source : String) :
    StmtsAt (fun w => P w ∨ w ∈ programSites (Program.read source s.nextId).statements) made
      (s.ready source).machine false [] [] (Program.read source s.nextId).statements where
  standing := by
    refine ⟨?_, by simp⟩
    rw [show (s.ready source).machine.current = (s.ready source).machine.globals from h.current]
    exact .globals h.sound.globals_lt
  settled := by simp [Scopes.Settled]
  shaped := Program.shaped source s.nextId
  declares := by simp
  sites w hw := Or.inr hw

lemma InOrder.of_grows {new : String → Prop} {m : Machine} (h : InOrder P M made s)
    (hgrows : Grows new made s.machine made' m) (hsound : made'.Sound P (OpenedAt .byDepth M) m) :
    InOrder P M made' { s with machine := m } where
  sound := hsound
  current := by rw [hgrows.current, hgrows.globals, h.current]
  sites w hw := by rw [hgrows.depths]; exact h.sites w hw
  unique := h.unique
  fresh := by rw [hgrows.depths]; exact h.fresh

/-- Running a `source` keeps the session in order, where the moments of the run are among `M`. -/
lemma InOrder.run (h : InOrder P M made s) (hclosed : StartClosed .byDepth M)
    (hM : s.Accepts source →
      ∀ k t m, ReachesIn .byDepth steps (Program.read source s.nextId).statements
        (s.ready source).machine k t m → M k t m) :
    ∃ made', InOrder
      (fun w => P w ∨ s.Accepts source ∧ w ∈ programSites (Program.read source s.nextId).statements)
      M made' (s.run steps source).2 := by
  by_cases haccepts : s.Accepts source
  · -- However the run ends, the frames have grown from the ones it began with.
    simp only [haccepts, true_and]
    rw [Session.run, runBy_of_accepts haccepts, execute_snd]
    have hready := h.accept haccepts
    have hlead :=
      statements_lead hclosed (List.append_nil _).symm (hM haccepts) hready.sound (h.stmtsAt source)
    cases hr : executeAll (LoxLang.execute .byDepth steps) (Program.read source s.nextId).statements
        (s.ready source).machine with
    | ok _ m =>
      obtain ⟨made', hgrows, hsound, -⟩ := hlead.ok_of_eq hr
      exact ⟨made', hready.of_grows hgrows hsound⟩
    | stop reason m =>
      rw [hr] at hlead
      obtain ⟨made', hgrows, hsound, -⟩ := hlead
      exact ⟨made', hready.of_grows hgrows hsound⟩
    | exhausted => exact ⟨made, hready⟩
  · -- A rejected source adds no sites; it leaves node ids, and depths if it could be read.
    simp only [haccepts, false_and, or_false]
    refine ⟨made, ?_⟩
    rw [Session.run]
    rcases (runBy_of_not_accepts haccepts).2 with heq | heq
    · rw [heq]
      have hle := Program.nextId_le source s.nextId
      exact ⟨h.sound, h.current, fun w hw => ⟨(h.sites w hw).1, (h.sites w hw).2.1.trans_le hle,
        (h.sites w hw).2.2⟩, h.unique, fun id hid => h.fresh id (hle.trans hid)⟩
    · rw [heq]
      exact h.ready source

/-- Every session is `InOrder`, with the sites of all that it has accepted. -/
theorem exists_inOrder (runs : List (ℕ × String)) (M : ℕ → Task → Machine → Prop)
    (hclosed : StartClosed .byDepth M) (hM : ∀ k t m, IsMoment readings sink runs k t m → M k t m) :
    ∃ made, InOrder (IsSite readings sink runs) M made (after readings sink runs) := by
  induction runs using List.reverseRecOn with
  | nil =>
    have hnone : IsSite readings sink [] = fun _ => False := by
      funext w
      simp [IsSite]
    rw [hnone]
    exact ⟨_, inOrder_start M⟩
  | append_singleton runs r ih =>
    obtain ⟨steps, source⟩ := r
    obtain ⟨made, hmade⟩ := ih fun k t m h => hM k t m (h.append _)
    have hsites : IsSite readings sink (runs ++ [(steps, source)]) = fun w =>
        IsSite readings sink runs w ∨
        (after readings sink runs).Accepts source ∧
          w ∈ programSites (Program.read source (after readings sink runs).nextId).statements :=
      funext fun w => propext isSite_concat_iff
    rw [hsites, after_concat]
    exact hmade.run hclosed fun haccepts k t m h => hM k t m ⟨runs, steps, source, [], rfl,
      haccepts, h⟩

/-- Node ids that are not in use, from `nextId` on, have no depth. -/
lemma get?_after_of_le (readings : ℕ → Float) (sink : Sink) (runs : List (ℕ × String)) (id : NodeId)
    (hid : (after readings sink runs).nextId ≤ id) :
    (after readings sink runs).machine.depths.get? id = none := by
  obtain ⟨made, hmade⟩ :=
    exists_inOrder runs (fun _ _ _ => True) (fun _ _ _ _ _ _ _ => trivial) fun _ _ _ _ => trivial
  exact hmade.fresh id hid

/-! ## Sessions that runs lead to -/

/-- A session that runs of sources have led to: one that comes `after` some runs. -/
def Reachable (s : Session) : Prop := ∃ readings sink runs, s = after readings sink runs

lemma reachable_after (readings : ℕ → Float) (sink : Sink) (runs : List (ℕ × String)) :
    (after readings sink runs).Reachable :=
  ⟨readings, sink, runs, rfl⟩

lemma Reachable.run (h : s.Reachable) (steps : ℕ) (source : String) :
    (s.run steps source).2.Reachable := by
  obtain ⟨readings, sink, runs, rfl⟩ := h
  exact ⟨readings, sink, runs ++ [(steps, source)],
    (after_concat readings sink runs (steps, source)).symm⟩

/-- Between runs a `Reachable` session is in its global frame. -/
lemma Reachable.current (h : s.Reachable) : s.machine.current = s.machine.globals := by
  obtain ⟨readings, sink, runs, rfl⟩ := h
  obtain ⟨made, hmade⟩ :=
    exists_inOrder runs (fun _ _ _ => True) (fun _ _ _ _ _ _ _ => trivial) fun _ _ _ _ => trivial
  exact hmade.current

lemma Reachable.get?_of_le (h : s.Reachable) (id : NodeId) (hid : s.nextId ≤ id) :
    s.machine.depths.get? id = none := by
  obtain ⟨readings, sink, runs, rfl⟩ := h
  exact get?_after_of_le readings sink runs id hid

/-! ## Moments of a session -/

/-- At every moment of a session the task stands at its place, `TaskAt`, and the depth table holds
the depths of the sites that may be evaluated. -/
theorem IsMoment.taskAt {runs : List (ℕ × String)} {k : ℕ} {t : Task} {m : Machine}
    (h : IsMoment readings sink runs k t m) :
    ∃ P made, (∀ w, P w → IsSite readings sink runs w ∧ w.Sound ∧ m.depths.get? w.id = w.depth?) ∧
      made.Sound P (OpenedAt .byDepth (IsMoment readings sink runs)) m ∧ TaskAt P made m t := by
  obtain ⟨earlier, steps, source, later, rfl, haccepts, hreach⟩ := h
  have hclosed := startClosed_isMoment readings sink (earlier ++ (steps, source) :: later)
  obtain ⟨made₀, hmade₀⟩ := exists_inOrder earlier _ hclosed fun k t m hm => hm.append _
  have hready := hmade₀.accept haccepts
  obtain ⟨made, hsound, hat, hdepths, -⟩ := hreach.taskAt hclosed
    (fun k t m hm => ⟨earlier, steps, source, later, rfl, haccepts, hm⟩) hready.sound
      (hmade₀.stmtsAt source)
  refine ⟨_, made, ?_, hsound, hat⟩
  intro w hw
  obtain ⟨hwsound, -, hdepth⟩ := hready.sites w hw
  refine ⟨?_, hwsound, by rw [hdepths]; exact hdepth⟩
  rcases hw with hw | hw
  · exact hw.append _
  · exact ⟨earlier, steps, source, later, rfl, haccepts, hw⟩

/-- Sites of a session with the same id (`hid`) are the same. -/
theorem IsSite.unique {runs : List (ℕ × String)} {w w' : Site} (h : IsSite readings sink runs w)
    (h' : IsSite readings sink runs w') (hid : w.id = w'.id) : w = w' := by
  have hmoments : ∀ k t m, IsMoment readings sink runs k t m → IsMoment readings sink runs k t m :=
    fun _ _ _ hm => hm
  obtain ⟨made, hmade⟩ := exists_inOrder runs _ (startClosed_isMoment readings sink runs) hmoments
  exact hmade.unique w w' h h' hid

end Session

end LoxLang
