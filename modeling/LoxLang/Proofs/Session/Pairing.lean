import LoxLang.Proofs.Grammar.Replaced
import LoxLang.Proofs.Machine.Simulation
import LoxLang.Proofs.Session.History

/-!
# Sessions that go on alike

Two sessions go on alike if their machines match, where node ids correspond if they are in use and
have the same depth.  In particular a session goes on like itself, and all that its frames hold is
made of ids in use and of tokens of its sources.
-/

namespace LoxLang

/-- Tokens that correspond have the same `kind` and the same `lexeme`. -/
structure KeepsText (tokens : Token → Token → Prop) : Prop where
  kind : ∀ t t', tokens t t' → t.kind = t'.kind
  lexeme : ∀ t t', tokens t t' → t.lexeme = t'.lexeme

lemma keepsText_map {g : Token → Token} (hkind : ∀ t, (g t).kind = t.kind)
    (hlexeme : ∀ t, (g t).lexeme = t.lexeme) (K : Token → Prop) :
    KeepsText fun t t' => t' = g t ∧ K t where
  kind t t' h := by rw [h.1, hkind]
  lexeme t t' h := by rw [h.1, hlexeme]

lemma keepsText_eq : KeepsText Eq := ⟨fun _ _ h => h ▸ rfl, fun _ _ h => h ▸ rfl⟩

/-- Outcomes that are the same up to the `tokens` of errors. -/
inductive Outcome.Matches (tokens : Token → Token → Prop) : Outcome → Outcome → Prop where
  | completed : Matches tokens .completed .completed
  | runtime {t t' : Token} (fault : RuntimeFault) :
    tokens t t' → Matches tokens (.failed (.runtime ⟨fault, t⟩)) (.failed (.runtime ⟨fault, t'⟩))
  | sink (fault : SinkFault) : Matches tokens (.failed (.sink fault)) (.failed (.sink fault))

lemma Outcome.Matches.mono {tokens tokens' : Token → Token → Prop} {o o' : Outcome}
    (h : o.Matches tokens o') (htokens : ∀ t t', tokens t t' → tokens' t t') :
    o.Matches tokens' o' := by
  cases h with
  | completed => exact .completed
  | runtime fault ht => exact .runtime fault (htokens _ _ ht)
  | sink fault => exact .sink fault

namespace Session

variable {s s' u u' : Session} {tokens tokens' : Token → Token → Prop}

/-- Node ids `i` and `i'` that are in use in two sessions and have the same depth there. -/
def SameDepth (s s' : Session) (i i' : NodeId) : Prop :=
  i < s.nextId ∧ i' < s'.nextId ∧ s.machine.depths.get? i = s'.machine.depths.get? i'

def pairing (s s' : Session) (h : KeepsText tokens) : Pairing where
  ids := s.SameDepth s'
  tokens := tokens
  depths := s.machine.depths
  depths' := s'.machine.depths
  get?_eq _ _ hid := hid.2.2
  kind_eq := h.kind
  lexeme_eq := h.lexeme

lemma pairing_congr (h : KeepsText tokens) (hid : u.nextId = s.nextId)
    (hdepths : u.machine.depths = s.machine.depths) (hid' : u'.nextId = s'.nextId)
    (hdepths' : u'.machine.depths = s'.machine.depths) : u.pairing u' h = s.pairing s' h := by
  have hsame : u.SameDepth u' = s.SameDepth s' := by
    funext i i'
    simp only [SameDepth, hid, hdepths, hid', hdepths']
  simp only [pairing, hsame, hdepths, hdepths']

/-- Running statements does not change the `pairing`. -/
lemma pairing_of_matches {h : KeepsText tokens} {m m' : Machine}
    (hm : m.Matches (s.pairing s' h) m') :
    pairing { s with machine := m } { s' with machine := m' } h = s.pairing s' h :=
  pairing_congr h rfl hm.depths rfl hm.depths'

/-! ## More node ids -/

/-- A session `u` that differs only in more node ids, and in their depths. -/
structure Extends (s u : Session) : Prop where
  machine : u.machine = { s.machine with depths := u.machine.depths }
  nextId : s.nextId ≤ u.nextId
  depths : ∀ i < s.nextId, u.machine.depths.get? i = s.machine.depths.get? i

lemma Extends.refl (s : Session) : s.Extends s := ⟨rfl, Nat.le_refl _, fun _ _ => rfl⟩

lemma extends_ready (s : Session) (source : String) : s.Extends (s.ready source) :=
  ⟨rfl, Program.nextId_le source s.nextId, fun _ => get?_ready_of_lt⟩

/-- A rejected source leaves nothing but node ids behind: the session `Extends` the one before. -/
lemma extends_of_not_accepts {steps : ℕ} {source : String} (h : ¬ s.Accepts source) :
    s.Extends (s.run steps source).2 := by
  rcases (runBy_of_not_accepts h).2 with heq | heq
  · rw [Session.run, heq]
    exact ⟨rfl, Program.nextId_le source s.nextId, fun _ _ => rfl⟩
  · rw [Session.run, heq]
    exact s.extends_ready source

lemma SameDepth.extend {i i' : NodeId} (h : s.SameDepth s' i i') (hu : s.Extends u)
    (hu' : s'.Extends u') : u.SameDepth u' i i' := by
  obtain ⟨hlt, hlt', hdepth⟩ := h
  refine ⟨hlt.trans_le hu.nextId, hlt'.trans_le hu'.nextId, ?_⟩
  rw [hu.depths i hlt, hu'.depths i' hlt', hdepth]

/-- Sessions that go on alike (`hm`) still do so with more node ids and more tokens. -/
lemma matches_extend {h : KeepsText tokens} (hm : s.machine.Matches (s.pairing s' h) s'.machine)
    (hu : s.Extends u) (hu' : s'.Extends u') (h' : KeepsText tokens')
    (htokens : ∀ t t', tokens t t' → tokens' t t') :
    u.machine.Matches (u.pairing u' h') u'.machine := by
  have hmono := hm.mono (q := u.pairing u' h') (fun i i' hid => hid.extend hu hu') htokens
  have hdepths : (u.pairing u' h').depths = u.machine.depths := rfl
  have hdepths' : (u.pairing u' h').depths' = u'.machine.depths := rfl
  rwa [hdepths, hdepths', ← hu.machine, ← hu'.machine] at hmono

/-! ## Runs that end alike -/

/-- Two runs `r` and `r'` end alike if their outcomes are the same up to the tokens of errors, and
the sessions that they leave behind go on alike.  In particular they have written the same output,
and the same values are in the same frames. -/
structure EndsAlike (tokens : Token → Token → Prop) (r r' : Outcome × Session) : Prop where
  outcome : r.1.Matches tokens r'.1
  session : ∃ h : KeepsText tokens, r.2.machine.Matches (r.2.pairing r'.2 h) r'.2.machine

lemma EndsAlike.mono {r r' : Outcome × Session} (hr : EndsAlike tokens r r')
    (h' : KeepsText tokens') (htokens : ∀ t t', tokens t t' → tokens' t t') :
    EndsAlike tokens' r r' where
  outcome := hr.outcome.mono htokens
  session := by
    obtain ⟨h, hm⟩ := hr.session
    exact ⟨h', matches_extend hm (Extends.refl _) (Extends.refl _) h' htokens⟩

/-- Programs whose statements come to matching results (`hr`) end alike. -/
lemma endsAlike_of_matches {lookup : Lookup} {h : KeepsText tokens} {steps steps' : ℕ}
    {ss ss' : List Stmt}
    (hr : (executeAll (LoxLang.execute lookup steps) ss s.machine).Matches (s.pairing s' h)
      (fun _ _ => True) (executeAll (LoxLang.execute lookup steps') ss' s'.machine))
    (hdone : (s.execute lookup steps ss).1 ≠ .exhausted) :
    EndsAlike tokens (s.execute lookup steps ss) (s'.execute lookup steps' ss') := by
  rw [execute_eq] at hdone ⊢
  rw [execute_eq]
  generalize executeAll (LoxLang.execute lookup steps) ss s.machine = r at hr hdone ⊢
  generalize executeAll (LoxLang.execute lookup steps') ss' s'.machine = r' at hr ⊢
  have hsession : ∀ {m m' : Machine}, m.Matches (s.pairing s' h) m' →
      ∃ h : KeepsText tokens,
        m.Matches (pairing { s with machine := m } { s' with machine := m' } h) m' := by
    intro m m' hm
    refine ⟨h, ?_⟩
    rw [pairing_of_matches hm]
    exact hm
  have hflushed : ∀ {m m' : Machine}, m.Matches (s.pairing s' h) m' →
      (flushed m).Matches tokens (flushed m') := by
    intro m m' hm
    rw [flushed, flushed, hm.sink]
    cases m'.sink.flush with
    | none => exact .completed
    | some fault => exact .sink fault
  cases r with
  | ok v m => cases r' with
    | ok v' m' => exact ⟨hflushed hr.2, hsession hr.2⟩
    | stop reason' m' | exhausted => exact hr.elim
  | stop reason m => cases r' with
    | stop reason' m' =>
      obtain ⟨hreason, hm⟩ := hr
      cases hreason with
      | error fault ht => exact ⟨.runtime fault ht, hsession hm⟩
      -- A `return` at the top ends the program as its last statement would.
      | returned hv => exact ⟨hflushed hm, hsession hm⟩
      | sink fault => exact ⟨.sink fault, hsession hm⟩
    | ok v' m' | exhausted => exact hr.elim
  | exhausted => exact absurd rfl hdone

/-! ## The tokens of a session -/

lemma keepsText_known (K : Token → Prop) : KeepsText fun t t' => t' = t ∧ K t :=
  keepsText_map (g := id) (fun _ => rfl) (fun _ => rfl) K

/-- All functions that a session holds are made of node ids in use and of tokens in `K`. -/
def Knows (s : Session) (K : Token → Prop) : Prop :=
  s.machine.Matches (s.pairing s (keepsText_known K)) s.machine

lemma Knows.extend {K K' : Token → Prop} (h : s.Knows K) (hu : s.Extends u) (hK : ∀ t, K t → K' t) :
    u.Knows K' :=
  matches_extend h hu hu _ fun _ _ ⟨heq, ht⟩ => ⟨heq, hK _ ht⟩

end Session

namespace Program

variable {source : String} {nextId : NodeId}

/-- A program is made of its own node ids and of the tokens of its `source`. -/
lemma matches_self (h : (Program.read source nextId).diagnostics = []) :
    List.Forall₂
      (Stmt.Matches (fun i i' => i' = i ∧ i < (Program.read source nextId).nextId)
        fun t t' => t' = t ∧ t ∈ Source.tokens source)
      (Program.read source nextId).statements (Program.read source nextId).statements := by
  have hself : List.Forall₂ (Stmt.Matches (· = ·) fun t t' => t' = t ∧ t ∈ Source.tokens source)
      (Program.read source nextId).statements
      ((Program.read source nextId).statements.map (Stmt.relabel id id)) :=
    (derives h).matches fun t ht => ⟨rfl, (List.takeWhile_prefix _).subset ht⟩
  rw [← Stmt.relabelAll_eq_map, Stmt.relabelAll_id] at hself
  refine Stmt.Matches.mono_all (fun _ _ ht => ht) _ hself ?_
  rintro o ho _ rfl
  exact ⟨rfl, ((Grammar.parseProgram_reads (Source.tokens source) nextId).2.1.range o ho).2⟩

end Program

namespace Session

variable {s : Session} {K : Token → Prop}

/-- What a run of a `source` leaves behind is made of known tokens and of the tokens of the
source. -/
lemma Knows.run (h : s.Knows K) (steps : ℕ) (source : String)
    (hK : ∀ t ∈ Source.tokens source, K t) : (s.run steps source).2.Knows K := by
  by_cases haccepts : s.Accepts source
  · have hready := h.extend (s.extends_ready source) fun _ ht => ht
    -- The program matches itself: its tokens are known, and its ids are in use.
    have hprogram : List.Forall₂
        (Stmt.Matches ((s.ready source).SameDepth (s.ready source)) fun t t' => t' = t ∧ K t)
        (Program.read source s.nextId).statements (Program.read source s.nextId).statements := by
      refine Stmt.Matches.mono_all ?_ _ (Program.matches_self haccepts.read) ?_
      · rintro _ t ⟨rfl, ht⟩
        exact ⟨rfl, hK t ht⟩
      · rintro o _ _ ⟨rfl, hlt⟩
        exact ⟨hlt, hlt, rfl⟩
    have hresult := executeAll_matches
      (runs_match ((s.ready source).pairing (s.ready source) (keepsText_known K)) .byDepth
        (Nat.le_refl steps)).2 hprogram hready
    rw [Session.run, runBy_of_accepts haccepts, execute_snd]
    cases hr : executeAll (LoxLang.execute .byDepth steps) (Program.read source s.nextId).statements
        (s.ready source).machine with
    | ok _ m =>
      rw [hr] at hresult
      rw [Knows, pairing_of_matches hresult.2]
      exact hresult.2
    | stop reason m =>
      rw [hr] at hresult
      rw [Knows, pairing_of_matches hresult.2]
      exact hresult.2
    | exhausted => exact hready
  · exact h.extend (extends_of_not_accepts haccepts) fun _ ht => ht

lemma knows_start (readings : ℕ → Float) (sink : Sink) : (Session.start readings sink).Knows K := by
  have hempty : Store.empty.Matches (SameDepth (start readings sink) (start readings sink))
      (fun t t' => t' = t ∧ K t) Store.empty := by
    refine ⟨rfl, fun _ => rfl, fun f x => ?_⟩
    rw [Store.local?_of_size_le (Nat.zero_le f)]
    exact .none
  exact ⟨(hempty.add none).define (.clock 0) _ _, rfl, rfl, rfl, rfl, rfl, rfl, rfl⟩

/-- The token `t` is one of a source of a session. -/
def IsToken (runs : List (ℕ × String)) (t : Token) : Prop := ∃ r ∈ runs, t ∈ Source.tokens r.2

variable (readings : ℕ → Float) (sink : Sink)

/-- All functions that a session holds are made of node ids in use and of tokens of its sources: it
`Knows` no others. -/
theorem knows_after (runs : List (ℕ × String)) :
    (after readings sink runs).Knows (IsToken runs) := by
  induction runs using List.reverseRecOn with
  | nil => exact knows_start readings sink
  | append_singleton runs r ih =>
    rw [after_concat]
    refine (ih.extend (Extends.refl _) ?_).run r.1 r.2 fun t ht => ⟨r, by simp, ht⟩
    rintro t ⟨r', hr', ht⟩
    exact ⟨r', List.mem_append_left _ hr', ht⟩

end Session

end LoxLang
