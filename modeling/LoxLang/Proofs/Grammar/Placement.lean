import Mathlib.Data.List.TakeWhile
import LoxLang.Proofs.Grammar.Acceptance
import LoxLang.Proofs.Grammar.Relations

/-!
# The same text in another place

A reader looks at nothing but the tokens in front of it.  So it does the same to a text that stands
elsewhere: behind other tokens, after errors have been found, with node ids counted from another
number, and in front of further tokens, as long as it stops before them.  Errors are found as many
tokens later as the text stands later.

A text in its own place is read the same way in more steps; so a reading that came to an end does
not depend on the number of steps.
-/

namespace LoxLang

/-- An error in a text that stands `n` tokens later. -/
def GrammarError.later (n : ℕ) (e : GrammarError) : GrammarError :=
  { e with position := e.position + n }

namespace Grammar

open Reader

/-- Where else a text stands: behind `offset` tokens in which the errors `earlier` were found, and
in front of the tokens `more`.  Node ids are higher by `shift`. -/
structure Placement where
  more : List Token
  offset : ℕ
  earlier : List GrammarError
  shift : ℕ
  /-- Whether the input ends with the text, and with the same token, in both places. -/
  whole : Prop
  more_eq : whole → more = []

namespace Placement

def ids (p : Placement) (i i' : NodeId) : Prop := i' = i + p.shift

/-- The same place of the text, here (`c`) and there (`c'`). -/
structure Cursors (p : Placement) (c c' : Cursor) : Prop where
  rest : c'.rest = c.rest ++ p.more
  last : p.whole → c'.last = c.last
  position : c'.position = c.position + p.offset
  nextId : p.ids c.nextId c'.nextId
  errors : c'.errors.toList = p.earlier ++ c.errors.toList.map (GrammarError.later p.offset)

/-- Places of which the same errors are told, as many tokens `later` as the text stands there. -/
def Places (p : Placement) (c c' : Cursor) : Prop :=
  ∀ fault, c'.errorHere fault = (c.errorHere fault).later p.offset

/-- What is next at `c` does not depend on what stands behind the text. -/
def Open (p : Placement) (c : Cursor) : Prop := p.whole ∨ c.rest ≠ []

/-- The reply to the text elsewhere, if the reading stops before what stands behind the text: at an
`Open` place. -/
def Replies {α β : Type} (p : Placement) (V : α → β → Prop) (reply : Reply α)
    (reply' : Reply β) : Prop :=
  match reply with
  | .ok v c => p.Open c → ∃ v' c', reply' = .ok v' c' ∧ V v v' ∧ p.Cursors c c'
  | .fail e c => p.Open c → ∃ c', reply' = .fail (e.later p.offset) c' ∧ p.Cursors c c'
  | .exhausted => True

end Placement

/-- Where a reading stopped, if it came to an end. -/
def Reply.cursor? {α : Type} : Reply α → Option Cursor
  | .ok _ c => some c
  | .fail _ c => some c
  | .exhausted => none

namespace Placement

/-- Readers `r` and `r'` that do the same to a text here and there. -/
structure Readers {α β : Type} (p : Placement) (V : α → β → Prop) (r : Reader α) (r' : Reader β) :
    Prop where
  replies : ∀ c c', p.Cursors c c' → p.Open c → p.Replies V (r c) (r' c')
  /-- At the end of the text the first one stays there. -/
  stays : ∀ c d, c.rest = [] → (r c).cursor? = some d → d.rest = []
  /-- Whatever the first one gives has a counterpart. -/
  values : ∀ c v d, r c = .ok v d → ∃ v', V v v'

variable {p : Placement}

/-! ## Cursors -/

namespace Cursors

variable {c c' : Cursor}

lemma rest_of_nil (h : p.Cursors c c') (hopen : p.Open c) (hnil : c.rest = []) :
    p.whole ∧ c'.rest = [] := by
  have hwhole : p.whole := hopen.resolve_right fun hne => hne hnil
  exact ⟨hwhole, by rw [h.rest, hnil, p.more_eq hwhole, List.nil_append]⟩

lemma head?_eq (h : p.Cursors c c') (hopen : p.Open c) : c'.rest.head? = c.rest.head? := by
  cases hrest : c.rest with
  | nil => rw [(h.rest_of_nil hopen hrest).2]
  | cons t ts => rw [h.rest, hrest, List.cons_append, List.head?_cons, List.head?_cons]

lemma peek_eq (h : p.Cursors c c') (hopen : p.Open c) : c'.peek = c.peek := by
  rw [Cursor.peek, Cursor.peek]
  cases hrest : c.rest with
  | nil =>
    obtain ⟨hwhole, hnil⟩ := h.rest_of_nil hopen hrest
    rw [hnil]
    exact h.last hwhole
  | cons t ts => rw [h.rest, hrest, List.cons_append, List.headD_cons, List.headD_cons]

lemma places (h : p.Cursors c c') (hopen : p.Open c) : p.Places c c' := by
  intro fault
  rw [Cursor.errorHere, Cursor.errorHere, GrammarError.later, h.peek_eq hopen, h.position]

lemma record (h : p.Cursors c c') (e : GrammarError) :
    p.Cursors (c.record e) (c'.record (e.later p.offset)) where
  rest := h.rest
  last := h.last
  position := h.position
  nextId := h.nextId
  errors := by simp [Cursor.record, h.errors]

/-- Stepping over tokens of the text. -/
lemma moved (h : p.Cursors c c') {ts : List Token} {n : ℕ} :
    p.Cursors { c with rest := ts, position := n }
      { c' with rest := ts ++ p.more, position := n + p.offset } :=
  ⟨rfl, h.last, rfl, h.nextId, h.errors⟩

lemma advance (h : p.Cursors c c') {t : Token} {ts : List Token} (hrest : c.rest = t :: ts) :
    p.Cursors c.advance c'.advance := by
  have hrest' : c'.rest = t :: (ts ++ p.more) := by rw [h.rest, hrest, List.cons_append]
  rw [Cursor.advance, Cursor.advance, hrest, hrest']
  dsimp only
  rw [h.position, Nat.add_right_comm]
  exact h.moved

lemma skipCount_append {ts more : List Token} {previous : Token}
    (h : Cursor.skipCount previous ts < ts.length ∨ more = []) :
    Cursor.skipCount previous (ts ++ more) = Cursor.skipCount previous ts := by
  induction ts generalizing previous with
  | nil =>
    obtain rfl : more = [] := h.resolve_left (by simp)
    rfl
  | cons t ts ih =>
    rw [List.cons_append, Cursor.skipCount, Cursor.skipCount]
    split_ifs with hstop
    · rfl
    · rw [ih ?_]
      refine h.imp_left fun hlt => ?_
      rw [Cursor.skipCount, if_neg hstop, List.length_cons] at hlt
      omega

/-- Both readings go on at the same place after an error, unless that is the end of the text. -/
lemma synchronize (h : p.Cursors c c') (hopen : p.Open c.synchronize) :
    p.Cursors c.synchronize c'.synchronize := by
  cases hrest : c.rest with
  | nil =>
    have hstay : c.synchronize = c := by rw [Cursor.synchronize, hrest]
    rw [hstay] at hopen ⊢
    have hstay' : c'.synchronize = c' := by rw [Cursor.synchronize, (h.rest_of_nil hopen hrest).2]
    rw [hstay']
    exact h
  | cons t ts =>
    have hrest' : c'.rest = t :: (ts ++ p.more) := by rw [h.rest, hrest, List.cons_append]
    have hmove : c.synchronize =
        { c with
          rest := ts.drop (Cursor.skipCount t ts)
          position := c.position + 1 + Cursor.skipCount t ts } := by
      rw [Cursor.synchronize, hrest]
    have hle := Cursor.skipCount_le ts t
    -- The skipping stops within the text, or nothing follows the text.
    have hskip : Cursor.skipCount t (ts ++ p.more) = Cursor.skipCount t ts := by
      refine skipCount_append (hopen.symm.imp (fun hne => ?_) p.more_eq)
      rw [hmove] at hne
      exact lt_of_not_ge fun hge => hne (List.drop_eq_nil_of_le hge)
    rw [hmove, Cursor.synchronize, hrest']
    dsimp only
    rw [hskip, List.drop_append_of_le_length hle, h.position,
      show c.position + p.offset + 1 + Cursor.skipCount t ts =
        c.position + 1 + Cursor.skipCount t ts + p.offset by omega]
    exact h.moved

end Cursors

lemma open_of_synchronize {c : Cursor} (h : p.Open c.synchronize) : p.Open c := by
  refine h.imp_right fun hne hnil => hne ?_
  rw [Cursor.synchronize, hnil]
  exact hnil

/-! ## Readers -/

/-- Nothing is said of a reader at a place that is not `Open`, if it stays there. -/
lemma replies_of_closed {α β : Type} {V : α → β → Prop} {r : Reader α} {reply' : Reply β}
    {c : Cursor} (hstays : ∀ c d, c.rest = [] → (r c).cursor? = some d → d.rest = [])
    (hclosed : ¬ p.Open c) : p.Replies V (r c) reply' := by
  have hnil : c.rest = [] := by
    by_contra hne
    exact hclosed (.inr hne)
  have hnever : ∀ d, (r c).cursor? = some d → ¬ p.Open d := fun d hd =>
    fun hopen => hopen.elim (fun hwhole => hclosed (.inl hwhole)) fun hne =>
      hne (hstays c d hnil hd)
  cases hr : r c with
  | ok v d => exact fun hopen => (hnever d (by rw [hr]; rfl) hopen).elim
  | fail e d => exact fun hopen => (hnever d (by rw [hr]; rfl) hopen).elim
  | exhausted => trivial

namespace Readers

variable {α β γ δ : Type} {V : α → β → Prop} {W : γ → δ → Prop} {r : Reader α} {r' : Reader β}

lemma pure {v : α} {v' : β} (h : V v v') : p.Readers V (Reader.pure v) (Reader.pure v') where
  replies c c' hc _ _ := ⟨v', c', rfl, h, hc⟩
  stays := by
    rintro c _ hnil ⟨⟩
    exact hnil
  values := by
    rintro c _ _ ⟨⟩
    exact ⟨v', h⟩

/-- A reading that stops before what stands behind the text stood before it all the time. -/
lemma bind {f : α → Reader γ} {f' : β → Reader δ} (h : p.Readers V r r')
    (hf : ∀ v v', V v v' → p.Readers W (f v) (f' v')) : p.Readers W (r >>= f) (r' >>= f') := by
  have hbind : ∀ c, (r >>= f) c = Reader.bind r f c := fun _ => rfl
  have hbind' : ∀ c, (r' >>= f') c = Reader.bind r' f' c := fun _ => rfl
  refine ⟨fun c c' hc hopen => ?_, fun c d hnil hd => ?_, fun c w e hw => ?_⟩
  · have hreply := h.replies c c' hc hopen
    rw [hbind, hbind', Reader.bind, Reader.bind]
    cases hr : r c with
    | ok v d =>
      rw [hr] at hreply
      -- If the first reader stopped at the end of the text, the second one stays there.
      by_cases hd : p.Open d
      · obtain ⟨v', d', hr', hv, hd'⟩ := hreply hd
        rw [hr']
        exact (hf v v' hv).replies d d' hd' hd
      · obtain ⟨v', hv⟩ := h.values c v d hr
        exact replies_of_closed (hf v v' hv).stays hd
    | fail e d =>
      rw [hr] at hreply
      intro hd
      obtain ⟨d', hr', hd'⟩ := hreply hd
      exact ⟨d', by rw [hr'], hd'⟩
    | exhausted => trivial
  · rw [hbind, Reader.bind] at hd
    cases hr : r c with
    | ok v d₁ =>
      rw [hr] at hd
      obtain ⟨v', hv⟩ := h.values c v d₁ hr
      exact (hf v v' hv).stays d₁ d (h.stays c d₁ hnil (by rw [hr]; rfl)) hd
    | fail e d₁ =>
      rw [hr] at hd
      exact h.stays c d hnil (by rw [hr]; exact hd)
    | exhausted =>
      rw [hr] at hd
      exact absurd hd (by simp [Reply.cursor?])
  · rw [hbind, Reader.bind] at hw
    cases hr : r c with
    | ok v d =>
      rw [hr] at hw
      obtain ⟨v', hv⟩ := h.values c v d hr
      exact (hf v v' hv).values d w e hw
    | fail e' d =>
      rw [hr] at hw
      exact absurd hw (by simp)
    | exhausted =>
      rw [hr] at hw
      exact absurd hw (by simp)

/-- A first step that does not move, and gives `g c`. -/
lemma of_stay {g : Cursor → α} {g' : Cursor → β} (hr : ∀ c, r c = .ok (g c) c)
    (hr' : ∀ c, r' c = .ok (g' c) c) (hv : ∀ c c', p.Cursors c c' → p.Open c → V (g c) (g' c'))
    (hvalue : ∀ c, ∃ v', V (g c) v') : p.Readers V r r' where
  replies c c' hc hopen := by
    rw [hr, hr']
    exact fun _ => ⟨_, c', rfl, hv c c' hc hopen, hc⟩
  stays c d hnil hd := by
    rw [hr] at hd
    obtain rfl := Option.some.inj hd
    exact hnil
  values c v d h := by
    rw [hr] at h
    obtain ⟨rfl, -⟩ := Reply.ok.inj h
    exact hvalue c

lemma exhausted : p.Readers V (Reader.exhausted : Reader α) r' where
  replies _ _ _ _ := trivial
  stays _ _ _ := nofun
  values _ _ _ := nofun

lemma fail (fault : GrammarFault) :
    p.Readers V (Reader.fail fault : Reader α) (Reader.fail fault : Reader β) where
  replies c c' hc hopen _ := ⟨c', by rw [Reader.fail, hc.places hopen], hc⟩
  stays c d hnil hd := by
    obtain rfl := Option.some.inj hd
    exact hnil
  values _ _ _ := nofun

lemma noteAt {found found' : Cursor} (hfound : p.Places found found') (fault : GrammarFault) :
    p.Readers Eq (Reader.noteAt found fault) (Reader.noteAt found' fault) where
  replies c c' hc hopen _ := ⟨(), _, by rw [Reader.noteAt, hfound], rfl, hc.record _⟩
  stays c d hnil hd := by
    obtain rfl := Option.some.inj hd
    exact hnil
  values _ _ _ _ := ⟨(), rfl⟩

lemma note (fault : GrammarFault) : p.Readers Eq (Reader.note fault) (Reader.note fault) where
  replies c c' hc hopen := (noteAt (hc.places hopen) fault).replies c c' hc hopen
  stays c d hnil hd := by
    obtain rfl := Option.some.inj hd
    exact hnil
  values _ _ _ _ := ⟨(), rfl⟩

lemma here : p.Readers p.Places Reader.here Reader.here :=
  of_stay (fun _ => rfl) (fun _ => rfl) (fun _ _ hc hopen => hc.places hopen)
    fun c => ⟨{ c with position := c.position + p.offset }, fun _ => rfl⟩

lemma sees (kind : Kind) : p.Readers Eq (Reader.sees kind) (Reader.sees kind) := by
  refine of_stay (fun _ => rfl) (fun _ => rfl) (fun c c' hc hopen => ?_) fun _ => ⟨_, rfl⟩
  rw [Cursor.sees, Cursor.sees, hc.head?_eq hopen]

lemma atEnd : p.Readers Eq Reader.atEnd Reader.atEnd := by
  refine of_stay (fun _ => rfl) (fun _ => rfl) (fun c c' hc hopen => ?_) fun _ => ⟨_, rfl⟩
  cases hrest : c.rest with
  | nil => simp [Cursor.atEnd, hrest, (hc.rest_of_nil hopen hrest).2]
  | cons t ts => simp [Cursor.atEnd, hc.rest, hrest]

lemma freshId : p.Readers p.ids Reader.freshId Reader.freshId where
  replies c c' hc _ _ := by
    refine ⟨c'.nextId, _, rfl, hc.nextId, hc.rest, hc.last, hc.position, ?_, hc.errors⟩
    show c'.nextId + 1 = c.nextId + 1 + p.shift
    rw [hc.nextId, Nat.add_right_comm]
  stays c d hnil hd := by
    obtain rfl := Option.some.inj hd
    exact hnil
  values _ i _ _ := ⟨i + p.shift, rfl⟩

lemma acceptIf (kinds : Kind → Bool) :
    p.Readers (Option.Rel Eq) (Reader.acceptIf kinds) (Reader.acceptIf kinds) where
  replies c c' hc hopen := by
    cases hrest : c.rest with
    | nil =>
      rw [Reader.acceptIf, Reader.acceptIf, hrest, (hc.rest_of_nil hopen hrest).2]
      exact fun _ => ⟨none, c', rfl, .none, hc⟩
    | cons t ts =>
      have hrest' : c'.rest = t :: (ts ++ p.more) := by rw [hc.rest, hrest, List.cons_append]
      rw [Reader.acceptIf, Reader.acceptIf, hrest, hrest']
      dsimp only
      split
      · exact fun _ => ⟨some t, c'.advance, rfl, .some rfl, hc.advance hrest⟩
      · exact fun _ => ⟨none, c', rfl, .none, hc⟩
  stays c d hnil hd := by
    rw [Reader.acceptIf, hnil] at hd
    obtain rfl := Option.some.inj hd
    exact hnil
  values _ v _ _ := ⟨v, by cases v <;> constructor; rfl⟩

lemma expect (kind : Kind) (fault : GrammarFault) :
    p.Readers Eq (Reader.expect kind fault) (Reader.expect kind fault) where
  replies c c' hc hopen := by
    have herror := hc.places hopen fault
    cases hrest : c.rest with
    | nil =>
      rw [Reader.expect, Reader.expect, hrest, (hc.rest_of_nil hopen hrest).2]
      exact fun _ => ⟨c', by rw [herror], hc⟩
    | cons t ts =>
      have hrest' : c'.rest = t :: (ts ++ p.more) := by rw [hc.rest, hrest, List.cons_append]
      rw [Reader.expect, Reader.expect, hrest, hrest']
      dsimp only
      split
      · exact fun _ => ⟨t, c'.advance, rfl, rfl, hc.advance hrest⟩
      · exact fun _ => ⟨c', by rw [herror], hc⟩
  stays c d hnil hd := by
    rw [Reader.expect, hnil] at hd
    obtain rfl := Option.some.inj hd
    exact hnil
  values _ v _ _ := ⟨v, rfl⟩

lemma recovering {V : Stmt → Stmt → Prop} {r r' : Reader Stmt} (h : p.Readers V r r') :
    p.Readers (Option.Rel V) (Grammar.recovering r) (Grammar.recovering r') where
  replies c c' hc hopen := by
    have hreply := h.replies c c' hc hopen
    rw [Grammar.recovering, Grammar.recovering]
    cases hr : r c with
    | ok s d =>
      rw [hr] at hreply
      intro hd
      obtain ⟨s', d', hr', hs, hd'⟩ := hreply hd
      exact ⟨some s', d', by rw [hr'], .some hs, hd'⟩
    | fail e d =>
      rw [hr] at hreply
      intro hd
      -- Both readers fail with the same error; they note it and skip to the same place.
      obtain ⟨d', hr', hd'⟩ := hreply (open_of_synchronize (c := d.record e) hd)
      exact ⟨none, _, by rw [hr'], .none, (hd'.record e).synchronize hd⟩
    | exhausted => trivial
  stays c d hnil hd := by
    rw [Grammar.recovering] at hd
    cases hr : r c with
    | ok s d' =>
      rw [hr] at hd
      exact h.stays c d hnil (by rw [hr]; exact hd)
    | fail e d' =>
      -- At the end of the text there is nothing to skip.
      have hend : d'.rest = [] := h.stays c d' hnil (by rw [hr]; rfl)
      have hstay : (d'.record e).synchronize = d'.record e := by
        rw [Cursor.synchronize, show (d'.record e).rest = [] from hend]
      rw [hr] at hd
      obtain rfl := Option.some.inj hd
      rw [hstay]
      exact hend
    | exhausted =>
      rw [hr] at hd
      exact absurd hd (by simp [Reply.cursor?])
  values c v d hv := by
    rw [Grammar.recovering] at hv
    cases hr : r c with
    | ok s d' =>
      rw [hr] at hv
      obtain ⟨rfl, -⟩ := Reply.ok.inj hv
      obtain ⟨s', hs⟩ := h.values c s d' hr
      exact ⟨some s', .some hs⟩
    | fail e d' =>
      rw [hr] at hv
      obtain ⟨rfl, -⟩ := Reply.ok.inj hv
      exact ⟨none, .none⟩
    | exhausted =>
      rw [hr] at hv
      exact absurd hv (by simp)

end Readers

/-- The `Readers` of a placement are `Closed`: whatever is built from them does the same to a text
elsewhere. -/
lemma closed (p : Placement) : Closed (fun _ => true) Eq p.ids p.Places p.Readers where
  kind_eq h := congrArg Token.kind h
  literal_eq h := congrArg Token.literal h
  pure := Readers.pure
  bind := Readers.bind
  exhausted := Readers.exhausted
  fail _ := Readers.fail _
  note _ := Readers.note _
  noteAt _ hfound := Readers.noteAt hfound _
  here := Readers.here
  sees := Readers.sees
  atEnd := Readers.atEnd
  freshId := Readers.freshId
  acceptIf _ := Readers.acceptIf _
  expect _ _ := Readers.expect _ _

/-- A program that goes to the end of the input in both places, here with fewer steps. -/
lemma program_eq (hwhole : p.whole) {c c' d : Cursor} (hc : p.Cursors c c') {n n' steps steps' : ℕ}
    (hn : n ≤ n') (hsteps : steps ≤ steps') {kept : List Stmt}
    (hr : program (declaration n) steps c = .ok kept d) :
    ∃ kept' d', program (declaration n') steps' c' = .ok kept' d' ∧
      List.Forall₂ (Stmt.Matches p.ids Eq) kept kept' ∧ p.Cursors d d' := by
  have hdecl := (p.closed.statement_declaration Readers.recovering hn).2
  have hreply := (p.closed.program hdecl hsteps).replies c c' hc (.inl hwhole)
  rw [hr] at hreply
  exact hreply (.inl hwhole)

end Placement

/-! ## Whole programs -/

lemma kind_of_mem_textOf {tokens : List Token} {t : Token} (h : t ∈ textOf tokens) :
    t.kind ≠ .eof := by
  simpa using List.mem_takeWhile_imp h

lemma program_of_nil {decl : Reader (Option Stmt)} {steps : ℕ} {c : Cursor} (h : c.rest = [])
    (hsteps : 0 < steps) : program decl steps c = .ok [] c := by
  obtain ⟨steps, rfl⟩ : ∃ k, steps = k + 1 := ⟨steps - 1, by omega⟩
  have hend : atEnd c = .ok true c := by simp [atEnd, Cursor.atEnd, h]
  rw [program, bind_eq_of_ok hend]
  rfl

lemma parseProgram_of_ok {tokens : List Token} {nextId : NodeId} {kept : List Stmt} {d : Cursor}
    (h : program (declaration (stepsFor tokens)) (stepsFor tokens) (.start tokens nextId) =
      .ok kept d) : parseProgram tokens nextId = ⟨kept, d.errors.toList, d.nextId⟩ := by
  simp only [parseProgram, h]

/-- A `program` that is read from some place `c` on to the end of the input is read as
`parseProgram` would read its `tokens` on their own; its errors are found `c.position` tokens
later. -/
theorem program_elsewhere (tokens : List Token) (nextId : NodeId) {n steps : ℕ} {c : Cursor}
    (hrest : c.rest = textOf tokens)
    (hlast : textOf tokens ≠ [] → c.last = (Cursor.start tokens nextId).last)
    (hn : c.rest.length + 3 ≤ n) (hsteps : c.rest.length < steps) :
    ∃ kept d, program (declaration n) steps c = .ok kept d ∧
      kept.map Stmt.anonymous = (parseProgram tokens nextId).statements.map Stmt.anonymous ∧
      d.errors.toList = c.errors.toList ++
        (parseProgram tokens nextId).errors.map (GrammarError.later c.position) := by
  by_cases hnil : textOf tokens = []
  · have hparsed :=
      parseProgram_of_ok (program_of_nil (c := .start tokens nextId) hnil (Nat.succ_pos _))
    refine ⟨[], c, program_of_nil (by rw [hrest, hnil]) (by omega), ?_, ?_⟩
    · rw [hparsed]
    · rw [hparsed]
      exact (List.append_nil _).symm
  · -- Both readings are those of the text with nothing before it.
    let c₀ : Cursor := ⟨textOf tokens, c.last, 0, 0, #[]⟩
    have hlen := length_textOf_le tokens
    rw [hrest] at hn hsteps
    obtain ⟨kept₀, d₀, -, hr₀, -⟩ := program_ends (c := c₀) le_rfl (Nat.lt_succ_self _)
    let own : Placement := ⟨[], 0, [], nextId, True, fun _ => rfl⟩
    have hown : own.Cursors c₀ (.start tokens nextId) :=
      ⟨(List.append_nil _).symm, fun _ => (hlast hnil).symm, rfl, (Nat.zero_add _).symm, rfl⟩
    let there : Placement := ⟨[], c.position, c.errors.toList, c.nextId, True, fun _ => rfl⟩
    have hthere : there.Cursors c₀ c :=
      ⟨by rw [hrest, List.append_nil], fun _ => rfl, (Nat.zero_add _).symm, (Nat.zero_add _).symm,
        (List.append_nil _).symm⟩
    have henough : (textOf tokens).length + 3 ≤ stepsFor tokens := Nat.add_le_add hlen (by decide)
    obtain ⟨kept, d, hr, hkept, hd⟩ :=
      own.program_eq trivial hown henough
        (show (textOf tokens).length + 1 ≤ stepsFor tokens by omega) hr₀
    obtain ⟨kept', d', hr', hkept', hd'⟩ := there.program_eq trivial hthere hn hsteps hr₀
    have herrors : d.errors.toList = d₀.errors.toList.map (GrammarError.later 0) := hd.errors
    refine ⟨kept', d', hr', ?_, ?_⟩
    · rw [parseProgram_of_ok hr, ← Stmt.Matches.anonymous_eq_all hkept,
        ← Stmt.Matches.anonymous_eq_all hkept']
    · rw [parseProgram_of_ok hr, hd'.errors, herrors, List.map_map]
      rfl

/-- What is read does not depend on where node ids start, at `i` or at `j`. -/
lemma parseProgram_numbered (tokens : List Token) (i j : NodeId) :
    (parseProgram tokens i).statements.map Stmt.anonymous =
      (parseProgram tokens j).statements.map Stmt.anonymous ∧
      (parseProgram tokens i).errors = (parseProgram tokens j).errors := by
  have hlen : (Cursor.start tokens i).rest.length ≤ tokens.length := length_textOf_le tokens
  have hn : (Cursor.start tokens i).rest.length + 3 ≤ stepsFor tokens :=
    Nat.add_le_add hlen (by decide)
  obtain ⟨kept, d, hr, hkept, herrors⟩ :=
    program_elsewhere tokens j (c := .start tokens i) rfl (fun _ => rfl) hn
      (show _ < stepsFor tokens by omega)
  rw [parseProgram_of_ok hr]
  exact ⟨hkept, herrors.trans (List.map_id _)⟩

end Grammar

end LoxLang
