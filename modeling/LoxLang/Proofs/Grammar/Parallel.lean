import LoxLang.Proofs.Grammar.Relations
import LoxLang.Proofs.Grammar.Statements

/-!
# Texts that are read side by side

A reader looks at the kinds and the literals of tokens only, and at node ids not at all.  So it does
the same to two texts whose tokens correspond one by one, and with errors in them too: it notes the
same faults at the same positions, goes on at the same places, and comes to trees that match, with
node ids counted from wherever each reading started.
-/

namespace LoxLang.Grammar

open Reader

/-- What corresponds in two readings: `tokens` of the same kind and with the same literal, and node
ids counted from a first one. -/
structure Parallel where
  tokens : Token → Token → Prop
  kind_eq : ∀ {t t' : Token}, tokens t t' → t.kind = t'.kind
  literal_eq : ∀ {t t' : Token}, tokens t t' → t.literal = t'.literal
  first : NodeId
  first' : NodeId

namespace Parallel

/-- Node ids at the same distance from `first` and `first'`. -/
def ids (p : Parallel) (i i' : NodeId) : Prop := i + p.first' = i' + p.first

structure Errors (p : Parallel) (e e' : GrammarError) : Prop where
  fault : e.fault = e'.fault
  token : p.tokens e.token e'.token
  position : e.position = e'.position

structure Cursors (p : Parallel) (c c' : Cursor) : Prop where
  rest : List.Forall₂ p.tokens c.rest c'.rest
  last : p.tokens c.last c'.last
  position : c.position = c'.position
  nextId : p.ids c.nextId c'.nextId
  errors : List.Forall₂ p.Errors c.errors.toList c'.errors.toList

inductive Replies {α β : Type} (p : Parallel) (V : α → β → Prop) : Reply α → Reply β → Prop where
  | ok {v : α} {v' : β} {c c' : Cursor} :
      V v v' → p.Cursors c c' → Replies p V (.ok v c) (.ok v' c')
  | fail {e e' : GrammarError} {c c' : Cursor} :
      p.Errors e e' → p.Cursors c c' → Replies p V (.fail e c) (.fail e' c')
  /-- Nothing is said of a reading that lacks steps. -/
  | exhausted (reply' : Reply β) : Replies p V .exhausted reply'

/-- Readers that come to corresponding `Replies` at corresponding `Cursors`. -/
def Readers {α β : Type} (p : Parallel) (V : α → β → Prop) (r : Reader α) (r' : Reader β) : Prop :=
  ∀ c c', p.Cursors c c' → p.Replies V (r c) (r' c')

variable {p : Parallel}

/-! ## Cursors -/

namespace Cursors

variable {c c' : Cursor}

lemma errorHere (h : p.Cursors c c') (fault : GrammarFault) :
    p.Errors (c.errorHere fault) (c'.errorHere fault) := by
  refine ⟨rfl, ?_, h.position⟩
  have hrest := h.rest
  simp only [Cursor.errorHere, Cursor.peek]
  generalize c.rest = ts, c'.rest = ts' at hrest
  cases hrest with
  | nil => exact h.last
  | cons ht _ => exact ht

lemma record (h : p.Cursors c c') {e e' : GrammarError} (he : p.Errors e e') :
    p.Cursors (c.record e) (c'.record e') where
  rest := h.rest
  last := h.last
  position := h.position
  nextId := h.nextId
  errors := by
    simp only [Cursor.record, Array.toList_push]
    exact List.rel_append h.errors (.cons he .nil)

lemma sees_eq (h : p.Cursors c c') (kind : Kind) : c.sees kind = c'.sees kind := by
  have hrest := h.rest
  simp only [Cursor.sees]
  generalize c.rest = ts, c'.rest = ts' at hrest
  cases hrest with
  | nil => rfl
  | cons ht _ => simp [p.kind_eq ht]

lemma atEnd_eq (h : p.Cursors c c') : c.atEnd = c'.atEnd := by
  have hrest := h.rest
  simp only [Cursor.atEnd]
  generalize c.rest = ts, c'.rest = ts' at hrest
  cases hrest <;> rfl

/-- Stepping over corresponding tokens. -/
lemma moved (h : p.Cursors c c') {ts ts' : List Token} (hts : List.Forall₂ p.tokens ts ts')
    {n n' : ℕ} (hn : n = n') :
    p.Cursors { c with rest := ts, position := n } { c' with rest := ts', position := n' } :=
  ⟨hts, h.last, hn, h.nextId, h.errors⟩

lemma skipCount_eq {ts ts' : List Token} (hts : List.Forall₂ p.tokens ts ts') {t t' : Token}
    (ht : p.tokens t t') : Cursor.skipCount t ts = Cursor.skipCount t' ts' := by
  induction hts generalizing t t' with
  | nil => rfl
  | cons hu _ ih => rw [Cursor.skipCount, Cursor.skipCount, p.kind_eq ht, p.kind_eq hu, ih hu]

lemma synchronize (h : p.Cursors c c') : p.Cursors c.synchronize c'.synchronize := by
  have hrest := h.rest
  rw [Cursor.synchronize, Cursor.synchronize]
  generalize hts : c.rest = ts, hts' : c'.rest = ts' at hrest
  cases hrest with
  | nil => exact h
  | cons ht hmore =>
    dsimp only
    rw [skipCount_eq hmore ht, h.position]
    exact h.moved (List.forall₂_drop _ hmore) rfl

lemma start {ts ts' : List Token} (hts : List.Forall₂ p.tokens ts ts')
    (hlast : p.tokens (Cursor.start ts p.first).last (Cursor.start ts' p.first').last) :
    p.Cursors (.start ts p.first) (.start ts' p.first') where
  rest := by
    show List.Forall₂ p.tokens (ts.takeWhile _) (ts'.takeWhile _)
    clear hlast
    induction hts with
    | nil => exact .nil
    | cons ht _ ih =>
      rw [List.takeWhile_cons, List.takeWhile_cons, p.kind_eq ht]
      split
      · exact .cons ht ih
      · exact .nil
  last := hlast
  position := rfl
  nextId := Nat.add_comm _ _
  errors := .nil

end Cursors

/-! ## Readers -/

namespace Readers

lemma bind {α β γ δ : Type} {V : α → β → Prop} {W : γ → δ → Prop} {r : Reader α} {r' : Reader β}
    {f : α → Reader γ} {f' : β → Reader δ} (h : p.Readers V r r')
    (hf : ∀ v v', V v v' → p.Readers W (f v) (f' v')) : p.Readers W (r >>= f) (r' >>= f') := by
  intro c c' hc
  have hreply := h c c' hc
  show p.Replies W (Reader.bind r f c) (Reader.bind r' f' c')
  unfold Reader.bind
  generalize r c = reply, r' c' = reply' at hreply
  cases hreply with
  | ok hv hd => exact hf _ _ hv _ _ hd
  | fail he hd => exact .fail he hd
  | exhausted => exact .exhausted _

lemma freshId : p.Readers p.ids Reader.freshId Reader.freshId := by
  intro c c' hc
  refine .ok hc.nextId ⟨hc.rest, hc.last, hc.position, ?_, hc.errors⟩
  show c.nextId + 1 + p.first' = c'.nextId + 1 + p.first
  rw [Nat.add_right_comm, Nat.add_right_comm c'.nextId]
  exact congrArg Nat.succ hc.nextId

lemma acceptIf (kinds : Kind → Bool) :
    p.Readers (Option.Rel p.tokens) (Reader.acceptIf kinds) (Reader.acceptIf kinds) := by
  intro c c' hc
  have hrest := hc.rest
  rw [Reader.acceptIf, Reader.acceptIf, Cursor.advance, Cursor.advance]
  generalize c.rest = ts, c'.rest = ts' at hrest
  cases hrest with
  | nil => exact .ok .none hc
  | cons ht hmore =>
    dsimp only
    rw [p.kind_eq ht, hc.position]
    split
    · exact .ok (.some ht) (hc.moved hmore rfl)
    · exact .ok .none hc

lemma expect (kind : Kind) (fault : GrammarFault) :
    p.Readers p.tokens (Reader.expect kind fault) (Reader.expect kind fault) := by
  intro c c' hc
  have hrest := hc.rest
  have herror := hc.errorHere fault
  rw [Reader.expect, Reader.expect, Cursor.advance, Cursor.advance]
  generalize c.rest = ts, c'.rest = ts' at hrest
  cases hrest with
  | nil => exact .fail herror hc
  | cons ht hmore =>
    dsimp only
    rw [p.kind_eq ht, hc.position]
    split
    · exact .ok ht (hc.moved hmore rfl)
    · exact .fail herror hc

/-- Two readings recover from an error at the same place. -/
lemma recovering {V : Stmt → Stmt → Prop} {r r' : Reader Stmt} (h : p.Readers V r r') :
    p.Readers (Option.Rel V) (Grammar.recovering r) (Grammar.recovering r') := by
  intro c c' hc
  have hreply := h c c' hc
  rw [Grammar.recovering, Grammar.recovering]
  generalize r c = reply, r' c' = reply' at hreply
  cases hreply with
  | ok hs hd => exact .ok (.some hs) hd
  | fail he hd => exact .ok .none (hd.record he).synchronize
  | exhausted => exact .exhausted _

end Readers

/-- The `Readers` of two parallel texts are `Closed`: whatever is built from them does the same to
both. -/
lemma closed (p : Parallel) : Closed (fun _ => true) p.tokens p.ids p.Cursors p.Readers where
  kind_eq := p.kind_eq
  literal_eq := p.literal_eq
  pure hv _ _ hc := .ok hv hc
  bind := Readers.bind
  exhausted _ _ _ := .exhausted _
  fail _ _ _ hc := .fail (hc.errorHere _) hc
  note _ _ _ hc := .ok rfl (hc.record (hc.errorHere _))
  noteAt _ hfound _ _ hc := .ok rfl (hc.record (hfound.errorHere _))
  here _ _ hc := .ok hc hc
  sees kind _ _ hc := .ok (hc.sees_eq kind) hc
  atEnd _ _ hc := .ok hc.atEnd_eq hc
  freshId := Readers.freshId
  acceptIf _ := Readers.acceptIf _
  expect _ _ := Readers.expect _ _

end Parallel

/-- What two readings of whole texts come to, part by part. -/
structure Parsed.Parallel (p : Parallel) (r r' : Parsed) : Prop where
  statements : List.Forall₂ (Stmt.Matches p.ids p.tokens) r.statements r'.statements
  errors : List.Forall₂ p.Errors r.errors r'.errors
  nextId : p.ids r.nextId r'.nextId

/-- Texts `ts` and `ts'` whose tokens correspond are read alike by `parseProgram`, errors
included. -/
theorem parseProgram_parallel (p : Parallel) {ts ts' : List Token}
    (hts : List.Forall₂ p.tokens ts ts')
    (hlast : p.tokens (Cursor.start ts p.first).last (Cursor.start ts' p.first').last) :
    Parsed.Parallel p (parseProgram ts p.first) (parseProgram ts' p.first') := by
  have hsteps : stepsFor ts = stepsFor ts' := congrArg (· + 4) hts.length_eq
  have hdecl :=
    (p.closed.statement_declaration Parallel.Readers.recovering (le_refl (stepsFor ts))).2
  have hreply :=
    p.closed.program hdecl (le_refl (stepsFor ts)) _ _ (Parallel.Cursors.start hts hlast)
  have hlen : (Cursor.start ts p.first).rest.length ≤ ts.length :=
    (List.takeWhile_prefix _).length_le
  have hn : (Cursor.start ts p.first).rest.length + 3 ≤ stepsFor ts :=
    Nat.add_le_add hlen (by decide)
  -- The first reading comes to an end, so that something is said of the second.
  obtain ⟨kept, d, -, hr, -⟩ := program_ends hn (show _ < stepsFor ts by omega)
  rw [parseProgram, parseProgram, ← hsteps]
  rw [hr] at hreply ⊢
  generalize program (declaration (stepsFor ts)) (stepsFor ts) (.start ts' p.first') =
    reply' at hreply ⊢
  cases hreply with
  | ok hstatements hc => exact ⟨hstatements, hc.errors, hc.nextId⟩

end LoxLang.Grammar
