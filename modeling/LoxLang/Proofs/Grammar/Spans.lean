import Mathlib.Tactic
import LoxLang.Grammar.Cursor
import LoxLang.Tree.Occurrence

/-!
# What readers do to a cursor

A reader that succeeds or fails has moved its cursor forward over some tokens and noted some errors:
a `Span`.  `Reads r c post` says that the reader `r` at the cursor `c` comes to an end, that its
move is a span, and that `post` holds if it succeeds.  The rules below take a reader apart along its
steps.
-/

namespace LoxLang.Grammar

open Reader

/-! ## Spans -/

lemma Cursor.skipCount_le (ts : List Token) (previous : Token) :
    skipCount previous ts ≤ ts.length := by
  induction ts generalizing previous with
  | nil => simp [skipCount]
  | cons t ts ih =>
    rw [skipCount]
    split
    · omega
    · have := ih t
      simp only [List.length_cons]
      omega

/-- The move from `c` to `d` reads the tokens `used` and notes the errors `noted`. -/
structure Span (c d : Cursor) (used : List Token) (noted : List GrammarError) : Prop where
  rest : c.rest = used ++ d.rest
  last : d.last = c.last
  position : d.position = c.position + used.length
  nextId : c.nextId ≤ d.nextId
  errors : d.errors.toList = c.errors.toList ++ noted

namespace Span

lemma refl (c : Cursor) : Span c c [] [] where
  rest := rfl
  last := rfl
  position := rfl
  nextId := le_rfl
  errors := by simp

lemma trans {c d e : Cursor} {us vs : List Token} {xs ys : List GrammarError}
    (h : Span c d us xs) (k : Span d e vs ys) : Span c e (us ++ vs) (xs ++ ys) where
  rest := by rw [h.rest, k.rest, List.append_assoc]
  last := k.last.trans h.last
  position := by rw [k.position, h.position, List.length_append, Nat.add_assoc]
  nextId := h.nextId.trans k.nextId
  errors := by rw [k.errors, h.errors, List.append_assoc]

lemma length {c d : Cursor} {us : List Token} {xs : List GrammarError} (h : Span c d us xs) :
    us.length + d.rest.length = c.rest.length := by
  rw [h.rest, List.length_append]

lemma advance {c : Cursor} {t : Token} {rest : List Token} (h : c.rest = t :: rest) :
    Span c c.advance [t] [] := by
  have hadvance : c.advance = { c with rest := rest, position := c.position + 1 } := by
    rw [Cursor.advance, h]
  rw [hadvance]
  exact ⟨h, rfl, rfl, le_rfl, by simp⟩

lemma record (c : Cursor) (e : GrammarError) : Span c (c.record e) [] [e] where
  rest := rfl
  last := rfl
  position := rfl
  nextId := le_rfl
  errors := by simp [Cursor.record]

lemma freshId (c : Cursor) : Span c { c with nextId := c.nextId + 1 } [] [] where
  rest := rfl
  last := rfl
  position := rfl
  nextId := Nat.le_succ _
  errors := by simp

/-- Going on after an error, by `Cursor.synchronize`, steps over tokens only, and over at least one
if there is one. -/
lemma synchronize (c : Cursor) :
    ∃ used, Span c c.synchronize used [] ∧ (c.rest ≠ [] → used ≠ []) := by
  cases h : c.rest with
  | nil =>
    have hstay : c.synchronize = c := by rw [Cursor.synchronize, h]
    rw [hstay]
    exact ⟨[], refl c, fun hne => (hne rfl).elim⟩
  | cons t rest =>
    have hmove : c.synchronize =
        { c with
          rest := rest.drop (Cursor.skipCount t rest)
          position := c.position + 1 + Cursor.skipCount t rest } := by
      rw [Cursor.synchronize, h]
    refine ⟨t :: rest.take (Cursor.skipCount t rest), ?_, fun _ => by simp⟩
    rw [hmove]
    refine ⟨by simp [h], rfl, ?_, le_rfl, by simp⟩
    have := Cursor.skipCount_le rest t
    simp only [List.length_cons, List.length_take]
    omega

end Span

/-! ## Readers -/

/-- The reader `r` at `c` comes to an end with a `Span`, and with `post` if it succeeds. -/
def Reads {α : Type} (r : Reader α) (c : Cursor)
    (post : List Token → List GrammarError → α → Cursor → Prop) : Prop :=
  match r c with
  | .ok value d => ∃ used noted, Span c d used noted ∧ post used noted value d
  | .fail _ d => ∃ used noted, Span c d used noted
  | .exhausted => False

namespace Reads

variable {α β : Type} {c : Cursor}

lemma of_ok {r : Reader α} {v : α} {d : Cursor} {used : List Token} {noted : List GrammarError}
    {post : List Token → List GrammarError → α → Cursor → Prop}
    (h : r c = .ok v d) (hspan : Span c d used noted) (hpost : post used noted v d) :
    Reads r c post := by
  rw [Reads, h]
  exact ⟨used, noted, hspan, hpost⟩

lemma of_fail {r : Reader α} {e : GrammarError}
    {post : List Token → List GrammarError → α → Cursor → Prop} (h : r c = .fail e c) :
    Reads r c post := by
  rw [Reads, h]
  exact ⟨[], [], Span.refl c⟩

/-- What a reader that succeeded has done. -/
lemma ok {r : Reader α} {value : α} {d : Cursor}
    {post : List Token → List GrammarError → α → Cursor → Prop}
    (h : Reads r c post) (hr : r c = .ok value d) :
    ∃ used noted, Span c d used noted ∧ post used noted value d := by
  rw [Reads, hr] at h
  exact h

lemma mono {r : Reader α} {post other : List Token → List GrammarError → α → Cursor → Prop}
    (h : Reads r c post)
    (himp : ∀ used noted value d, Span c d used noted → post used noted value d →
      other used noted value d) : Reads r c other := by
  unfold Reads at h ⊢
  split
  · rename_i value d hr
    rw [hr] at h
    obtain ⟨used, noted, hspan, hpost⟩ := h
    exact ⟨used, noted, hspan, himp _ _ _ _ hspan hpost⟩
  · rename_i hr
    rw [hr] at h
    exact h
  · rename_i hr
    rw [hr] at h
    exact h

lemma pure {value : α} {post : List Token → List GrammarError → α → Cursor → Prop}
    (h : post [] [] value c) : Reads (Pure.pure value) c post :=
  of_ok rfl (Span.refl c) h

/-- One reader after another.  What the second one uses and notes stands behind what the first
did. -/
lemma bind {r : Reader α} {f : α → Reader β}
    {post : List Token → List GrammarError → α → Cursor → Prop}
    {final : List Token → List GrammarError → β → Cursor → Prop}
    (h : Reads r c post)
    (hf : ∀ used noted value d, Span c d used noted → post used noted value d →
      Reads (f value) d fun us es => final (used ++ us) (noted ++ es)) :
    Reads (r >>= f) c final := by
  have hbind : (r >>= f) c = match r c with
      | .ok value d => f value d
      | .fail error d => .fail error d
      | .exhausted => .exhausted := rfl
  cases hr : r c with
  | ok value d =>
    rw [hr] at hbind
    obtain ⟨used, noted, hspan, hpost⟩ := h.ok hr
    have hnext := hf used noted value d hspan hpost
    rw [Reads] at hnext ⊢
    rw [hbind]
    simp only
    -- Whether the second reader ends or fails, its span goes on from that of the first.
    split <;> rename_i hfd <;> rw [hfd] at hnext
    · obtain ⟨us, es, hspan', hfinal⟩ := hnext
      exact ⟨_, _, hspan.trans hspan', hfinal⟩
    · obtain ⟨us, es, hspan'⟩ := hnext
      exact ⟨_, _, hspan.trans hspan'⟩
    · exact hnext
  | fail e d =>
    rw [hr] at hbind
    rw [Reads, hr] at h
    rw [Reads, hbind]
    exact h
  | exhausted =>
    rw [Reads, hr] at h
    exact h.elim

lemma map {r : Reader α} {f : α → β}
    {post : List Token → List GrammarError → α → Cursor → Prop}
    {final : List Token → List GrammarError → β → Cursor → Prop}
    (h : Reads r c post)
    (hf : ∀ used noted value d, Span c d used noted → post used noted value d →
      final used noted (f value) d) :
    Reads (f <$> r) c final := by
  refine bind h fun used noted value d hspan hpost => pure ?_
  simpa using hf used noted value d hspan hpost

lemma fail {fault : GrammarFault} {post : List Token → List GrammarError → α → Cursor → Prop} :
    Reads (Reader.fail fault) c post :=
  of_fail rfl

lemma expect {kind : Kind} {fault : GrammarFault}
    {post : List Token → List GrammarError → Token → Cursor → Prop}
    (h : ∀ t, t.kind = kind → post [t] [] t c.advance) :
    Reads (Reader.expect kind fault) c post := by
  cases hrest : c.rest with
  | nil =>
    refine of_fail (e := c.errorHere fault) ?_
    simp [Reader.expect, hrest]
  | cons t rest =>
    by_cases ht : t.kind = kind
    · refine of_ok (v := t) ?_ (Span.advance hrest) (h t ht)
      simp [Reader.expect, hrest, ht]
    · refine of_fail (e := c.errorHere fault) ?_
      simp [Reader.expect, hrest, ht]

/-! ### A first step and the rest -/

section

variable {final : List Token → List GrammarError → β → Cursor → Prop}

lemma bind_of_ok {r : Reader α} {f : α → Reader β} {v : α} {d : Cursor} {used : List Token}
    {noted : List GrammarError} (h : r c = .ok v d) (hspan : Span c d used noted)
    (hf : Reads (f v) d fun us es => final (used ++ us) (noted ++ es)) :
    Reads (r >>= f) c final := by
  let p : List Token → List GrammarError → α → Cursor → Prop :=
    fun us es w e => us = used ∧ es = noted ∧ w = v ∧ e = d
  have hr : Reads r c p := of_ok h hspan ⟨rfl, rfl, rfl, rfl⟩
  refine bind hr ?_
  rintro _ _ _ _ - ⟨rfl, rfl, rfl, rfl⟩
  exact hf

lemma note_bind {fault : GrammarFault} {f : Unit → Reader β}
    (h : ∀ e, Reads (f ()) (c.record e) fun us es => final us (e :: es)) :
    Reads (Reader.note fault >>= f) c final :=
  bind_of_ok rfl (Span.record c _) (h _)

lemma noteAt_bind {found : Cursor} {fault : GrammarFault} {f : Unit → Reader β}
    (h : ∀ e, Reads (f ()) (c.record e) fun us es => final us (e :: es)) :
    Reads (Reader.noteAt found fault >>= f) c final :=
  bind_of_ok rfl (Span.record c _) (h _)

lemma here_bind {f : Cursor → Reader β} (h : Reads (f c) c final) :
    Reads (Reader.here >>= f) c final :=
  bind_of_ok rfl (Span.refl c) h

lemma sees_bind {kind : Kind} {f : Bool → Reader β} (h : Reads (f (c.sees kind)) c final) :
    Reads (Reader.sees kind >>= f) c final :=
  bind_of_ok rfl (Span.refl c) h

lemma atEnd_bind {f : Bool → Reader β} (h : Reads (f c.atEnd) c final) :
    Reads (Reader.atEnd >>= f) c final :=
  bind_of_ok rfl (Span.refl c) h

lemma freshId_bind {f : NodeId → Reader β}
    (h : Reads (f c.nextId) { c with nextId := c.nextId + 1 } final) :
    Reads (Reader.freshId >>= f) c final :=
  bind_of_ok rfl (Span.freshId c) h

lemma expect_bind {kind : Kind} {fault : GrammarFault} {f : Token → Reader β}
    (h : ∀ t, t.kind = kind → Span c c.advance [t] [] →
      Reads (f t) c.advance fun us es => final (t :: us) es) :
    Reads (Reader.expect kind fault >>= f) c final := by
  let p : List Token → List GrammarError → Token → Cursor → Prop :=
    fun us es t d => us = [t] ∧ es = [] ∧ t.kind = kind ∧ d = c.advance
  have hr : Reads (Reader.expect kind fault) c p := expect fun t ht => ⟨rfl, rfl, ht, rfl⟩
  refine bind hr ?_
  rintro _ _ t _ hspan ⟨rfl, rfl, ht, rfl⟩
  exact h t ht hspan

lemma acceptIf_bind {kinds : Kind → Bool} {f : Option Token → Reader β}
    (hnone : (∀ t ∈ c.rest.head?, kinds t.kind = false) → Reads (f none) c final)
    (hsome : ∀ t, kinds t.kind = true → Span c c.advance [t] [] →
      Reads (f (some t)) c.advance fun us es => final (t :: us) es) :
    Reads (Reader.acceptIf kinds >>= f) c final := by
  cases hrest : c.rest with
  | nil =>
    refine bind_of_ok (v := none) ?_ (Span.refl c) (hnone (by simp [hrest]))
    simp [Reader.acceptIf, hrest]
  | cons t rest =>
    by_cases ht : kinds t.kind = true
    · have hspan := Span.advance hrest
      refine bind_of_ok (v := some t) ?_ hspan (hsome t ht hspan)
      simp [Reader.acceptIf, hrest, ht]
    · refine bind_of_ok (v := none) ?_ (Span.refl c) (hnone (by simpa [hrest] using ht))
      simp [Reader.acceptIf, hrest, ht]

lemma accept_bind {kind : Kind} {f : Option Token → Reader β}
    (hnone : c.sees kind = false → Reads (f none) c final)
    (hsome : ∀ t, t.kind = kind → Span c c.advance [t] [] →
      Reads (f (some t)) c.advance fun us es => final (t :: us) es) :
    Reads (Reader.accept kind >>= f) c final := by
  refine acceptIf_bind (fun h => hnone ?_) fun t ht => hsome t (by simpa using ht)
  cases hrest : c.rest with
  | nil => simp [Cursor.sees, hrest]
  | cons t rest =>
    rw [hrest] at h
    simpa [Cursor.sees, hrest] using h t (by simp)

end

/-- Something that is absent if a token of the given `kind` is next. -/
lemma unlessSees {kind : Kind} {r : Reader α}
    {post : List Token → List GrammarError → Option α → Cursor → Prop}
    (hnone : c.sees kind = true → post [] [] none c)
    (hsome : c.sees kind = false → Reads r c fun used noted value => post used noted (some value)) :
    Reads (Reader.unlessSees kind r) c post := by
  unfold Reader.unlessSees
  refine sees_bind ?_
  by_cases hb : c.sees kind = true
  · rw [if_pos hb]
    exact pure (hnone hb)
  · rw [if_neg hb]
    exact map (hsome (by simpa using hb)) fun _ _ _ _ _ h => h

end Reads

end LoxLang.Grammar
