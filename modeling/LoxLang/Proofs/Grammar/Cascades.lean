import LoxLang.Proofs.Grammar.Totality

/-!
# Errors move forward

A declaration that cannot be read is given up with an error, and reading goes on behind the token of
that error.  So such errors come one behind the other, and no token has two of them.  The end of the
input is the exception, for nothing can be skipped there: the statement that breaks off there has an
error, and so has each block around it that is still open.

The invariant is about the move that a reader makes.  Its errors lie among the tokens that it reads,
but for some at the end of the input; and a reader that succeeds has none there.  For a block with
such an error in it does not find its closing brace any more.
-/

namespace LoxLang.Grammar

open Reader

/-! ## Moves -/

/-- The errors with which a declaration was given up.  The others are only noted. -/
def unwound (errors : List GrammarError) : List GrammarError :=
  errors.filter fun e => !e.fault.noted

/-- How many braces are opened in `ts`. -/
abbrev braces (ts : List Token) : ℕ := ts.countP (·.kind = .leftBrace)

/-- The move from `c` to `d` reads the tokens `used` and notes the errors `noted`.  Those that give
up a declaration are found at increasing positions among the tokens that are read, and then `atEnd`
times at the end of the text, which the move has reached in that case. -/
structure Forward (tokens : List Token) (c d : Cursor) (used : List Token)
    (noted : List GrammarError) (atEnd : ℕ) : Prop where
  span : Span c d used noted
  found : ∀ e ∈ unwound noted, (ended tokens)[e.position]? = some e.token
  inOrder : ∃ front, (unwound noted).map GrammarError.position =
    front ++ List.replicate atEnd (textOf tokens).length ∧
    front.Pairwise (· < ·) ∧ ∀ p ∈ front, c.position ≤ p ∧ p < d.position
  reached : 0 < atEnd → d.rest = []

variable {tokens : List Token} {c d : Cursor}

lemma unwound_append (xs ys : List GrammarError) : unwound (xs ++ ys) = unwound xs ++ unwound ys :=
  List.filter_append ..

lemma braces_append (ts us : List Token) : braces (ts ++ us) = braces ts + braces us :=
  List.countP_append

lemma Cursor.StandsIn.position_of_nil (h : c.StandsIn tokens) (hrest : c.rest = []) :
    c.position = (textOf tokens).length := by
  have hdrop : (textOf tokens).drop c.position = [] := h.rest.symm.trans hrest
  exact le_antisymm h.inside (List.drop_eq_nil_iff.mp hdrop)

section

variable {us vs : List Token} {xs ys : List GrammarError}

lemma Span.used_unique (h : Span c d us xs) (h' : Span c d vs ys) :
    us = vs := List.append_cancel_right (h.rest.symm.trans h'.rest)

/-- At the end of the text a move reads nothing. -/
lemma Span.of_nil (h : Span c d us xs) (hrest : c.rest = []) : us = [] ∧ d.rest = [] :=
  List.append_eq_nil_iff.mp (h.rest.symm.trans hrest)

lemma Span.position_le (h : Span c d us xs) : c.position ≤ d.position := by
  rw [h.position]
  exact Nat.le_add_right _ _

end

namespace Forward

variable {e : Cursor} {used used' : List Token} {noted noted' : List GrammarError} {k l : ℕ}

/-- A move on which no declaration is given up. -/
lemma of_span (hspan : Span c d used noted) (hnoted : unwound noted = []) :
    Forward tokens c d used noted 0 where
  span := hspan
  found x hx := by
    rw [hnoted] at hx
    exact absurd hx (by simp)
  inOrder := ⟨[], by simp [hnoted], .nil, by simp⟩
  reached h := absurd h (Nat.lt_irrefl 0)

lemma refl (c : Cursor) : Forward tokens c c [] [] 0 := of_span (.refl c) rfl

lemma record (c : Cursor) {x : GrammarError} (hx : x.fault.noted = true) :
    Forward tokens c (c.record x) [] [x] 0 :=
  of_span (.record c x) (by simp [unwound, hx])

/-- One move after another.  Behind the end of the text nothing is read, so there all errors are at
the end. -/
lemma trans (h : Forward tokens c d used noted k) (h' : Forward tokens d e used' noted' l) :
    Forward tokens c e (used ++ used') (noted ++ noted') (k + l) where
  span := h.span.trans h'.span
  found x hx := by
    rw [unwound_append] at hx
    exact (List.mem_append.mp hx).elim (h.found x) (h'.found x)
  inOrder := by
    obtain ⟨front, hplaces, hsorted, hinside⟩ := h.inOrder
    obtain ⟨front', hplaces', hsorted', hinside'⟩ := h'.inOrder
    -- After an error at the end of the text the second move finds none within it.
    have hlast : 0 < k → front' = [] := by
      intro hk
      obtain ⟨rfl, -⟩ := h'.span.of_nil (h.reached hk)
      have hstay : e.position = d.position := h'.span.position
      refine List.eq_nil_iff_forall_not_mem.mpr fun p hp => ?_
      have hp := hinside' p hp
      omega
    refine ⟨front ++ front', ?_, ?_, ?_⟩
    · rw [unwound_append, List.map_append, hplaces, hplaces', List.replicate_add]
      rcases Nat.eq_zero_or_pos k with rfl | hk
      · simp
      · simp [hlast hk]
    · refine List.pairwise_append.mpr ⟨hsorted, hsorted', fun p hp q hq => ?_⟩
      exact (hinside p hp).2.trans_le (hinside' q hq).1
    · intro p hp
      rcases List.mem_append.mp hp with hp | hp
      · exact ⟨(hinside p hp).1, (hinside p hp).2.trans_le h'.span.position_le⟩
      · exact ⟨h.span.position_le.trans (hinside' p hp).1, (hinside' p hp).2⟩
  reached hpos := by
    rcases Nat.eq_zero_or_pos k with rfl | hk
    · exact h'.reached (by omega)
    · exact (h'.span.of_nil (h.reached hk)).2

/-- Going on behind an error, by `synchronize`, leads over its token, if that is not the end of the
text. -/
lemma recover (h : c.StandsIn tokens) {fault : GrammarFault} (hfault : fault.noted = false) :
    ∃ used l, Forward tokens c (c.record (c.errorHere fault)).synchronize used
      [c.errorHere fault] l ∧ l ≤ 1 := by
  have hunwound : unwound [c.errorHere fault] = [c.errorHere fault] := by
    simp [unwound, Cursor.errorHere, hfault]
  have hfound : ∀ e ∈ unwound [c.errorHere fault], (ended tokens)[e.position]? = some e.token := by
    intro e he
    rw [hunwound, List.mem_singleton] at he
    rw [he]
    exact h.getElem?_position
  obtain ⟨used, hspan, hmoves⟩ := Span.synchronize (c.record (c.errorHere fault))
  have hspan := (Span.record c (c.errorHere fault)).trans hspan
  -- At the end of the text the error is there and nothing is skipped.
  by_cases hrest : c.rest = []
  · refine ⟨used, 1, ⟨hspan, hfound, ⟨[], ?_, .nil, by simp⟩, fun _ => (hspan.of_nil hrest).2⟩,
      le_rfl⟩
    rw [hunwound]
    exact congrArg (· :: []) (h.position_of_nil hrest)
  · refine ⟨used, 0, ⟨hspan, hfound, ⟨[c.position], ?_, List.pairwise_singleton _ _, ?_⟩,
      fun h => ?_⟩, Nat.zero_le 1⟩
    · rw [hunwound]
      rfl
    · intro p hp
      obtain rfl := List.mem_singleton.mp hp
      have hused := List.length_pos_iff.mpr (hmoves hrest)
      have hposition := hspan.position
      rw [List.nil_append] at hposition
      omega
    · exact absurd h (Nat.lt_irrefl 0)

/-- The `unwound` errors of a move by their positions, inside the text and at its end. -/
lemma exists_front (h : Forward tokens c d used noted k)
    (hd : d.position ≤ (textOf tokens).length) :
    ∃ front,
      (unwound noted).map GrammarError.position = front ++ List.replicate k (textOf tokens).length ∧
      front.Pairwise (· < ·) ∧ ∀ p ∈ front, p < (textOf tokens).length := by
  obtain ⟨front, hplaces, hsorted, hinside⟩ := h.inOrder
  exact ⟨front, hplaces, hsorted, fun p hp => (hinside p hp).2.trans_le hd⟩

lemma pairwise (h : Forward tokens c d used noted k) (hd : d.position ≤ (textOf tokens).length) :
    (unwound noted).Pairwise fun x y =>
      x.position ≤ y.position ∧
      (x.position = y.position → x.position = (textOf tokens).length) := by
  obtain ⟨front, hplaces, hsorted, hfront⟩ := h.exists_front hd
  have hpairs : ((unwound noted).map GrammarError.position).Pairwise
      fun p q => p ≤ q ∧ (p = q → p = (textOf tokens).length) := by
    rw [hplaces]
    refine List.pairwise_append.mpr ⟨hsorted.imp fun h => ⟨h.le, fun heq => absurd heq h.ne⟩, ?_,
      fun p hp q hq => ?_⟩
    · exact List.pairwise_replicate.mpr (.inr ⟨le_rfl, fun _ => rfl⟩)
    · obtain rfl := List.eq_of_mem_replicate hq
      exact ⟨(hfront p hp).le, id⟩
  exact List.pairwise_map.mp hpairs

lemma countP_atEnd (h : Forward tokens c d used noted k)
    (hd : d.position ≤ (textOf tokens).length) :
    (unwound noted).countP (·.position = (textOf tokens).length) = k := by
  obtain ⟨front, hplaces, -, hfront⟩ := h.exists_front hd
  have hnone : front.countP (· = (textOf tokens).length) = 0 :=
    List.countP_eq_zero.mpr fun p hp => by simpa using (hfront p hp).ne
  have hcount : ((unwound noted).map GrammarError.position).countP (· = (textOf tokens).length) =
      k := by
    rw [hplaces, List.countP_append, hnone, List.countP_replicate]
    simp
  rwa [List.countP_map] at hcount

end Forward

/-! ## Readers that fail, and readers that recover -/

section

variable {α γ : Type} {r : Reader α} {f : α → Reader γ} {e : Cursor}

lemma bind_eq_ok {w : γ} (h : (r >>= f) c = .ok w e) : ∃ v d, r c = .ok v d ∧ f v d = .ok w e := by
  have hbind : (r >>= f) c = Reader.bind r f c := rfl
  rw [hbind, Reader.bind] at h
  cases hr : r c with
  | ok v d =>
    rw [hr] at h
    exact ⟨v, d, rfl, h⟩
  | fail x d | exhausted =>
    rw [hr] at h
    exact absurd h (by simp)

lemma bind_eq_fail {x : GrammarError} (h : (r >>= f) c = .fail x e) :
    r c = .fail x e ∨ ∃ v d, r c = .ok v d ∧ f v d = .fail x e := by
  have hbind : (r >>= f) c = Reader.bind r f c := rfl
  rw [hbind, Reader.bind] at h
  cases hr : r c with
  | ok v d =>
    rw [hr] at h
    exact .inr ⟨v, d, rfl, h⟩
  | fail x' d =>
    rw [hr] at h
    obtain ⟨rfl, rfl⟩ := Reply.fail.inj h
    exact .inl rfl
  | exhausted =>
    rw [hr] at h
    exact absurd h (by simp)

lemma ok_of_acceptIf {set : Kind → Bool} {t : Option Token} (h : acceptIf set c = .ok t d) :
    (t = none ∧ d = c) ∨ ∃ u us,
      t = some u ∧ set u.kind = true ∧ c.rest = u :: us ∧ d = c.advance := by
  rw [acceptIf] at h
  split at h
  · obtain ⟨rfl, rfl⟩ := Reply.ok.inj h
    exact .inl ⟨rfl, rfl⟩
  · next u us hrest =>
    split at h
    · next hkind =>
      obtain ⟨rfl, rfl⟩ := Reply.ok.inj h
      exact .inr ⟨u, us, rfl, hkind, hrest, rfl⟩
    · obtain ⟨rfl, rfl⟩ := Reply.ok.inj h
      exact .inl ⟨rfl, rfl⟩

lemma ok_of_expect {kind : Kind} {fault : GrammarFault} {t : Token}
    (h : expect kind fault c = .ok t d) :
    ∃ us, c.rest = t :: us ∧ t.kind = kind ∧ d = c.advance := by
  rw [expect] at h
  split at h
  · exact absurd h (by simp)
  · next u us hrest =>
    split at h
    · next hkind =>
      obtain ⟨rfl, rfl⟩ := Reply.ok.inj h
      exact ⟨us, hrest, hkind, rfl⟩
    · exact absurd h (by simp)

lemma fail_of_expect {kind : Kind} {fault : GrammarFault} {x : GrammarError}
    (h : expect kind fault c = .fail x d) : x = c.errorHere fault ∧ d = c := by
  rw [expect] at h
  split at h
  · obtain ⟨rfl, rfl⟩ := Reply.fail.inj h
    exact ⟨rfl, rfl⟩
  · split at h
    · exact absurd h (by simp)
    · obtain ⟨rfl, rfl⟩ := Reply.fail.inj h
      exact ⟨rfl, rfl⟩

end

/-- A reader `r` that succeeds has no error at the end of the text.  If it fails, it may have as
many as there are `braces` opened in what it reads, and `opened` more. -/
structure Unwinds {α β : Type} (tokens : List Token) (opened : ℕ) (V : α → β → Prop)
    (r : Reader α) : Prop where
  ok : ∀ c v d, c.StandsIn tokens → r c = .ok v d →
    (∃ used noted, Forward tokens c d used noted 0) ∧ ∃ v', V v v'
  fail : ∀ c e d, c.StandsIn tokens → r c = .fail e d →
    (∃ fault, fault.noted = false ∧ e = d.errorHere fault) ∧
    ∃ used noted k, Forward tokens c d used noted k ∧ k ≤ opened + braces used

/-- A reader `r` that does not fail.  At the end of the text it has at most one error more than
there are `braces` opened in what it reads. -/
structure Recovers {α β : Type} (tokens : List Token) (V : α → β → Prop) (r : Reader α) : Prop where
  ok : ∀ c v d, c.StandsIn tokens → r c = .ok v d →
    (∃ used noted k, Forward tokens c d used noted k ∧ k ≤ 1 + braces used) ∧ ∃ v', V v v'
  fail : ∀ c e d, r c ≠ .fail e d

namespace Unwinds

variable {α β γ δ : Type} {opened more : ℕ} {V : α → β → Prop} {W : γ → δ → Prop} {r : Reader α}

lemma mono (h : Unwinds tokens opened V r) (hmore : opened ≤ more) : Unwinds tokens more V r where
  ok := h.ok
  fail c e d hc hr := by
    obtain ⟨he, used, noted, k, hforward, hk⟩ := h.fail c e d hc hr
    exact ⟨he, used, noted, k, hforward, by omega⟩

/-- A reader that always succeeds, at `next c`. -/
lemma of_ok {g : Cursor → α} {next : Cursor → Cursor} (hr : ∀ c, r c = .ok (g c) (next c))
    (hnext : ∀ c, ∃ used noted, Forward tokens c (next c) used noted 0)
    (hvalue : ∀ c, ∃ v', V (g c) v') : Unwinds tokens opened V r where
  ok c v d _ h := by
    rw [hr] at h
    obtain ⟨rfl, rfl⟩ := Reply.ok.inj h
    exact ⟨hnext c, hvalue c⟩
  fail c e d _ h := by
    rw [hr] at h
    exact absurd h (by simp)

lemma pure {v : α} {v' : β} (hv : V v v') : Unwinds tokens opened V (Reader.pure v) :=
  .of_ok (fun _ => rfl) (fun c => ⟨_, _, .refl c⟩) fun _ => ⟨v', hv⟩

/-- One reader after another.  The braces that the first one `opens` count for the second. -/
lemma bind_of_opens {f : α → Reader γ} (opens : α → ℕ) (h : Unwinds tokens opened V r)
    (hopens : ∀ c v d used noted, r c = .ok v d → Span c d used noted → opens v ≤ braces used)
    (hf : ∀ v v', V v v' → Unwinds tokens (opened + opens v) W (f v)) :
    Unwinds tokens opened W (r >>= f) := by
  refine ⟨fun c w e hc hw => ?_, fun c x e hc hx => ?_⟩
  · obtain ⟨v, d, hr, hw⟩ := bind_eq_ok hw
    obtain ⟨⟨used, noted, hd⟩, v', hv⟩ := h.ok c v d hc hr
    obtain ⟨⟨used', noted', he⟩, hw⟩ := (hf v v' hv).ok d w e (hc.of_span hd.span) hw
    exact ⟨⟨_, _, hd.trans he⟩, hw⟩
  · rcases bind_eq_fail hx with hx | ⟨v, d, hr, hx⟩
    · exact h.fail c x e hc hx
    · obtain ⟨⟨used, noted, hd⟩, v', hv⟩ := h.ok c v d hc hr
      obtain ⟨hfault, used', noted', k, he, hk⟩ := (hf v v' hv).fail d x e (hc.of_span hd.span) hx
      refine ⟨hfault, _, _, _, hd.trans he, ?_⟩
      have hfirst := hopens c v d used noted hr hd.span
      rw [braces_append]
      omega

lemma bind {f : α → Reader γ} (h : Unwinds tokens opened V r)
    (hf : ∀ v v', V v v' → Unwinds tokens opened W (f v)) : Unwinds tokens opened W (r >>= f) :=
  h.bind_of_opens (fun _ => 0) (fun _ _ _ _ _ _ _ => Nat.zero_le _) hf

lemma weaken {W : α → δ → Prop} (h : Unwinds tokens opened V r)
    (hvalue : ∀ v v', V v v' → ∃ w, W v w) : Unwinds tokens opened W r where
  ok c v d hc hr := by
    obtain ⟨hforward, v', hv⟩ := h.ok c v d hc hr
    exact ⟨hforward, hvalue v v' hv⟩
  fail := h.fail

lemma acceptIf (set : Kind → Bool) :
    Unwinds tokens opened (fun t t' => t = t' ∧ ∀ u ∈ t, set u.kind = true)
      (Reader.acceptIf set) := by
  refine ⟨fun c v d _ h => ?_, fun c e d _ h => ?_⟩
  · rcases ok_of_acceptIf h with ⟨rfl, rfl⟩ | ⟨t, ts, rfl, hkind, hrest, rfl⟩
    · exact ⟨⟨_, _, .refl d⟩, none, rfl, by simp⟩
    · exact ⟨⟨_, _, .of_span (.advance hrest) rfl⟩, some t, rfl, by simpa using hkind⟩
  · rw [Reader.acceptIf] at h
    split at h
    · exact absurd h (by simp)
    · split at h <;> exact absurd h (by simp)

/-- A failure at the cursor `c`. -/
lemma failed (c : Cursor) {fault : GrammarFault} (hfault : fault.noted = false) :
    (∃ f, f.noted = false ∧ c.errorHere fault = c.errorHere f) ∧
      ∃ used noted k, Forward tokens c c used noted k ∧ k ≤ opened + braces used :=
  ⟨⟨fault, hfault, rfl⟩, _, _, _, .refl c, Nat.zero_le _⟩

lemma expect (kind : Kind) {fault : GrammarFault} (hfault : fault.noted = false) :
    Unwinds tokens opened Eq (Reader.expect kind fault) := by
  refine ⟨fun c v d _ h => ⟨?_, v, rfl⟩, fun c e d _ h => ?_⟩
  · obtain ⟨ts, hrest, -, rfl⟩ := ok_of_expect h
    exact ⟨_, _, .of_span (.advance hrest) rfl⟩
  · obtain ⟨rfl, rfl⟩ := fail_of_expect h
    exact failed d hfault

end Unwinds

/-- The property `Unwinds` of a reader as a relation to any other. -/
def UnwindsBeside (tokens : List Token) {α β : Type} (V : α → β → Prop) (r : Reader α)
    (_ : Reader β) : Prop :=
  Unwinds tokens 0 V r

/-- Whatever is built from readers that unwind, without recovery, `Unwinds`: it has no error at the
end of the text unless it fails. -/
lemma unwinds_closed (tokens : List Token) :
    Closed (fun _ => true) Eq Eq Eq (UnwindsBeside tokens) where
  kind_eq h := congrArg Token.kind h
  literal_eq h := congrArg Token.literal h
  pure hv := Unwinds.pure hv
  bind hr hf := Unwinds.bind hr hf
  exhausted := ⟨fun _ _ _ _ => nofun, fun _ _ _ _ => nofun⟩
  fail hfault := by
    refine ⟨fun _ _ _ _ => nofun, fun c e d _ h => ?_⟩
    obtain ⟨rfl, rfl⟩ := Reply.fail.inj h
    exact Unwinds.failed c hfault
  note hfault := Unwinds.of_ok (fun _ => rfl) (fun c => ⟨_, _, .record c hfault⟩) fun _ => ⟨(), rfl⟩
  noteAt hfault _ :=
    Unwinds.of_ok (fun _ => rfl) (fun c => ⟨_, _, .record c hfault⟩) fun _ => ⟨(), rfl⟩
  here := Unwinds.of_ok (fun _ => rfl) (fun c => ⟨_, _, .refl c⟩) fun c => ⟨c, rfl⟩
  sees _ := Unwinds.of_ok (fun _ => rfl) (fun c => ⟨_, _, .refl c⟩) fun _ => ⟨_, rfl⟩
  atEnd := Unwinds.of_ok (fun _ => rfl) (fun c => ⟨_, _, .refl c⟩) fun _ => ⟨_, rfl⟩
  freshId :=
    Unwinds.of_ok (fun _ => rfl) (fun c => ⟨_, _, .of_span (.freshId c) rfl⟩) fun _ => ⟨_, rfl⟩
  acceptIf _ := (Unwinds.acceptIf _).weaken fun t _ _ => ⟨t, by cases t <;> constructor; rfl⟩
  expect _ hfault := Unwinds.expect _ hfault

/-! ## Recovery -/

namespace Recovers

variable {V : Stmt → Stmt → Prop} {decl : Reader (Option Stmt)} {rest : Reader (List Stmt)}

lemma recovering {r : Reader Stmt} (h : Unwinds tokens 0 V r) :
    Recovers tokens (Option.Rel V) (recovering r) := by
  refine ⟨fun c v d hc hv => ?_, fun c e d hv => ?_⟩
  · rw [Grammar.recovering] at hv
    cases hr : r c with
    | ok s d' =>
      rw [hr] at hv
      obtain ⟨rfl, rfl⟩ := Reply.ok.inj hv
      obtain ⟨⟨used, noted, hforward⟩, s', hs⟩ := h.ok c s d' hc hr
      exact ⟨⟨used, noted, 0, hforward, Nat.zero_le _⟩, some s', .some hs⟩
    | fail e d' =>
      rw [hr] at hv
      obtain ⟨rfl, rfl⟩ := Reply.ok.inj hv
      obtain ⟨⟨fault, hfault, rfl⟩, used, noted, k, hforward, hk⟩ := h.fail c e d' hc hr
      -- The failure itself is one error more, and only at the end of the text does it count there.
      obtain ⟨skipped, l, hskips, hl⟩ := Forward.recover (hc.of_span hforward.span) hfault
      refine ⟨⟨_, _, _, hforward.trans hskips, ?_⟩, none, .none⟩
      rw [braces_append]
      omega
    | exhausted =>
      rw [hr] at hv
      exact absurd hv (by simp)
  · rw [Grammar.recovering] at hv
    cases hr : r c with
    | ok s d' | fail e d' | exhausted =>
      rw [hr] at hv
      exact absurd hv (by simp)

/-- A declaration and the ones behind it.  If there is an error at the end of the text, there is
nothing left to read. -/
lemma cons (hdecl : Recovers tokens (Option.Rel V) decl)
    (hrest : Recovers tokens (List.Forall₂ V) rest)
    (hstays : ∀ c v d, c.rest = [] → rest c = .ok v d → d = c) :
    Recovers tokens (List.Forall₂ V)
      (decl >>= fun first => rest >>= fun more => pure (first.toList ++ more)) := by
  refine ⟨fun c v e hc hv => ?_, fun c x e hv => ?_⟩
  · obtain ⟨first, d, hr, hv⟩ := bind_eq_ok hv
    obtain ⟨more, d', hr', hv⟩ := bind_eq_ok hv
    obtain ⟨rfl, rfl⟩ := Reply.ok.inj hv
    obtain ⟨⟨used, noted, k, hforward, hk⟩, first', hfirst⟩ := hdecl.ok c first d hc hr
    obtain ⟨⟨used', noted', l, hforward', hl⟩, more', hmore⟩ :=
      hrest.ok d more d' (hc.of_span hforward.span) hr'
    refine ⟨?_, first'.toList ++ more', List.rel_append ?_ hmore⟩
    · rcases Nat.eq_zero_or_pos k with rfl | hpos
      · refine ⟨_, _, _, hforward.trans hforward', ?_⟩
        rw [braces_append]
        omega
      · -- The first declaration has failed at the end, so nothing more is read.
        obtain rfl := hstays d more d' (hforward.reached hpos) hr'
        exact ⟨_, _, _, hforward, hk⟩
    · cases hfirst with
      | some hs => exact .cons hs .nil
      | none => exact .nil
  · rcases bind_eq_fail hv with hv | ⟨first, d, -, hv⟩
    · exact hdecl.fail c x e hv
    · rcases bind_eq_fail hv with hv | ⟨more, d', -, hv⟩
      · exact hrest.fail d x e hv
      · exact absurd hv (by simp [pure, Reader.pure])

/-- A `loop` that ends where it stands or goes on with `next`. -/
lemma of_step {loop next : Reader (List Stmt)} (hnext : Recovers tokens (List.Forall₂ V) next)
    (hstep : ∀ c, loop c = .ok [] c ∨ loop c = next c) : Recovers tokens (List.Forall₂ V) loop := by
  refine ⟨fun c v d hc hv => ?_, fun c e d hv => ?_⟩
  · rcases hstep c with hstop | hgoes
    · rw [hstop] at hv
      obtain ⟨rfl, rfl⟩ := Reply.ok.inj hv
      exact ⟨⟨_, _, _, .refl c, Nat.zero_le _⟩, [], .nil⟩
    · rw [hgoes] at hv
      exact hnext.ok c v d hc hv
  · rcases hstep c with hstop | hgoes
    · rw [hstop] at hv
      exact absurd hv (by simp)
    · rw [hgoes] at hv
      exact hnext.fail c e d hv

/-- What has to be closed by a token of the given `kind` does not end with an error at the end of
the text, for there is no such token. -/
lemma closing (h : Recovers tokens (List.Forall₂ V) rest) (kind : Kind) {fault : GrammarFault}
    (hfault : fault.noted = false) :
    Unwinds tokens 1 (List.Forall₂ V)
      (rest >>= fun body => expect kind fault >>= fun _ => pure body) := by
  refine ⟨fun c v e hc hv => ?_, fun c x e hc hx => ?_⟩
  · obtain ⟨body, d, hr, hv⟩ := bind_eq_ok hv
    obtain ⟨t, d', ht, hv⟩ := bind_eq_ok hv
    obtain ⟨rfl, rfl⟩ := Reply.ok.inj hv
    obtain ⟨⟨used, noted, k, hforward, -⟩, hbody⟩ := h.ok c body d hc hr
    obtain ⟨ts, hrest, -, rfl⟩ := ok_of_expect ht
    -- The closing token is next, so the text has not been read to its end.
    have hk : k = 0 := by
      by_contra hpos
      rw [hforward.reached (Nat.pos_of_ne_zero hpos)] at hrest
      exact absurd hrest (by simp)
    subst hk
    exact ⟨⟨_, _, hforward.trans (.of_span (.advance hrest) rfl)⟩, hbody⟩
  · rcases bind_eq_fail hx with hx | ⟨body, d, hr, hx⟩
    · exact absurd hx (h.fail c x e)
    · obtain ⟨⟨used, noted, k, hforward, hk⟩, -⟩ := h.ok c body d hc hr
      rcases bind_eq_fail hx with hx | ⟨t, d', -, hx⟩
      · obtain ⟨rfl, rfl⟩ := fail_of_expect hx
        exact ⟨⟨fault, hfault, rfl⟩, used, noted, k, hforward, hk⟩
      · exact absurd hx (by simp [pure, Reader.pure])

/-- A `loop` over declarations that stops at the end of the text, if it does not stop before. -/
lemma loop {loop : ℕ → Reader (List Stmt)} (stops : Cursor → Bool)
    (hdecl : Recovers tokens (Option.Rel V) decl) (hzero : loop 0 = Reader.exhausted)
    (hsucc : ∀ steps c, loop (steps + 1) c = if stops c then .ok [] c else
      (decl >>= fun first => loop steps >>= fun more => pure (first.toList ++ more)) c)
    (hend : ∀ c, c.rest = [] → stops c = true) (steps : ℕ) :
    Recovers tokens (List.Forall₂ V) (loop steps) := by
  induction steps with
  | zero =>
    rw [hzero]
    exact ⟨fun _ _ _ _ => nofun, fun _ _ _ => nofun⟩
  | succ steps ih =>
    -- At the end of the text the loop stops where it stands.
    have hstays : ∀ c v d, c.rest = [] → loop steps c = .ok v d → d = c := by
      intro c v d hrest h
      cases steps with
      | zero =>
        rw [hzero] at h
        exact absurd h (by simp [Reader.exhausted])
      | succ steps =>
        rw [hsucc, if_pos (hend c hrest)] at h
        exact (Reply.ok.inj h).2.symm
    refine (hdecl.cons ih hstays).of_step fun c => ?_
    rw [hsucc]
    split
    · exact .inl rfl
    · exact .inr rfl

end Recovers

/-! ## The readers of the grammar -/

section

variable {expr : Reader Expr} {stmt : Reader Stmt} {decl : Reader (Option Stmt)}
  (hexpr : UnwindsBeside tokens (Expr.Matches Eq Eq) expr expr)
  (hstmt : UnwindsBeside tokens (Stmt.Matches Eq Eq) stmt stmt)
  (hdecl : Recovers tokens (Option.Rel (Stmt.Matches Eq Eq)) decl)

include hdecl

lemma program_recovers (steps : ℕ) :
    Recovers tokens (List.Forall₂ (Stmt.Matches Eq Eq)) (program decl steps) := by
  refine hdecl.loop Cursor.atEnd rfl (fun steps c => ?_) (fun c hrest => ?_) steps
  · rw [program]
    cases hstop : c.atEnd <;> simp [bind, Reader.bind, Reader.atEnd, hstop, pure, Reader.pure]
  · simp [Cursor.atEnd, hrest]

/-- The errors in a `block`, and one that it may have at the end itself. -/
lemma block_unwinds (steps : ℕ) :
    Unwinds tokens 1 (List.Forall₂ (Stmt.Matches Eq Eq)) (block decl steps) := by
  refine Recovers.closing ?_ .rightBrace rfl
  refine hdecl.loop (fun c => c.sees .rightBrace || c.atEnd) rfl (fun steps c => ?_)
    (fun c hrest => ?_) steps
  · rw [declarations]
    cases hbrace : c.sees .rightBrace <;> cases hstop : c.atEnd <;>
      simp [bind, Reader.bind, Reader.sees, Reader.atEnd, hbrace, hstop, pure, Reader.pure]
  · simp [Cursor.atEnd, hrest]

lemma functionDeclaration_unwinds (steps : ℕ) :
    Unwinds tokens 0 (Stmt.Matches Eq Eq) (functionDeclaration decl steps) := by
  have h := unwinds_closed tokens
  have hitem : UnwindsBeside tokens Eq (expect .identifier .noParameterName)
      (expect .identifier .noParameterName) :=
    h.expect rfl rfl
  refine Unwinds.bind (.expect _ rfl) fun name name' hname =>
    Unwinds.bind (.expect _ rfl) fun _ _ _ => ?_
  refine Unwinds.bind (h.listed rfl rfl hitem (le_refl steps))
    fun parameters parameters' hparameters => ?_
  refine Unwinds.bind (.expect _ rfl) fun _ _ _ => ?_
  refine Unwinds.bind_of_opens (fun _ => 1) (.expect _ rfl) (fun c t d used noted ht hspan => ?_)
    fun _ _ _ => ?_
  · obtain ⟨ts, hrest, hkind, rfl⟩ := ok_of_expect ht
    rw [hspan.used_unique (.advance hrest)]
    simp [braces, hkind]
  · exact (block_unwinds hdecl steps).bind fun body body' hbody =>
      .pure (.function hname hparameters hbody)

include hexpr hstmt

lemma statementWith_unwinds (steps : ℕ) :
    Unwinds tokens 0 (Stmt.Matches Eq Eq) (statementWith expr stmt decl steps) := by
  have h := unwinds_closed tokens
  refine Unwinds.bind_of_opens (fun t => braces t.toList) (.acceptIf leadsStatement)
    (fun c t d used noted ht hspan => ?_) ?_
  · rcases ok_of_acceptIf ht with ⟨rfl, rfl⟩ | ⟨u, us, rfl, -, hrest, rfl⟩
    · exact Nat.zero_le _
    · rw [hspan.used_unique (.advance hrest)]
      rfl
  · rintro (_ | t) _ ⟨rfl, ht⟩
    · exact h.expressionStatement hexpr
    · dsimp only
      split
      · exact (h.forStatement hexpr hstmt).mono (Nat.zero_le _)
      · exact (h.ifStatement hexpr hstmt).mono (Nat.zero_le _)
      · exact (h.printStatement hexpr).mono (Nat.zero_le _)
      · exact (h.returnStatement hexpr rfl).mono (Nat.zero_le _)
      · exact (h.whileStatement hexpr hstmt).mono (Nat.zero_le _)
      · next hfor hif hprint hreturn hwhile =>
        have hkind : t.kind = .leftBrace := by
          have hleads := ht t rfl
          unfold leadsStatement at hleads
          split at hleads <;> simp_all
        -- The brace of the block pays for the error that the block may have itself.
        have hopens : 0 + braces (some t).toList = 1 := by simp [braces, hkind]
        rw [hopens]
        exact (block_unwinds hdecl steps).bind fun body body' hbody => .pure (.block hbody)

lemma declarationWith_unwinds (steps : ℕ) :
    Unwinds tokens 0 (Stmt.Matches Eq Eq) (declarationWith expr stmt decl steps) := by
  have h := unwinds_closed tokens
  refine Unwinds.bind (.acceptIf leadsDeclaration) ?_
  rintro (_ | t) _ ⟨rfl, -⟩
  · exact statementWith_unwinds hexpr hstmt hdecl steps
  · dsimp only
    split
    · exact functionDeclaration_unwinds hdecl steps
    · exact h.variableDeclaration hexpr

end

/-- A `statement` fails without leaving an error at the end of the text behind a success, and a
`declaration` recovers. -/
lemma statement_declaration_unwinds (tokens : List Token) (steps : ℕ) :
    Unwinds tokens 0 (Stmt.Matches Eq Eq) (statement steps) ∧
      Recovers tokens (Option.Rel (Stmt.Matches Eq Eq)) (declaration steps) := by
  induction steps with
  | zero =>
    exact ⟨⟨fun _ _ _ _ => nofun, fun _ _ _ _ => nofun⟩, ⟨fun _ _ _ _ => nofun, fun _ _ _ => nofun⟩⟩
  | succ steps ih =>
    have hexpr : UnwindsBeside tokens (Expr.Matches Eq Eq) (expression steps) (expression steps) :=
      ((unwinds_closed tokens).restrict fun _ _ => rfl).expression (le_refl steps)
    obtain ⟨hstmt, hdecl⟩ := ih
    exact ⟨statementWith_unwinds hexpr hstmt hdecl steps,
      .recovering (declarationWith_unwinds hexpr hstmt hdecl steps)⟩

/-- Reading a program by `parseProgram` is a `Forward` move over the whole text. -/
lemma parseProgram_forward (tokens : List Token) (nextId : NodeId) :
    ∃ d k, Forward tokens (.start tokens nextId) d (textOf tokens)
      (parseProgram tokens nextId).errors k ∧
      d.position = (textOf tokens).length ∧ k ≤ 1 + braces (textOf tokens) := by
  have hlen : (Cursor.start tokens nextId).rest.length ≤ tokens.length := length_textOf_le tokens
  have henough : (Cursor.start tokens nextId).rest.length + 3 ≤ stepsFor tokens := by
    rw [stepsFor]
    omega
  obtain ⟨kept, d, noted, hr, hspan, -, -⟩ :=
    program_ends henough (show _ < stepsFor tokens by omega)
  have hrecovers :=
    program_recovers (statement_declaration_unwinds tokens (stepsFor tokens)).2 (stepsFor tokens)
  obtain ⟨⟨used, noted', k, hforward, hk⟩, -⟩ := hrecovers.ok _ kept d (.start tokens nextId) hr
  obtain rfl : used = textOf tokens := hforward.span.used_unique hspan
  have hnoted : (parseProgram tokens nextId).errors = noted' := by
    rw [parseProgram_of_ok hr]
    exact hforward.span.errors
  rw [hnoted]
  exact ⟨d, k, hforward, hforward.span.position.trans (Nat.zero_add _), hk⟩

/-- Errors with which declarations are given up move forward, and at the end of the input there are
not many.  Take any `tokens`, closed by an end of input if they are not yet (`ended`), and the
errors of this kind that are found in them.  Each stands at the token of its `position`; a later one
does not stand before an earlier one, and both stand at the same token only if that is the first end
of input (`last`).  There are at most as many of them there as braces are opened before it, and one
more. -/
theorem abandoning_errors_move_forward (tokens : List Token) (nextId : NodeId) :
    let errors := (parseProgram tokens nextId).errors.filter fun e => !e.fault.noted
    let last := (ended tokens).findIdx (·.kind = .eof)
    (∀ e ∈ errors, (ended tokens)[e.position]? = some e.token) ∧
      errors.Pairwise (fun e e' => e.position ≤ e'.position ∧
        (e.position = e'.position → e.position = last)) ∧
      errors.countP (·.position = last) ≤
        1 + ((ended tokens).take last).countP (·.kind = .leftBrace) := by
  intro errors last
  obtain ⟨d, k, hforward, hposition, hk⟩ := parseProgram_forward tokens nextId
  have hlast : last = (textOf tokens).length := findIdx_ended tokens
  have hbefore : (ended tokens).take last = textOf tokens := by
    obtain ⟨after, hended⟩ := ended_eq tokens
    rw [hlast, hended, List.take_left]
  rw [hbefore, hlast]
  exact ⟨hforward.found, hforward.pairwise hposition.le,
    (hforward.countP_atEnd hposition.le).trans_le hk⟩

/-- The bound is reached: a sign without an operand, and two blocks that are not closed. -/
example :
    let brace : Token := ⟨.leftBrace, "\x7b", none, 1⟩
    (parseProgram [brace, brace, ⟨.minus, "-", none, 1⟩] 0).errors.map
      (fun e => (e.fault.noted, e.position)) = [(false, 3), (false, 3), (false, 3)] := by
  decide +kernel

end LoxLang.Grammar
