import LoxLang.Proofs.Grammar.Rules
import LoxLang.Proofs.Source.Segments
import LoxLang.Source.Item

/-!
# Sources joined by a line end

Two sources that are joined by a line end are scanned one after the other, if the first does not end
inside a string: the items are those of the first without its end of input, and then those of the
second on later lines.
-/

namespace LoxLang

/-- The same token `n` lines later. -/
def Token.later (n : ℕ) (t : Token) : Token := { t with line := t.line + n }

/-- The same error `n` lines later. -/
def LexicalError.later (n : ℕ) (e : LexicalError) : LexicalError := { e with line := e.line + n }

namespace Source

/-- The same item `n` lines later. -/
def Item.later (n : ℕ) : Item → Item
  | token t => .token (t.later n)
  | error e => .error (e.later n)

lemma Item.token?_later (n : ℕ) (i : Item) : (i.later n).token? = i.token?.map (Token.later n) := by
  cases i <;> rfl

lemma Item.error?_later (n : ℕ) (i : Item) :
    (i.later n).error? = i.error?.map (LexicalError.later n) := by
  cases i <;> rfl

lemma lineEnds_append (cs ds : List Char) : lineEnds (cs ++ ds) = lineEnds cs + lineEnds ds :=
  List.count_append

/-! ## Items -/

lemma itemsFrom_cons (line : ℕ) (s : Segment) (ss : List Segment) :
    itemsFrom line (s :: ss) =
      (s.item? (line + lineEnds s.text)).toList ++ itemsFrom (line + lineEnds s.text) ss := by
  rw [itemsFrom]
  cases s.item? (line + lineEnds s.text) <;> rfl

lemma itemsFrom_ne_nil (line : ℕ) (ss : List Segment) : itemsFrom line ss ≠ [] := by
  induction ss generalizing line with
  | nil => simp [itemsFrom]
  | cons s ss ih =>
    rw [itemsFrom_cons]
    exact List.append_ne_nil_of_right_ne_nil _ (ih _)

lemma itemsFrom_append (line : ℕ) (ss us : List Segment) :
    itemsFrom line (ss ++ us) =
      (itemsFrom line ss).dropLast ++ itemsFrom (line + lineEnds (ss.flatMap Segment.text)) us := by
  induction ss generalizing line with
  | nil => simp [itemsFrom, lineEnds]
  | cons s ss ih =>
    rw [List.cons_append, itemsFrom_cons, itemsFrom_cons, ih, List.flatMap_cons, lineEnds_append,
      List.dropLast_append_of_ne_nil (itemsFrom_ne_nil _ ss), List.append_assoc, Nat.add_assoc]

lemma Segment.item?_later (s : Segment) (line n : ℕ) :
    s.item? (line + n) = (s.item? line).map (Item.later n) := by
  unfold Segment.item?
  cases s.shape <;> rfl

lemma itemsFrom_later (line n : ℕ) (ss : List Segment) :
    itemsFrom (line + n) ss = (itemsFrom line ss).map (Item.later n) := by
  induction ss generalizing line with
  | nil => rfl
  | cons s ss ih =>
    rw [itemsFrom_cons, itemsFrom_cons, Nat.add_right_comm, s.item?_later, ih, List.map_append,
      Option.toList_map]

/-- A string that is `unclosed` is reported as `unterminatedString`. -/
lemma unterminated_of_mem {ss : List Segment} {s : Segment} (hs : s ∈ ss)
    (hshape : s.shape = .unclosed) (line : ℕ) :
    ∃ e ∈ (itemsFrom line ss).filterMap Item.error?, e.fault = .unterminatedString := by
  induction ss generalizing line with
  | nil => exact absurd hs (by simp)
  | cons u ss ih =>
    rw [itemsFrom_cons, List.filterMap_append]
    rcases List.mem_cons.mp hs with rfl | hs
    · refine ⟨⟨.unterminatedString, line + lineEnds s.text⟩, List.mem_append_left _ ?_, rfl⟩
      simp [Segment.item?, hshape, Item.error?]
    · obtain ⟨e, he, hfault⟩ := ih hs (line + lineEnds u.text)
      exact ⟨e, List.mem_append_right _ he, hfault⟩

/-- The `items` of two sources joined by a line end, if `a` leaves no string unclosed (`h`). -/
theorem items_join {a : String} (h : ∀ e ∈ errors a, e.fault ≠ .unterminatedString) (b : String) :
    items (a ++ "\n" ++ b) =
      (items a).dropLast ++ (items b).map (Item.later (1 + lineEnds a.toList)) := by
  have hclosed : ∀ s ∈ segments a.toList, s.shape ≠ .unclosed := by
    intro s hs hshape
    obtain ⟨e, he, hfault⟩ := unterminated_of_mem hs hshape 1
    exact h e he hfault
  have htext : (a ++ "\n" ++ b).toList = a.toList ++ '\n' :: b.toList := by simp
  have hblank : ∀ line ss, itemsFrom line (⟨.blank, ['\n']⟩ :: ss) = itemsFrom (line + 1) ss :=
    fun _ _ => rfl
  rw [items, htext, segments_append_lineEnd hclosed, itemsFrom_append, flatMap_text_segments,
    hblank, items, items, ← itemsFrom_later]
  congr 2
  omega

/-- The `items` end with the end of input, on the last line of the source. -/
lemma items_eq_concat (source : String) :
    items source =
      (items source).dropLast ++ [.token (.endOfInput (1 + lineEnds source.toList))] := by
  have happend := itemsFrom_append 1 (segments source.toList) []
  rwa [List.append_nil, flatMap_text_segments] at happend

/-! ## Errors -/

lemma errors_eq (source : String) :
    errors source = (items source).dropLast.filterMap Item.error? := by
  rw [errors, items_eq_concat, List.filterMap_append, List.dropLast_concat]
  exact List.append_nil _

theorem errors_join {a : String} (h : ∀ e ∈ errors a, e.fault ≠ .unterminatedString) (b : String) :
    errors (a ++ "\n" ++ b) =
      errors a ++ (errors b).map (LexicalError.later (1 + lineEnds a.toList)) := by
  have hb : errors b = (items b).filterMap Item.error? := rfl
  rw [errors, items_join h, List.filterMap_append, ← errors_eq, List.filterMap_map, hb,
    List.map_filterMap]
  exact congrArg _ (List.filterMap_congr fun i _ => i.error?_later _)

/-! ## Tokens

Only the token that closes the items is the end of input, so it is what stands before it that is
read as a program. -/

lemma wordKind_ne_eof (text : List Char) : wordKind text ≠ .eof := by
  have hwords : ∀ w ∈ reservedWords, w.2 ≠ .eof := by decide
  unfold wordKind Kind.ofWord?
  cases hfound : reservedWords.lookup (String.ofList text) with
  | none => simp
  | some kind =>
    obtain ⟨before, after, hsplit, -⟩ := List.lookup_eq_some_iff.mp hfound
    exact hwords (String.ofList text, kind) (by simp [hsplit])

lemma symbol_shape_ne_eof (c : Char) (cs : List Char) : (symbol c cs).shape ≠ .token .eof := by
  have hsingle : single? c ≠ some .eof := by
    unfold single?
    split <;> simp
  have hjoined : ∀ alone joined, withEqual? c = some (alone, joined) →
      alone ≠ .eof ∧ joined ≠ .eof := by
    intro alone joined h
    unfold withEqual? at h
    split at h <;> simp_all
    all_goals
      obtain ⟨rfl, rfl⟩ := h
      decide
  unfold symbol
  split
  · rename_i kind _ hkind
    exact fun h => hsingle (by rw [hkind, Shape.token.inj h])
  · rename_i alone joined _ hpair
    split
    · exact fun h => (hjoined _ _ hpair).2 (Shape.token.inj h)
    · exact fun h => (hjoined _ _ hpair).1 (Shape.token.inj h)
  · exact nofun

lemma cut_shape_ne_eof (c : Char) (cs : List Char) : (cut c cs).shape ≠ .token .eof := by
  unfold cut
  split_ifs
  · exact nofun
  · unfold slash
    split <;> exact nofun
  · rw [quoted_eq]
    split_ifs <;> exact nofun
  · exact nofun
  · exact fun h => wordKind_ne_eof _ (Shape.token.inj h)
  · exact symbol_shape_ne_eof c cs

lemma shape_ne_eof_of_mem {skip : ℕ} {cs : List Char} {s : Segment}
    (hs : s ∈ segmentsAfter skip cs) : s.shape ≠ .token .eof := by
  induction cs generalizing skip with
  | nil => simp [segmentsAfter] at hs
  | cons c cs ih =>
    cases skip with
    | zero =>
      rcases List.mem_cons.mp hs with rfl | hs
      · exact cut_shape_ne_eof c cs
      · exact ih hs
    | succ skip => exact ih hs

/-- The token that a segment yields has the segment's kind and text. -/
lemma Segment.eq_of_token? {s : Segment} {line : ℕ} {i : Item} {t : Token}
    (hi : s.item? line = some i) (ht : i.token? = some t) :
    s.shape = .token t.kind ∧ t = ⟨t.kind, String.ofList s.text, literal? t.kind s.text, line⟩ := by
  unfold Segment.item? at hi
  cases hshape : s.shape with
  | token kind =>
    simp only [hshape] at hi
    cases hi
    cases ht
    exact ⟨rfl, rfl⟩
  | blank | comment => simp [hshape] at hi
  | stray | unclosed =>
    simp only [hshape] at hi
    cases hi
    cases ht

lemma Segment.kind_ne_eof {s : Segment} (hs : s.shape ≠ .token .eof) {line : ℕ}
    {i : Item} {t : Token} (hi : s.item? line = some i) (ht : i.token? = some t) : t.kind ≠ .eof :=
  fun h => hs (h ▸ (Segment.eq_of_token? hi ht).1)

/-- What holds of the token that any of the segments `ss` yields holds of all tokens of
`itemsFrom line ss`. -/
lemma forall_token_of_segments {P : Token → Prop} {ss : List Segment}
    (hss : ∀ s ∈ ss, ∀ line i t, s.item? line = some i → i.token? = some t → P t)
    {line : ℕ} {t : Token} (ht : t ∈ (itemsFrom line ss).dropLast.filterMap Item.token?) : P t := by
  induction ss generalizing line with
  | nil => simp [itemsFrom] at ht
  | cons s ss ih =>
    rw [itemsFrom_cons, List.dropLast_append_of_ne_nil (itemsFrom_ne_nil _ ss),
      List.filterMap_append] at ht
    rcases List.mem_append.mp ht with ht | ht
    · obtain ⟨i, hi, hti⟩ := List.mem_filterMap.mp ht
      exact hss s List.mem_cons_self _ i t (Option.mem_toList.mp hi) hti
    · exact ih (fun u hu => hss u (List.mem_cons_of_mem _ hu)) ht

lemma kind_ne_eof_of_mem {ss : List Segment} (hss : ∀ s ∈ ss, s.shape ≠ .token .eof)
    {line : ℕ} {t : Token} (ht : t ∈ (itemsFrom line ss).dropLast.filterMap Item.token?) :
    t.kind ≠ .eof :=
  forall_token_of_segments (fun s hs _ _ _ hi hti => s.kind_ne_eof (hss s hs) hi hti) ht

lemma textOf_tokens (source : String) :
    Grammar.textOf (tokens source) = (items source).dropLast.filterMap Item.token? := by
  have htext : ∀ t ∈ (items source).dropLast.filterMap Item.token?,
      decide (t.kind ≠ .eof) = true := fun t ht =>
    decide_eq_true (kind_ne_eof_of_mem (fun s hs => shape_ne_eof_of_mem hs) ht)
  rw [tokens, items_eq_concat, List.filterMap_append, List.dropLast_concat, Grammar.textOf,
    List.takeWhile_append_of_pos htext]
  exact List.append_nil _

theorem textOf_join {a : String} (h : ∀ e ∈ errors a, e.fault ≠ .unterminatedString) (b : String) :
    Grammar.textOf (tokens (a ++ "\n" ++ b)) =
      Grammar.textOf (tokens a) ++
        (Grammar.textOf (tokens b)).map (Token.later (1 + lineEnds a.toList)) := by
  have hb : (items b).map (Item.later (1 + lineEnds a.toList)) ≠ [] := fun hnil =>
    itemsFrom_ne_nil 1 _ (List.map_eq_nil_iff.mp hnil)
  rw [textOf_tokens, textOf_tokens, textOf_tokens, items_join h, List.dropLast_append_of_ne_nil hb,
    List.filterMap_append, ← List.map_dropLast, List.filterMap_map, List.map_filterMap]
  exact congrArg _ (List.filterMap_congr fun i _ => i.token?_later _)

/-- Scanning distributes over a line end.  If `errors a` has no unclosed string, the `items` of the
joined text are those of `a` without its end of input, which is the last of them and no other, and
then all items of `b`, as many lines `later` as `a` and the line end take up. -/
theorem items_distribute_over_lineEnd (a b : String)
    (h : ∀ e ∈ errors a, e.fault ≠ .unterminatedString) :
    ∃ before, items a = before ++ [.token (.endOfInput (1 + lineEnds a.toList))] ∧
      (∀ i ∈ before, ∀ t ∈ i.token?, t.kind ≠ .eof) ∧
      items (a ++ "\n" ++ b) = before ++ (items b).map (Item.later (1 + lineEnds a.toList)) := by
  refine ⟨(items a).dropLast, items_eq_concat a, fun i hi t ht => ?_, items_join h b⟩
  exact kind_ne_eof_of_mem (fun _ hs => shape_ne_eof_of_mem hs) (List.mem_filterMap.mpr ⟨i, hi, ht⟩)

/-- The first source ends in a stray character, a number with a point behind it and an open comment;
each of them could go on. -/
theorem items_distribute_behind_comment :
    (∀ e ∈ errors "@ 8.//\"", e.fault ≠ .unterminatedString) ∧
      ∃ before, items "@ 8.//\"" = before ++ [.token (.endOfInput 1)] ∧
        (∀ i ∈ before, ∀ t ∈ i.token?, t.kind ≠ .eof) ∧
        items ("@ 8.//\"" ++ "\n" ++ "5\n\"") = before ++ (items "5\n\"").map (Item.later 1) := by
  have herrors : errors "@ 8.//\"" = [⟨.unexpected '@', 1⟩] := rfl
  have h : ∀ e ∈ errors "@ 8.//\"", e.fault ≠ .unterminatedString := by simp [herrors]
  exact ⟨h, items_distribute_over_lineEnd _ _ h⟩

/-! ## Empty lines -/

/-- A source of `n` empty lines. -/
def emptyLines (n : ℕ) : String := String.ofList (List.replicate n '\n')

lemma emptyLines_succ (n : ℕ) : emptyLines (1 + n) = emptyLines n ++ "\n" := by
  rw [emptyLines, emptyLines, Nat.add_comm, List.replicate_succ', String.ofList_append]

lemma lineEnds_emptyLines (n : ℕ) : lineEnds (emptyLines n).toList = n := by
  simp [emptyLines, lineEnds]

lemma items_emptyLines (n : ℕ) : items (emptyLines n) = [.token (.endOfInput (1 + n))] := by
  have hfrom : ∀ n line,
      itemsFrom line (segments (List.replicate n '\n')) = [.token (.endOfInput (line + n))] := by
    intro n
    induction n with
    | zero => exact fun _ => rfl
    | succ n ih =>
      intro line
      rw [← Nat.add_assoc, Nat.add_right_comm]
      exact ih (line + 1)
  rw [items, emptyLines, String.toList_ofList]
  exact hfrom n 1

/-- Empty lines before a source move its tokens down and change nothing else. -/
lemma textOf_emptyLines (n : ℕ) (source : String) :
    Grammar.textOf (tokens (emptyLines (1 + n) ++ source)) =
      (Grammar.textOf (tokens source)).map (Token.later (1 + n)) := by
  have herrors : ∀ e ∈ errors (emptyLines n), e.fault ≠ .unterminatedString := by
    simp [errors_eq, items_emptyLines]
  rw [emptyLines_succ, textOf_join herrors, lineEnds_emptyLines, textOf_tokens, items_emptyLines]
  rfl

end Source

end LoxLang
