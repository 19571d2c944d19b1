import LoxLang.Proofs.Source.Joining
import LoxLang.Proofs.Source.Longest

/-!
# Sources with identifiers replaced

If some of the identifiers `x` in a source are replaced by the identifier `y`, and nothing else
changes, then the tokens are the same but for the lexemes of the replaced identifiers, on the same
lines, and the lexical errors are the same.
-/

namespace LoxLang

/-- A token that was replaced or not: only an identifier `x` may have become `y`. -/
def Token.Replaced (x y : String) (t t' : Token) : Prop :=
  t' = t ∨ t.kind = .identifier ∧ t.lexeme = x ∧ t' = { t with lexeme := y }

namespace Token.Replaced

variable {x y : String} {t t' : Token}

lemma kind_eq (h : t.Replaced x y t') : t.kind = t'.kind := by
  rcases h with rfl | ⟨-, -, rfl⟩ <;> rfl

lemma literal_eq (h : t.Replaced x y t') : t.literal = t'.literal := by
  rcases h with rfl | ⟨-, -, rfl⟩ <;> rfl

lemma line_eq (h : t.Replaced x y t') : t.line = t'.line := by
  rcases h with rfl | ⟨-, -, rfl⟩ <;> rfl

end Token.Replaced

namespace Source

/-- A segment that was replaced or not, as in `Token.Replaced`. -/
def Segment.Replaced (x y : String) (g g' : Segment) : Prop :=
  g' = g ∨ g = ⟨.token .identifier, x.toList⟩ ∧ g' = ⟨.token .identifier, y.toList⟩

/-- A second source is a first one with some identifiers `x` replaced by the identifier `y`. -/
def Replaced (x y source source' : String) : Prop :=
  List.Forall₂ (Segment.Replaced x y) (segments source.toList) (segments source'.toList)

/-- An item whose token was `Replaced`.  Errors stay as they are. -/
inductive Item.Replaced (x y : String) : Item → Item → Prop where
  | token {t t' : Token} : t.Replaced x y t' → Replaced x y (.token t) (.token t')
  | error (e : LexicalError) : Replaced x y (.error e) (.error e)

variable {x y : String}

/-! ## Identifiers -/

lemma lineEnds_of_isName {text : List Char} (h : IsName text) : lineEnds text = 0 := by
  obtain ⟨c, rest, rfl, hc, hrest⟩ := h
  refine List.count_eq_zero.mpr fun hmem => ?_
  rcases List.mem_cons.mp hmem with rfl | hmem
  · exact absurd hc (by decide)
  · exact absurd (hrest _ hmem) (by decide)

/-- An identifier lies on one line, so replacing it moves no later item. -/
lemma lineEnds_of_identifier {cs text : List Char} (h : ⟨.token .identifier, text⟩ ∈ segments cs) :
    lineEnds text = 0 := by
  have hdecomposes := decomposes_segments cs
  generalize segments cs = ss at h hdecomposes
  induction hdecomposes with
  | done => exact absurd h List.not_mem_nil
  | longest hfits _ _ ih =>
    rcases List.mem_cons.mp h with heq | hmem
    · obtain ⟨rfl, rfl⟩ := Segment.mk.inj heq
      exact lineEnds_of_isName hfits.isName
    · exact ih hmem
  | stray _ _ _ ih =>
    rcases List.mem_cons.mp h with heq | hmem
    · exact absurd (Segment.mk.inj heq).1 Shape.noConfusion
    · exact ih hmem
  | unclosed _ _ => exact absurd (Segment.mk.inj (List.mem_singleton.mp h)).1 Shape.noConfusion

/-! ## Items -/

lemma Item.Replaced.refl (i : Item) : i.Replaced x y i := by
  cases i with
  | token t => exact .token (Or.inl rfl)
  | error e => exact .error e

lemma itemsFrom_replaced {ss ss' : List Segment} (h : List.Forall₂ (Segment.Replaced x y) ss ss')
    (hss : ∀ text, ⟨.token .identifier, text⟩ ∈ ss → lineEnds text = 0)
    (hss' : ∀ text, ⟨.token .identifier, text⟩ ∈ ss' → lineEnds text = 0) (line : ℕ) :
    List.Forall₂ (Item.Replaced x y) (itemsFrom line ss) (itemsFrom line ss') := by
  induction h generalizing line with
  | nil => exact .cons (.token (Or.inl rfl)) .nil
  | @cons g g' ss ss' hg _ ih =>
    have hrest := ih (fun text hmem => hss text (List.mem_cons_of_mem _ hmem)) fun text hmem =>
      hss' text (List.mem_cons_of_mem _ hmem)
    rw [itemsFrom_cons, itemsFrom_cons]
    rcases hg with rfl | ⟨rfl, rfl⟩
    · exact List.rel_append (List.forall₂_same.mpr fun i _ => .refl i) (hrest _)
    · rw [hss _ List.mem_cons_self, hss' _ List.mem_cons_self]
      refine .cons (.token (Or.inr ⟨rfl, String.ofList_toList, ?_⟩)) (hrest _)
      rw [String.ofList_toList]
      rfl

lemma items_replaced {source source' : String} (h : Replaced x y source source') :
    List.Forall₂ (Item.Replaced x y) (items source) (items source') :=
  itemsFrom_replaced h (fun _ => lineEnds_of_identifier) (fun _ => lineEnds_of_identifier) 1

lemma tokens_replaced {source source' : String} (h : Replaced x y source source') :
    List.Forall₂ (Token.Replaced x y) (tokens source) (tokens source') := by
  refine List.rel_filterMap ?_ (items_replaced h)
  rintro _ _ (ht | e)
  · exact .some ht
  · exact .none

lemma errors_of_replaced {source source' : String} (h : Replaced x y source source') :
    errors source = errors source' := by
  have herrors : List.Forall₂ Eq (errors source) (errors source') := by
    refine List.rel_filterMap ?_ (items_replaced h)
    rintro _ _ (ht | e)
    · exact .none
    · exact .some rfl
  exact List.forall₂_eq_eq_eq ▸ herrors

end Source

end LoxLang
