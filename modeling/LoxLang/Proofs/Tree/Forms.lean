import LoxLang.Proofs.Lists
import LoxLang.Tree.Text

/-!
# Forms and their texts

The text of a tree is a form: a word, or a list of forms in parentheses with blanks between them.
Words have neither blanks nor parentheses in them, so a form can be read off its text, whatever
follows it that does not go on with a word.
-/

namespace LoxLang

/-! ## Forms -/

inductive Form where
  | word (text : String)
  | list (parts : List Form)

namespace Form

mutual

def text : Form → List Char
  | word w => w.toList
  | list parts => '(' :: ((spaced parts).tail ++ [')'])

/-- The texts of forms with a blank before each of them. -/
def spaced : List Form → List Char
  | [] => []
  | f :: rest => ' ' :: (f.text ++ spaced rest)

end

lemma intercalate_text (fs : List Form) : [' '].intercalate (fs.map text) = (spaced fs).tail := by
  induction fs with
  | nil => rfl
  | cons f rest ih =>
    cases rest with
    | nil => simp [spaced]
    | cons g rest =>
      rw [List.map_cons, List.map_cons, List.intercalate_cons_cons, ← List.map_cons, ih]
      simp [spaced]

/-- The `parenthesized` words are a list, if the words are the texts of its parts `fs`. -/
lemma toList_parenthesized {words : List String} {fs : List Form}
    (h : words.map String.toList = fs.map text) :
    (parenthesized words).toList = (list fs).text := by
  rw [parenthesized, String.toList_append, String.toList_append, String.toList_intercalate, h,
    text, ← intercalate_text]
  rfl

/-! ## Reading a form off its text -/

/-- Characters that belong to a word. -/
def isWordPart (c : Char) : Bool := c ∉ [' ', '(', ')']

/-- A word that can be told from what stands around it. -/
def IsWord (w : String) : Prop := w.toList ≠ [] ∧ w.toList.all isWordPart = true

instance (w : String) : Decidable (IsWord w) := inferInstanceAs (Decidable (_ ∧ _))

/-- All words of a form are `IsWord`, so that they can be told from what stands around them. -/
inductive Proper : Form → Prop where
  | word {w : String} : IsWord w → Proper (word w)
  | list {parts : List Form} : (∀ f ∈ parts, Proper f) → Proper (list parts)

lemma Proper.headed {w : String} {parts : List Form} (hw : IsWord w)
    (hparts : ∀ f ∈ parts, f.Proper) :
    (Form.list (Form.word w :: parts)).Proper := .list (List.forall_mem_cons.mpr ⟨.word hw, hparts⟩)

/-- A text `cs` that does not go on with a word. -/
def Stops (cs : List Char) : Prop := ∀ c ∈ cs.head?, c = ' ' ∨ c = ')'

lemma stops_spaced (fs : List Form) (r : List Char) : Stops (spaced fs ++ ')' :: r) := by
  cases fs with
  | nil => exact fun c hc => .inr (Option.some.inj hc).symm
  | cons f rest => exact fun c hc => .inl (Option.some.inj hc).symm

/-- A character of a class `p` without blanks and parentheses belongs to a word. -/
lemma isWordPart_of_class {p : Char → Bool} {c : Char} (hc : p c = true)
    (hp : [' ', '(', ')'].any p = false) :
    isWordPart c = true := decide_eq_true fun hmem => List.any_eq_false.mp hp c hmem hc

/-- A word is over where a text `Stops`. -/
lemma IsWord.append_inj {w w' : String} (hw : IsWord w) (hw' : IsWord w') {r r' : List Char}
    (hr : Stops r) (hr' : Stops r') (h : w.toList ++ r = w'.toList ++ r') : w = w' ∧ r = r' := by
  have hrun : ∀ {w : String}, IsWord w → ∀ {r : List Char}, Stops r →
      (w.toList ++ r).takeWhile isWordPart = w.toList := by
    intro w hw r hr
    rw [List.takeWhile_append_of_pos (List.all_eq_true.mp hw.2)]
    cases r with
    | nil => simp
    | cons c r =>
      have hc : ¬ isWordPart c = true := by
        rcases hr c rfl with rfl | rfl <;> decide
      rw [List.takeWhile_cons_of_neg hc, List.append_nil]
  obtain rfl : w = w' := String.toList_injective (by rw [← hrun hw hr, h, hrun hw' hr'])
  exact ⟨rfl, List.append_cancel_left h⟩

/-- A word does not start with a character `c` that belongs to no word. -/
lemma IsWord.ne_cons {w : String} (hw : IsWord w) {c : Char} (hc : isWordPart c = false)
    (rest r : List Char) : w.toList ++ r ≠ c :: rest := by
  obtain ⟨d, cs, hd⟩ := List.exists_cons_of_ne_nil hw.1
  intro heq
  have hpart := List.all_eq_true.mp hw.2 d (by simp [hd])
  rw [hd] at heq
  rw [(List.cons.inj heq).1, hc] at hpart
  exact Bool.false_ne_true hpart

lemma Proper.ne_close {f : Form} (h : f.Proper) (rest r : List Char) :
    f.text ++ r ≠ ')' :: rest := by
  cases h with
  | word hw => exact hw.ne_cons rfl rest r
  | list _ => exact fun heq => absurd (List.cons.inj heq).1 (by decide)

/-- The blank before the first part can be put back. -/
lemma spaced_append_of_tail {fs gs : List Form} (hfs : ∀ f ∈ fs, f.Proper)
    (hgs : ∀ g ∈ gs, g.Proper) {r r' : List Char}
    (h : (spaced fs).tail ++ ')' :: r = (spaced gs).tail ++ ')' :: r') :
    spaced fs ++ ')' :: r = spaced gs ++ ')' :: r' := by
  cases fs with
  | nil =>
    cases gs with
    | nil => exact h
    | cons g gs =>
      have hclose : g.text ++ (spaced gs ++ ')' :: r') = ')' :: r := by simpa [spaced] using h.symm
      exact absurd hclose ((hgs g List.mem_cons_self).ne_close _ _)
  | cons f fs =>
    cases gs with
    | nil =>
      have hclose : f.text ++ (spaced fs ++ ')' :: r) = ')' :: r' := by simpa [spaced] using h
      exact absurd hclose ((hfs f List.mem_cons_self).ne_close _ _)
    | cons g gs => exact congrArg (' ' :: ·) h

mutual

/-- Two `Proper` forms are equal, and so is what follows them, if the texts are. -/
lemma text_append_inj (f : Form) {g : Form} (hf : f.Proper) (hg : g.Proper) {r r' : List Char}
    (hr : Stops r) (hr' : Stops r') (h : f.text ++ r = g.text ++ r') : f = g ∧ r = r' := by
  cases f with
  | word w =>
    obtain ⟨hw⟩ := hf
    cases g with
    | word w' =>
      obtain ⟨hw'⟩ := hg
      obtain ⟨rfl, rfl⟩ := hw.append_inj hw' hr hr' h
      exact ⟨rfl, rfl⟩
    -- A word does not start with a parenthesis, and a list does.
    | list qs => exact absurd h (hw.ne_cons rfl _ _)
  | list ps =>
    obtain - | ⟨hps⟩ := hf
    cases g with
    | word w' =>
      obtain ⟨hw'⟩ := hg
      exact absurd h.symm (hw'.ne_cons rfl _ _)
    | list qs =>
      obtain - | ⟨hqs⟩ := hg
      have hrest : (spaced ps).tail ++ ')' :: r = (spaced qs).tail ++ ')' :: r' := by
        simpa [text] using h
      obtain ⟨rfl, rfl⟩ := spaced_append_inj ps hps hqs (spaced_append_of_tail hps hqs hrest)
      exact ⟨rfl, rfl⟩
termination_by structural f

lemma spaced_append_inj (fs : List Form) {gs : List Form} (hfs : ∀ f ∈ fs, f.Proper)
    (hgs : ∀ g ∈ gs, g.Proper) {r r' : List Char}
    (h : spaced fs ++ ')' :: r = spaced gs ++ ')' :: r') : fs = gs ∧ r = r' := by
  cases fs with
  | nil =>
    cases gs with
    | nil => exact ⟨rfl, (List.cons.inj h).2⟩
    | cons g gs => exact absurd (List.cons.inj h).1 (by decide)
  | cons f fs =>
    cases gs with
    | nil => exact absurd (List.cons.inj h).1 (by decide)
    | cons g gs =>
      rw [List.forall_mem_cons] at hfs hgs
      have hrest : f.text ++ (spaced fs ++ ')' :: r) = g.text ++ (spaced gs ++ ')' :: r') := by
        simpa [spaced] using h
      obtain ⟨rfl, hlater⟩ :=
        text_append_inj f hfs.1 hgs.1 (stops_spaced fs r) (stops_spaced gs r') hrest
      obtain ⟨rfl, rfl⟩ := spaced_append_inj fs hfs.2 hgs.2 hlater
      exact ⟨rfl, rfl⟩
termination_by structural fs

end

/-- Forms that are `Proper` and of the same `text` are the same. -/
lemma text_inj {f g : Form} (hf : f.Proper) (hg : g.Proper) (h : f.text = g.text) : f = g := by
  have hnil : Stops [] := fun c hc => absurd hc (by simp)
  exact (text_append_inj f hf hg hnil hnil (by rw [h])).1

end Form

/-! ## Trees as forms -/

mutual

def Expr.form : Expr → Form
  | .literal value => .word value.text
  | .grouping inner => .list [.word "group", inner.form]
  | .unary operator right => .list [.word operator.lexeme, right.form]
  | .binary left operator right => .list [.word operator.lexeme, left.form, right.form]
  | .logical left operator right => .list [.word operator.lexeme, left.form, right.form]
  | .read _ name => .word name.lexeme
  | .assign _ name value => .list [.word "=", .word name.lexeme, value.form]
  | .call callee _ arguments => .list (.word "call" :: callee.form :: Expr.forms arguments)

def Expr.forms : List Expr → List Form
  | [] => []
  | e :: rest => e.form :: Expr.forms rest

end

mutual

def Stmt.form : Stmt → Form
  | .expression e => .list [.word ";", e.form]
  | .print e => .list [.word "print", e.form]
  | .var name initializer =>
    .list (.word "var" :: .word name.lexeme :: (initializer.map Expr.form).toList)
  | .block body => .list (.word "block" :: Stmt.forms body)
  | .branch condition thenBranch elseBranch =>
    .list (.word "if" :: condition.form :: thenBranch.form :: Stmt.optionalForms elseBranch)
  | .loop condition body => .list [.word "while", condition.form, body.form]
  | .function name parameters body =>
    .list (.word "fun" :: .word name.lexeme :: .list (parameters.map fun p => .word p.lexeme) ::
      Stmt.forms body)
  | .ret _ value => .list (.word "return" :: (value.map Expr.form).toList)

def Stmt.forms : List Stmt → List Form
  | [] => []
  | s :: rest => s.form :: Stmt.forms rest

def Stmt.optionalForms : Option Stmt → List Form
  | none => []
  | some s => [s.form]

end

lemma Expr.forms_eq_map (es : List Expr) : Expr.forms es = es.map Expr.form := by
  induction es with
  | nil => rfl
  | cons e rest ih => rw [Expr.forms, ih, List.map_cons]

lemma Stmt.forms_eq_map (ss : List Stmt) : Stmt.forms ss = ss.map Stmt.form := by
  induction ss with
  | nil => rfl
  | cons s rest ih => rw [Stmt.forms, ih, List.map_cons]

lemma Stmt.optionalForms_eq_toList (s : Option Stmt) :
    Stmt.optionalForms s = (s.map Stmt.form).toList := by
  cases s <;> rfl

mutual

/-- The `text` of an expression is that of its `form`. -/
lemma Expr.toList_text (e : Expr) : e.text.toList = e.form.text := by
  cases e with
  | literal | read => rfl
  | grouping inner | unary _ inner =>
    refine Form.toList_parenthesized ?_
    simp only [List.map_cons, List.map_nil, Expr.toList_text inner, Form.text]
  | binary left _ right | logical left _ right =>
    refine Form.toList_parenthesized ?_
    simp only [List.map_cons, List.map_nil, Expr.toList_text left,
      Expr.toList_text right, Form.text]
  | assign _ _ value =>
    refine Form.toList_parenthesized ?_
    simp only [List.map_cons, List.map_nil, Expr.toList_text value, Form.text]
  | call callee _ arguments =>
    refine Form.toList_parenthesized ?_
    simp only [List.map_cons, Expr.toList_text callee, Expr.map_toList_texts arguments, Form.text]
termination_by structural e

lemma Expr.map_toList_texts (es : List Expr) :
    (Expr.texts es).map String.toList = (Expr.forms es).map Form.text := by
  cases es with
  | nil => rfl
  | cons e rest =>
    rw [Expr.texts, Expr.forms, List.map_cons, List.map_cons, e.toList_text,
      Expr.map_toList_texts rest]
termination_by structural es

end

lemma Expr.map_toList_optional (e : Option Expr) :
    (e.map Expr.text).toList.map String.toList = (e.map Expr.form).toList.map Form.text := by
  cases e with
  | none => rfl
  | some e => exact congrArg (fun text => [text]) e.toList_text

mutual

/-- The `text` of a statement is that of its `form`. -/
lemma Stmt.toList_text (s : Stmt) : s.text.toList = s.form.text := by
  cases s with
  | expression e | print e =>
    refine Form.toList_parenthesized ?_
    simp only [List.map_cons, List.map_nil, e.toList_text, Form.text]
  | var name value | ret name value =>
    refine Form.toList_parenthesized ?_
    simp only [List.map_cons, Expr.map_toList_optional value, Form.text]
  | block body =>
    refine Form.toList_parenthesized ?_
    simp only [List.map_cons, Stmt.map_toList_texts body, Form.text]
  | branch condition thenBranch elseBranch =>
    refine Form.toList_parenthesized ?_
    simp only [List.map_cons, condition.toList_text, Stmt.toList_text thenBranch,
      Stmt.map_toList_optional elseBranch, Form.text]
  | loop condition body =>
    refine Form.toList_parenthesized ?_
    simp only [List.map_cons, List.map_nil, condition.toList_text, Stmt.toList_text body, Form.text]
  | function name parameters body =>
    have hparameters : (parenthesized (parameters.map Token.lexeme)).toList =
        (Form.list (parameters.map fun p => .word p.lexeme)).text := by
      refine Form.toList_parenthesized ?_
      rw [List.map_map, List.map_map]
      rfl
    refine Form.toList_parenthesized ?_
    rw [List.map_cons, List.map_cons, List.map_cons, hparameters, Stmt.map_toList_texts body]
    rfl
termination_by structural s

lemma Stmt.map_toList_texts (ss : List Stmt) :
    (Stmt.texts ss).map String.toList = (Stmt.forms ss).map Form.text := by
  cases ss with
  | nil => rfl
  | cons s rest =>
    rw [Stmt.texts, Stmt.forms, List.map_cons, List.map_cons, s.toList_text,
      Stmt.map_toList_texts rest]
termination_by structural ss

lemma Stmt.map_toList_optional (s : Option Stmt) :
    (Stmt.optionalTexts s).map String.toList = (Stmt.optionalForms s).map Form.text := by
  cases s with
  | none => rfl
  | some s => exact congrArg (fun text => [text]) s.toList_text
termination_by structural s

end

end LoxLang
