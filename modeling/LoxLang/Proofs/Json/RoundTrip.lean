import LoxLang.Proofs.Json.Leaves

/-!
# Values that are read back

A value that is written, compactly or indented, is read as that value if its numbers are finite.
Both layouts differ in blanks only, which a reader skips; so one rule for each kind of value covers
them.
-/

namespace LoxLang.Json

open Source (isDigit)

namespace Reader

/-! ## Blanks -/

def Blank (gap : List Char) : Prop := ∀ c ∈ gap, isBlank c = true

lemma blank_nil : Blank [] := fun _ hc => absurd hc List.not_mem_nil

lemma skipBlanks_append {gap : List Char} (h : Blank gap) (cs : List Char) :
    skipBlanks (gap ++ cs) = skipBlanks cs :=
  List.dropWhile_append_of_pos h

lemma skipBlanks_cons {c : Char} (h : isBlank c = false) (cs : List Char) :
    skipBlanks (c :: cs) = c :: cs :=
  List.dropWhile_cons_of_neg (by simp [h])

lemma endsNumber_nil : EndsNumber [] := fun _ hc => absurd hc (Option.not_mem_none _)

lemma endsNumber_cons {c : Char} (h : isDigit c = false ∧ c ≠ '.' ∧ c ≠ 'e' ∧ c ≠ 'E')
    (cs : List Char) : EndsNumber (c :: cs) := by
  intro d hd
  obtain rfl : c = d := by simpa using hd
  exact h

lemma Blank.endsNumber_append {gap cs : List Char} (h : Blank gap) (hcs : EndsNumber cs) :
    EndsNumber (gap ++ cs) := by
  cases gap with
  | nil => exact hcs
  | cons c gap =>
    refine endsNumber_cons ?_ (gap ++ cs)
    have hc := h c List.mem_cons_self
    simp only [isBlank, Bool.or_eq_true, decide_eq_true_eq] at hc
    rcases hc with ((rfl | rfl) | rfl) | rfl <;> decide

/-! ## Items in brackets -/

/-- A reader takes `text` for the value `x`, with blanks before it and anything behind it that a
number does not go on into. -/
def Finds {α : Type} (reader : Reader α) (text : List Char) (x : α) : Prop :=
  ∀ gap rest, Blank gap → EndsNumber rest → reader (gap ++ (text ++ rest)) = some (x, rest)

/-- The marks that close `items`. -/
def IsClosing (c : Char) : Prop := c = ']' ∨ c = '}'

namespace IsClosing

variable {c : Char}

lemma isBlank (h : IsClosing c) : isBlank c = false := by
  rcases h with rfl | rfl <;> decide

lemma endsNumber (h : IsClosing c) (cs : List Char) : EndsNumber (c :: cs) := by
  refine endsNumber_cons ?_ cs
  rcases h with rfl | rfl <;> decide

lemma ne_comma (h : IsClosing c) : ',' ≠ c := by
  rcases h with rfl | rfl <;> decide

end IsClosing

section

variable {α : Type} {item : Reader α} {written : α → List Char} {closing : Char}
  {gap tail : List Char} {steps : ℕ}

/-- Items that are read one by one (`hitem`) are read by `items` with commas between them. -/
lemma items_intercalate (hclosing : IsClosing closing) (hgap : Blank gap) (htail : Blank tail)
    (rest : List Char) {x : α} {xs : List α} (hitem : ∀ y ∈ x :: xs, Finds item (written y) y)
    (hsteps : xs.length < steps) {lead : List Char} (hlead : Blank lead) :
    items closing item steps
      (lead ++ ((',' :: gap).intercalate ((x :: xs).map written) ++ (tail ++ closing :: rest))) =
        some (x :: xs, rest) := by
  obtain ⟨steps, rfl⟩ : ∃ n, steps = n + 1 := ⟨steps - 1, by omega⟩
  -- The blanks before the first item are any, as those before the next are the ones behind a comma.
  induction xs generalizing x steps lead with
  | nil =>
    have hends := htail.endsNumber_append (hclosing.endsNumber rest)
    have hfirst := hitem x List.mem_cons_self lead (tail ++ closing :: rest) hlead hends
    simp only [List.map_cons, List.map_nil, List.intercalate_singleton, items, hfirst,
      Option.bind_eq_bind, Option.bind_some, skipBlanks_append htail,
      skipBlanks_cons hclosing.isBlank, if_true, Option.pure_def]
  | cons y ys ih =>
    rw [List.length_cons] at hsteps
    obtain ⟨steps, rfl⟩ : ∃ n, steps = n + 1 := ⟨steps - 1, by omega⟩
    have hfirst := hitem x List.mem_cons_self lead
      (',' :: (gap ++ ((',' :: gap).intercalate ((y :: ys).map written) ++
        (tail ++ closing :: rest)))) hlead
      (endsNumber_cons (by decide) _)
    have hothers := ih (fun z hz => hitem z (List.mem_cons_of_mem x hz)) hgap steps (by omega)
    simp only [List.map_cons, List.intercalate_cons_cons, List.append_assoc, List.cons_append]
      at hfirst hothers ⊢
    rw [items, hfirst]
    simp only [Option.bind_eq_bind, Option.bind_some,
      skipBlanks_cons (show isBlank ',' = false from rfl), if_neg hclosing.ne_comma,
      if_true, hothers, Option.pure_def]

/-- Items that are read one by one are read by `enclosed`, if (`hstuck`) the mark that closes them
is no item. -/
lemma enclosed_intercalate (hclosing : IsClosing closing) (hgap : Blank gap) (htail : Blank tail)
    (rest : List Char) {xs : List α} (hitem : ∀ y ∈ xs, Finds item (written y) y)
    (hstuck : ∀ cs, (skipBlanks cs).head? = some closing → item cs = none)
    (hsteps : xs.length ≤ steps) {lead : List Char} (hlead : Blank lead) :
    enclosed closing item steps
      (lead ++ ((',' :: gap).intercalate (xs.map written) ++ (tail ++ closing :: rest))) =
        some (xs, rest) := by
  cases xs with
  | nil =>
    simp only [List.map_nil, List.intercalate_nil, List.nil_append, enclosed,
      skipBlanks_append hlead, skipBlanks_append htail, skipBlanks_cons hclosing.isBlank,
      List.head?_cons, if_true, List.drop_one, List.tail_cons]
  | cons x xs =>
    have hitems := items_intercalate hclosing hgap htail rest hitem hsteps hlead
    rw [enclosed, if_neg, hitems]
    -- Were the closing mark in front, no first item could have been read.
    intro hmark
    obtain ⟨steps, rfl⟩ : ∃ n, steps = n + 1 :=
      ⟨steps - 1, by rw [List.length_cons] at hsteps; omega⟩
    rw [items, hstuck _ hmark] at hitems
    exact absurd hitems (by simp)

end

/-! ## Values -/

section

variable {steps : ℕ} {gap : List Char} {c : Char}

lemma value_append (hgap : Blank gap) (cs : List Char) :
    value steps (gap ++ cs) = value steps cs := by
  cases steps with
  | zero => rfl
  | succ steps => rw [value, value, skipBlanks_append hgap]

/-- What `number` reads starts with a digit or a minus sign. -/
lemma exists_start_of_number {cs : List Char} {r : Json × List Char} (h : number cs = some r) :
    ∃ c rest, cs = c :: rest ∧ (isDigit c = true ∨ c = '-') := by
  unfold number at h
  split at h
  · exact ⟨_, _, rfl, .inr rfl⟩
  · obtain ⟨c, rest, rfl, hc⟩ := exists_digit_of_unsigned h
    exact ⟨c, rest, rfl, .inl hc⟩

lemma value_of_number {cs : List Char} {r : Json × List Char} (h : number cs = some r) :
    value (steps + 1) cs = some r := by
  obtain ⟨c, cs, rfl, hc⟩ := exists_start_of_number h
  have hmarks : ∀ d ∈ [' ', '\t', '\n', '\r', '[', '{', '"', 'n', 't', 'f'],
      ¬(isDigit d = true ∨ d = '-') := by
    simp [isDigit]
  have hmark := mt (hmarks c) (not_not.mpr hc)
  simp only [List.mem_cons, List.not_mem_nil, or_false, not_or] at hmark
  have hblank : isBlank c = false := by simp [isBlank, hmark]
  rw [value, skipBlanks_cons hblank]
  split <;> simp_all

/-- No `value` starts with a mark that closes items. -/
lemma value_closing (h : IsClosing c) {cs : List Char} (hcs : (skipBlanks cs).head? = some c) :
    value steps cs = none := by
  obtain ⟨rest, hrest⟩ := List.head?_eq_some_iff.mp hcs
  cases steps with
  | zero => rfl
  | succ steps =>
    rw [value, hrest]
    rcases h with rfl | rfl <;> rfl

lemma field_closing (h : IsClosing c) {cs : List Char} (hcs : (skipBlanks cs).head? = some c) :
    field (value steps) cs = none := by
  obtain ⟨rest, hrest⟩ := List.head?_eq_some_iff.mp hcs
  rw [field, hrest]
  rcases h with rfl | rfl <;> rfl

end

/-- A text is read as the value `v`, in as many steps as it has characters. -/
def Reads (text : List Char) (v : Json) : Prop :=
  ∀ steps, text.length ≤ steps → Finds (value steps) text v

section

variable {gap text : List Char}

/-- It is enough that a text without blanks before it is read, in a first step and one step for each
character behind the first. -/
lemma reads_of_value {v : Json} (hne : text ≠ [])
    (h : ∀ steps rest, text.length ≤ steps + 1 → EndsNumber rest →
      value (steps + 1) (text ++ rest) = some (v, rest)) : Reads text v := by
  intro steps hsteps lead rest hlead hrest
  have hpos := List.length_pos_iff.mpr hne
  obtain ⟨steps, rfl⟩ : ∃ n, steps = n + 1 := ⟨steps - 1, by omega⟩
  rw [value_append hlead, h steps rest hsteps hrest]

lemma reads_of_number {v : Json}
    (h : ∀ rest, EndsNumber rest → number (text ++ rest) = some (v, rest)) : Reads text v := by
  refine reads_of_value ?_ fun steps rest _ hrest => value_of_number (h rest hrest)
  obtain ⟨c, rest, htext, -⟩ := exists_start_of_number (h [] endsNumber_nil)
  rw [List.append_nil] at htext
  exact htext ▸ List.cons_ne_nil c rest

lemma reads_quote (s : String) : Reads (quote s).toList (.string s) := by
  refine reads_of_value (by simp [quote]) fun steps rest _ _ => ?_
  have hread := quoted_flatMap_escape s rest
  simp [quote, value, skipBlanks_cons (show isBlank '"' = false from rfl), hread]

lemma finds_field {value : Reader Json} {v : Json} (h : Finds value text v) (key : String)
    (hgap : Blank gap) :
    Finds (field value) ((quote key).toList ++ ':' :: (gap ++ text)) (key, v) := by
  intro lead rest hlead hrest
  have hkey := quoted_flatMap_escape key (':' :: (gap ++ (text ++ rest)))
  simp [field, quote, skipBlanks_append hlead, skipBlanks_cons (show isBlank '"' = false from rfl),
    hkey, skipBlanks_cons (show isBlank ':' = false from rfl), h gap rest hgap hrest]

/-! ## Layouts -/

/-- The `texts` in brackets with commas between them, and blanks anywhere around them. -/
def Lists (opening closing : Char) (texts : List (List Char)) (text : List Char) : Prop :=
  ∃ lead gap tail, Blank lead ∧ Blank gap ∧ Blank tail ∧
    text = opening :: (lead ++ ((',' :: gap).intercalate texts ++ (tail ++ [closing])))

lemma length_le_intercalate (separator : List Char) {texts : List (List Char)} {t : List Char}
    (ht : t ∈ texts) : t.length ≤ (separator.intercalate texts).length := by
  induction texts with
  | nil => exact absurd ht List.not_mem_nil
  | cons first texts ih =>
    cases texts with
    | nil =>
      obtain rfl := List.mem_singleton.mp ht
      rw [List.intercalate_singleton]
    | cons second texts =>
      rw [List.intercalate_cons_cons, List.length_append, List.length_append]
      rcases List.mem_cons.mp ht with rfl | ht
      · omega
      · have hle := ih ht
        omega

lemma length_le_intercalate_comma (gap : List Char) (texts : List (List Char)) :
    texts.length ≤ ((',' :: gap).intercalate texts).length + 1 := by
  induction texts with
  | nil => exact Nat.zero_le _
  | cons first texts ih =>
    cases texts with
    | nil => exact Nat.le_add_left 1 _
    | cons second texts =>
      rw [List.intercalate_cons_cons]
      simp only [List.length_append, List.length_cons] at ih ⊢
      omega

section

variable {α : Type} {written : α → List Char} {opening closing : Char} {xs : List α}
  {item : ℕ → Reader α}

/-- Bracketed items are read if each is read in the steps that are left within the brackets. -/
lemma Lists.enclosed_eq (h : Lists opening closing (xs.map written) text)
    (hclosing : IsClosing closing)
    (hitem : ∀ x ∈ xs, ∀ steps, (written x).length ≤ steps → Finds (item steps) (written x) x)
    (hstuck : ∀ steps cs, (skipBlanks cs).head? = some closing → item steps cs = none) :
    ∃ inner, text = opening :: inner ∧
      ∀ steps rest, inner.length ≤ steps →
        enclosed closing (item steps) steps (inner ++ rest) = some (xs, rest) := by
  obtain ⟨lead, gap, tail, hlead, hgap, htail, rfl⟩ := h
  refine ⟨_, rfl, fun steps rest hsteps => ?_⟩
  simp only [List.length_append, List.length_singleton] at hsteps
  have hcount : xs.length ≤ steps := by
    have hle := length_le_intercalate_comma gap (xs.map written)
    rw [List.length_map] at hle
    omega
  have hfinds : ∀ x ∈ xs, Finds (item steps) (written x) x := by
    intro x hx
    have hle := length_le_intercalate (',' :: gap) (List.mem_map_of_mem (f := written) hx)
    exact hitem x hx steps (by omega)
  have hread := enclosed_intercalate hclosing hgap htail rest hfinds (hstuck steps) hcount hlead
  simpa using hread

end

lemma Lists.reads_array {vs : List Json} {written : Json → List Char}
    (h : Lists '[' ']' (vs.map written) text) (hitem : ∀ v ∈ vs, Reads (written v) v) :
    Reads text (.array vs) := by
  obtain ⟨inner, rfl, hinner⟩ := h.enclosed_eq (.inl rfl) hitem fun _ _ => value_closing (.inl rfl)
  refine reads_of_value (List.cons_ne_nil _ _) fun steps rest hsteps _ => ?_
  have hread := hinner steps rest (by simpa using hsteps)
  simp [value, skipBlanks_cons (show isBlank '[' = false from rfl), hread]

lemma Lists.reads_object {fields : List (String × Json)} (written : Json → List Char)
    (hgap : Blank gap)
    (h : Lists '{' '}' (fields.map fun f => (quote f.1).toList ++ ':' :: (gap ++ written f.2)) text)
    (hitem : ∀ f ∈ fields, Reads (written f.2) f.2) : Reads text (.object fields) := by
  have hfield : ∀ f ∈ fields, ∀ steps,
      ((quote f.1).toList ++ ':' :: (gap ++ written f.2)).length ≤ steps →
      Finds (field (value steps)) ((quote f.1).toList ++ ':' :: (gap ++ written f.2)) f := by
    intro f hf steps hsteps
    simp only [List.length_append, List.length_cons] at hsteps
    exact finds_field (hitem f hf steps (by omega)) f.1 hgap
  obtain ⟨inner, rfl, hinner⟩ := h.enclosed_eq (.inr rfl) hfield fun _ _ => field_closing (.inr rfl)
  refine reads_of_value (List.cons_ne_nil _ _) fun steps rest hsteps _ => ?_
  have hread := hinner steps rest (by simpa using hsteps)
  simp [value, skipBlanks_cons (show isBlank '{' = false from rfl), hread]

end

end Reader

/-! ## Writing and reading -/

open Reader

/-- The values whose numbers are all finite. -/
inductive Finite : Json → Prop where
  | null : Finite null
  | bool (b : Bool) : Finite (bool b)
  | whole (n : ℕ) : Finite (whole n)
  | number {x : Float} : x.isFinite = true → Finite (number x)
  | string (s : String) : Finite (string s)
  | array {vs : List Json} : (∀ v ∈ vs, Finite v) → Finite (array vs)
  | object {fields : List (String × Json)} : (∀ f ∈ fields, Finite f.2) → Finite (object fields)

lemma reads_null : Reads "null".toList null := reads_of_value (by decide) fun _ _ _ _ => rfl

lemma reads_bool (b : Bool) : Reads (if b then "true" else "false").toList (bool b) := by
  refine reads_of_value (by cases b <;> decide) fun steps rest _ _ => ?_
  cases b <;> rfl

lemma reads_whole (n : ℕ) : Reads n.repr.toList (whole n) := reads_of_number fun _ => number_repr n

lemma reads_number {x : Float} (hx : x.isFinite = true) :
    Reads (layout.write x).toList (number x) :=
  reads_of_number fun _ => number_write hx

lemma compactItems_eq_map (vs : List Json) : compactItems vs = vs.map compact := by
  induction vs with
  | nil => rfl
  | cons v vs ih => rw [compactItems, ih, List.map_cons]

lemma compactFields_eq_map (fields : List (String × Json)) :
    compactFields fields = fields.map fun f => quote f.1 ++ ":" ++ f.2.compact := by
  induction fields with
  | nil => rfl
  | cons f fields ih => rw [compactFields, ih, List.map_cons]

lemma prettyItems_eq_map (depth : ℕ) (vs : List Json) :
    prettyItems depth vs = vs.map (prettyAt depth) := by
  induction vs with
  | nil => rfl
  | cons v vs ih => rw [prettyItems, ih, List.map_cons]

lemma prettyFields_eq_map (depth : ℕ) (fields : List (String × Json)) :
    prettyFields depth fields = fields.map fun f => quote f.1 ++ ": " ++ f.2.prettyAt depth := by
  induction fields with
  | nil => rfl
  | cons f fields ih => rw [prettyFields, ih, List.map_cons]

lemma lists_compact (opening closing : Char) (texts : List String) :
    Lists opening closing (texts.map String.toList)
      (opening :: ((",".intercalate texts).toList ++ [closing])) :=
  ⟨[], [], [], blank_nil, blank_nil, blank_nil, by simp [String.toList_intercalate]⟩

/-- What is written by `compact` is read. -/
lemma reads_compact {v : Json} (h : v.Finite) : Reads v.compact.toList v := by
  induction h with
  | null => exact reads_null
  | bool b => exact reads_bool b
  | whole n => exact reads_whole n
  | number hx => exact reads_number hx
  | string s => exact reads_quote s
  | @array vs h ih =>
    have hlists : Lists '[' ']' (vs.map fun v => v.compact.toList) (array vs).compact.toList := by
      simpa [compact, compactItems_eq_map, Function.comp_def] using lists_compact '[' ']'
        (compactItems vs)
    exact hlists.reads_array ih
  | @object fields h ih =>
    have hlists :
        Lists '{' '}' (fields.map fun f => (quote f.1).toList ++ ':' :: ([] ++ f.2.compact.toList))
        (object fields).compact.toList := by
      simpa [compact, compactFields_eq_map, Function.comp_def] using lists_compact '{' '}'
        (compactFields fields)
    exact hlists.reads_object (fun v => v.compact.toList) blank_nil ih

lemma blank_breakLine (depth : ℕ) : Blank (breakLine depth).toList := by
  intro c hc
  simp only [breakLine, String.toList_append, String.toList_ofList, List.mem_append,
    List.mem_replicate] at hc
  rcases hc with hc | ⟨-, rfl⟩
  · obtain rfl : c = '\n' := by simpa using hc
    rfl
  · rfl

lemma lists_bracketed (opening closing : Char) (depth : ℕ) (texts : List String) :
    Lists opening closing (texts.map String.toList)
      (bracketed (String.singleton opening) (String.singleton closing) depth texts).toList := by
  cases texts with
  | nil => exact ⟨[], [], [], blank_nil, blank_nil, blank_nil, by simp [bracketed]⟩
  | cons text texts =>
    refine ⟨_, _, _, blank_breakLine (depth + 1), blank_breakLine (depth + 1),
      blank_breakLine depth, ?_⟩
    simp [bracketed, String.toList_intercalate]

/-- What is written by `prettyAt`, with any indentation, is read. -/
lemma reads_prettyAt {v : Json} (h : v.Finite) (depth : ℕ) : Reads (v.prettyAt depth).toList v := by
  induction h generalizing depth with
  | null => exact reads_null
  | bool b => exact reads_bool b
  | whole n => exact reads_whole n
  | number hx => exact reads_number hx
  | string s => exact reads_quote s
  | @array vs h ih =>
    -- The line breaks of the layout are blanks around the items.
    have hlists : Lists '[' ']' (vs.map fun v => (v.prettyAt (depth + 1)).toList)
        ((array vs).prettyAt depth).toList := by
      simpa [prettyAt, prettyItems_eq_map, Function.comp_def] using lists_bracketed '[' ']' depth
        (prettyItems (depth + 1) vs)
    exact hlists.reads_array fun v hv => ih v hv (depth + 1)
  | @object fields h ih =>
    have hlists : Lists '{' '}' (fields.map fun f => (quote f.1).toList ++
        ':' :: ([' '] ++ (f.2.prettyAt (depth + 1)).toList))
          ((object fields).prettyAt depth).toList := by
      simpa [prettyAt, prettyFields_eq_map, Function.comp_def] using lists_bracketed '{' '}' depth
        (prettyFields (depth + 1) fields)
    exact hlists.reads_object (fun v => (v.prettyAt (depth + 1)).toList) (by simp [Blank, isBlank])
      fun f hf => ih f hf (depth + 1)

lemma reads_pretty {v : Json} (h : v.Finite) : Reads v.pretty.toList v := reads_prettyAt h 0

/-- A text that is read is read as a whole by `read?`, also with `blanks` behind it. -/
lemma read?_of_reads {text : String} {v : Json} (h : Reads text.toList v) (blanks : String)
    (hblanks : Blank blanks.toList) : read? (text ++ blanks) = some v := by
  have hsteps : text.toList.length ≤ (text ++ blanks).length := by
    rw [String.length_toList, String.length_append]
    exact Nat.le_add_right _ _
  have hends : EndsNumber blanks.toList :=
    List.append_nil blanks.toList ▸ hblanks.endsNumber_append endsNumber_nil
  have hvalue := h _ hsteps [] blanks.toList blank_nil hends
  have hskip : skipBlanks blanks.toList = [] :=
    List.append_nil blanks.toList ▸ skipBlanks_append hblanks []
  rw [List.nil_append] at hvalue
  simp only [read?, String.toList_append, hvalue, Option.bind_eq_bind, Option.bind_some, hskip,
    List.isEmpty_nil, if_true, Option.pure_def]

lemma read?_compact {v : Json} (h : v.Finite) : read? v.compact = some v := by
  simpa using read?_of_reads (reads_compact h) "" blank_nil

lemma read?_pretty {v : Json} (h : v.Finite) : read? v.pretty = some v := by
  simpa using read?_of_reads (reads_pretty h) "" blank_nil

example : read? " [ true,\r\n\t\x7b \"\\u0061\" : 10 \x7d ,[ ]]\n" =
    some (array [bool true, object [("a", whole 10)], array []]) := rfl

example : ["", "[1,]", "01", "1.", "\"\n\"", "nul", "1 2"].all fun text => (read? text).isNone := by
  decide

end LoxLang.Json
