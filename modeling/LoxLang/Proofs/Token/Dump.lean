import LoxLang.Command.Perform
import LoxLang.Proofs.Json.RoundTrip
import LoxLang.Proofs.Source.Layout

/-!
# Tokens that are read back from their dump

The dump of a source's tokens is read as one object for each of them, in order, and an object has
all that its token is made of.  Only a number without a finite value is not written as itself: it is
null.  As digits stand for no infinity but the positive one, null stands for that.
-/

namespace LoxLang

/-! ## Tokens from objects -/

/-- The value of an object under `name`. -/
def Json.field? (name : String) : Json → Option Json
  | .object fields => fields.lookup name
  | _ => none

/-- The literal that a value stands for, with `null` for the infinity. -/
def Literal.ofJson? : Json → Option Literal
  | .number x => some (.number x)
  | .string s => some (.string s)
  | .null => some (.number Decimal.infinity)
  | _ => none

/-- The token that an object stands for; a literal may be missing. -/
def Token.ofJson? (o : Json) : Option Token :=
  match o.field? "type", o.field? "lexeme", o.field? "line" with
  | some (.string name), some (.string lexeme), some (.whole line) => do
    let kind ← Kind.ofName? name
    match o.field? "literal" with
    | none => return ⟨kind, lexeme, none, line⟩
    | some v => return ⟨kind, lexeme, some (← Literal.ofJson? v), line⟩
  | _, _, _ => none

/-- A literal and the value that is recorded for it, if there are any. -/
inductive Literal.Recorded : Option Literal → Option Json → Prop where
  | missing : Recorded none none
  | string (s : String) : Recorded (some (.string s)) (some (.string s))
  | finite {x : Float} : x.isFinite = true → Recorded (some (.number x)) (some (.number x))
  | infinite : Recorded (some (.number Decimal.infinity)) (some .null)

/-- A token and the object that is recorded for it, field by field. -/
structure Token.Recorded (t : Token) (o : Json) : Prop where
  type : o.field? "type" = some (.string t.kind.name)
  lexeme : o.field? "lexeme" = some (.string t.lexeme)
  literal : Literal.Recorded t.literal (o.field? "literal")
  line : o.field? "line" = some (.whole t.line)

lemma Kind.ofName?_name (k : Kind) : ofName? k.name = some k := by
  cases k <;> decide

/-- A token is found by `ofJson?` from the object that is recorded for it. -/
lemma Token.Recorded.ofJson?_eq {t : Token} {o : Json} (h : t.Recorded o) : ofJson? o = some t := by
  obtain ⟨kind, lexeme, literal, line⟩ := t
  have hliteral := h.literal
  simp only [ofJson?, h.type, h.lexeme, h.line, Kind.ofName?_name, Option.bind_eq_bind,
    Option.bind_some]
  generalize o.field? "literal" = v at hliteral
  cases hliteral <;> rfl

lemma Token.Recorded.unique {t t' : Token} {o : Json} (h : t.Recorded o) (h' : t'.Recorded o) :
    t = t' :=
  Option.some.inj (h.ofJson?_eq.symm.trans h'.ofJson?_eq)

/-! ## Literals of scanned tokens -/

/-- The rational that digits with an optional fraction stand for. -/
def Source.rationalValue (text : List Char) : ℚ :=
  let fraction := (text.dropWhile isDigit).drop 1
  digitsValue (text.takeWhile isDigit ++ fraction) / 10 ^ fraction.length

lemma Source.isNearest_numberValue (text : List Char) :
    Decimal.IsNearest (rationalValue text) (numberValue text) := by
  have hnearest := Decimal.isNearest_ofScientific
    (digitsValue (text.takeWhile isDigit ++ (text.dropWhile isDigit).drop 1))
    (-((text.dropWhile isDigit).drop 1).length)
  rw [zpow_neg, zpow_natCast, ← div_eq_mul_inv] at hnearest
  exact hnearest

/-- A number that is scanned is finite below `Decimal.limit` and the positive infinity from there
on. -/
lemma Source.numberValue_cases (text : List Char) :
    (rationalValue text < Decimal.limit ∧ (numberValue text).isFinite = true) ∨
    Decimal.limit ≤ rationalValue text ∧ numberValue text = Decimal.infinity := by
  rcases (isNearest_numberValue text).finite_or_infinite with ⟨hlt, m, e, hfinite⟩
    | ⟨hle, hinfinite⟩
  · exact .inl ⟨hlt, Decimal.isFinite_iff.mpr ⟨false, m, e, hfinite⟩⟩
  · exact .inr ⟨hle, Decimal.eq_infinity hinfinite⟩

/-- What is dumped for the `literal?` of a scanned token, and where it is `null`. -/
lemma Source.recorded_literal? (kind : Kind) (text : List Char) :
    Literal.Recorded (literal? kind text) ((literal? kind text).map Literal.toJson) ∧
      ((literal? kind text).map Literal.toJson = some .null ↔ kind = .number ∧
        Decimal.limit ≤ rationalValue text) := by
  unfold literal?
  split
  · rw [Option.map_some, Literal.toJson]
    rcases numberValue_cases text with ⟨hlt, hfinite⟩ | ⟨hle, hinfinite⟩
    · rw [if_pos hfinite]
      exact ⟨.finite hfinite, by simp [hlt]⟩
    · rw [hinfinite, Decimal.isFinite_infinity, if_neg Bool.false_ne_true]
      exact ⟨.infinite, by simp [hle]⟩
  · exact ⟨.string _, by simp [Literal.toJson]⟩
  · exact ⟨.missing, by simp_all⟩

/-- The literal of every token of a source is the `literal?` of its lexeme. -/
lemma Source.literal_of_mem_tokens {source : String} {t : Token} (ht : t ∈ tokens source) :
    t.literal = literal? t.kind t.lexeme.toList := by
  rw [tokens_eq_concat] at ht
  rcases List.mem_append.mp ht with ht | ht
  · exact (scanned_of_mem ht).literal
  · obtain rfl := List.mem_singleton.mp ht
    rfl

/-! ## Dumps -/

lemma Literal.finite_toJson (l : Literal) : l.toJson.Finite := by
  cases l with
  | number x =>
    rw [toJson]
    split_ifs with hfinite
    · exact .number hfinite
    · exact .null
  | string s => exact .string s

lemma Token.finite_toJson (t : Token) : t.toJson.Finite := by
  refine .object fun f hf => ?_
  simp only [List.mem_append, List.mem_cons, List.not_mem_nil, or_false, Option.mem_toList,
    Option.map_eq_some_iff] at hf
  rcases hf with ((rfl | rfl) | ⟨l, -, rfl⟩) | rfl
  · exact .string _
  · exact .string _
  · exact l.finite_toJson
  · exact .whole _

lemma finite_tokensToJson (ts : List Token) : (tokensToJson ts).Finite := by
  refine .array fun v hv => ?_
  obtain ⟨t, -, rfl⟩ := List.mem_map.mp hv
  exact t.finite_toJson

lemma Token.field?_literal_toJson (t : Token) :
    t.toJson.field? "literal" = t.literal.map Literal.toJson := by
  cases hliteral : t.literal <;> simp [toJson, Json.field?, hliteral, List.lookup]

lemma Token.recorded_toJson {t : Token}
    (h : Literal.Recorded t.literal (t.literal.map Literal.toJson)) : t.Recorded t.toJson where
  type := by simp [toJson, Json.field?]
  lexeme := by simp [toJson, Json.field?, List.lookup]
  literal := t.field?_literal_toJson.symm ▸ h
  line := by cases hliteral : t.literal <;> simp [toJson, Json.field?, hliteral, List.lookup]

/-- A dump, `compact` or `pretty` or as `Command.tokenize` prints it, is read as an array with one
object for each token of the source, in order.  Whatever its lexeme is, a token is the only one that
its object records (`Token.Recorded`), and `Token.ofJson?` finds it; the literal is `null` exactly
where a number reaches `Decimal.limit`. -/
theorem token_dump_is_lossless (source : String) : ∃ objects : List Json,
    Json.read? (tokensToJson (Source.tokens source)).compact = some (.array objects) ∧
    Json.read? (tokensToJson (Source.tokens source)).pretty = some (.array objects) ∧
    Json.read? (Command.tokenize true source).out = some (.array objects) ∧
    List.Forall₂
      (fun t o => (∀ t', Token.Recorded t' o ↔ t' = t) ∧ Token.ofJson? o = some t ∧
        (o.field? "literal" = some .null ↔ t.kind = .number ∧
          Decimal.limit ≤ Source.rationalValue t.lexeme.toList))
      (Source.tokens source) objects := by
  have hfinite := finite_tokensToJson (Source.tokens source)
  have hout : (Command.tokenize true source).out =
      (tokensToJson (Source.tokens source)).pretty ++ "\n" := by
    simp [Command.tokenize, Command.textLines, String.join]
  refine ⟨(Source.tokens source).map Token.toJson, Json.read?_compact hfinite,
    Json.read?_pretty hfinite, ?_, ?_⟩
  · rw [hout]
    -- The line end that is printed behind the array is blank.
    exact Json.read?_of_reads (Json.reads_pretty hfinite) "\n"
      (by simp [Json.Reader.Blank, Json.isBlank])
  · rw [List.forall₂_map_right_iff, List.forall₂_same]
    intro t ht
    obtain ⟨hliteral, hnull⟩ := Source.recorded_literal? t.kind t.lexeme.toList
    rw [← Source.literal_of_mem_tokens ht] at hliteral hnull
    have hrecorded := Token.recorded_toJson hliteral
    refine ⟨fun t' => ⟨fun h => h.unique hrecorded, ?_⟩, hrecorded.ofJson?_eq,
      t.field?_literal_toJson ▸ hnull⟩
    rintro rfl
    exact hrecorded

end LoxLang
