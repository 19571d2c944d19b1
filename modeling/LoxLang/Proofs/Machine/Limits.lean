import LoxLang.Proofs.Machine.Keeping

/-!
# Output that does not fit

The same run on a sink without a limit and on one that accepts `limit` bytes in all.  As long as the
output fits, the two runs go alike.  As soon as it does not, the second run stops with the sink's
fault, with the output cut off at the limit, and the stop passes through all that is open on its way
out.
-/

namespace LoxLang

/-! ## Machines with a limit -/

/-- The machine whose sink accepts `limit` bytes in all, what was written before included. -/
def Machine.limit (limit : ℕ) (m : Machine) : Machine :=
  { m with sink := { m.sink with room := some (limit - m.sink.written.size) } }

def Result.limit {α : Type} (limit : ℕ) : Result α → Result α
  | .ok value m => .ok value (m.limit limit)
  | .stop reason m => .stop reason (m.limit limit)
  | .exhausted => .exhausted

/-- The limited run `r'` that goes with one from `m` to `m₁`: it comes to `r` if the output fits,
and else is cut off. -/
structure Result.Limited {α : Type} (limit : ℕ) (m m₁ : Machine) (r r' : Result α) : Prop where
  fits : m₁.sink.written.size ≤ limit → r' = r
  cut : limit < m₁.sink.written.size →
    ∃ m₂, r' = .stop (.sink .closed) m₂ ∧ m₂.current = m.current ∧
      m₂.globals = m.globals ∧ m₂.sink.written.toList = m₁.sink.written.toList.take limit

/-- However a run `r` ends, the limited run `r'` goes with it. -/
def Result.Truncates {α : Type} (limit : ℕ) (m : Machine) (r r' : Result α) : Prop :=
  r.Meets (fun v m₁ => Limited limit m m₁ (.ok v (m₁.limit limit)) r')
    fun reason m₁ => Limited limit m m₁ (.stop reason (m₁.limit limit)) r'

/-- An action that a limit only truncates. -/
structure Action.Truncates {α : Type} (act : Action α) : Prop where
  keeps : act.Keeps
  truncates : ∀ limit m, m.sink.room = none → m.sink.written.size ≤ limit →
    (act m).Truncates limit m (act (m.limit limit))

section

variable {α β : Type} {limit : ℕ} {m m₁ m₂ m₃ : Machine} {r r' : Result α}

lemma Result.Limited.of_fits (h : m₁.sink.written.size ≤ limit) (hr : r' = r) :
    Limited limit m m₁ r r' :=
  ⟨fun _ => hr, fun hlt => absurd h (Nat.not_le.mpr hlt)⟩

/-- A run that was cut off at `m₁` has written as much as it would have by a later end `m₃`. -/
lemma Result.Limited.of_cut (hlt : limit < m₁.sink.written.size) (hlater : m₁.Keeps m₃)
    (hcurrent : m₂.current = m.current) (hglobals : m₂.globals = m.globals)
    (hwritten : m₂.sink.written.toList = m₁.sink.written.toList.take limit) :
    Limited limit m m₃ r (.stop (.sink .closed) m₂) := by
  obtain ⟨more, hmore⟩ := hlater.written
  have hlength : limit < m₁.sink.written.toList.length := by simpa using hlt
  refine ⟨fun hfits => ?_, fun _ => ⟨m₂, rfl, hcurrent, hglobals, ?_⟩⟩
  · have hle : m₁.sink.written.toList.length ≤ m₃.sink.written.toList.length :=
      hlater.written.length_le
    simp only [Array.length_toList] at hle
    exact absurd (hlt.trans_le hle) (Nat.not_lt.mpr hfits)
  · rw [hwritten, ← hmore, List.take_append_of_le_length hlength.le]

/-- The same limited run, seen from an earlier machine `m` in the same frame. -/
lemma Result.Limited.earlier (h : Limited limit m₁ m₂ r r') (hkeeps : m.Keeps m₁) :
    Limited limit m m₂ r r' where
  fits := h.fits
  cut hlt := by
    obtain ⟨m₃, hr, hcurrent, hglobals, hwritten⟩ := h.cut hlt
    exact ⟨m₃, hr, hcurrent.trans hkeeps.current, hglobals.trans hkeeps.globals, hwritten⟩

/-- An action that leaves the sink alone (`hsink`) does the same with every limit. -/
lemma Result.Truncates.of_quiet (hsize : m.sink.written.size ≤ limit)
    (hsink : r.Meets (fun _ m₁ => m₁.sink = m.sink) fun _ m₁ => m₁.sink = m.sink)
    (hr : r' = r.limit limit) : r.Truncates limit m r' := by
  cases r with
  | ok v m₁ =>
    have hsink : m₁.sink = m.sink := hsink
    exact .of_fits (hsink ▸ hsize) hr
  | stop reason m₁ =>
    have hsink : m₁.sink = m.sink := hsink
    exact .of_fits (hsink ▸ hsize) hr
  | exhausted => trivial

/-! ## One action after another -/

lemma Result.Truncates.of_keeps {act : Action α}
    (hact : (act m₁).Meets (fun _ m₃ => m₁.Keeps m₃) fun _ m₃ => m₁.Keeps m₃)
    (hlt : limit < m₁.sink.written.size) (hcurrent : m₂.current = m.current)
    (hglobals : m₂.globals = m.globals)
    (hwritten : m₂.sink.written.toList = m₁.sink.written.toList.take limit) :
    (act m₁).Truncates limit m (.stop (.sink .closed) m₂) :=
  hact.mono (fun _ _ hlater => .of_cut hlt hlater hcurrent hglobals hwritten)
    fun _ _ hlater => .of_cut hlt hlater hcurrent hglobals hwritten

lemma Action.Truncates.bind {act : Action α} {next : α → Action β} (hact : act.Truncates)
    (hnext : ∀ v, (next v).Truncates) : (act >>= next).Truncates where
  keeps := Action.Keeps.closed.bind hact.keeps fun v => (hnext v).keeps
  truncates limit m hroom hsize := by
    have hfirst := hact.truncates limit m hroom hsize
    have hkeeps := hact.keeps m
    cases hr : act m with
    | ok v m₁ =>
      rw [hr] at hfirst hkeeps
      rw [bind_eq_of_ok hr]
      have hm₁ : m.Keeps m₁ := hkeeps
      rcases Nat.lt_or_ge limit m₁.sink.written.size with hlt | hle
      -- What follows is not reached any more, but it only adds to the output.
      · obtain ⟨m₂, hr', hcurrent, hglobals, hwritten⟩ := hfirst.cut hlt
        rw [bind_eq_of_stop hr']
        exact .of_keeps ((hnext v).keeps m₁) hlt hcurrent hglobals hwritten
      · rw [bind_eq_of_ok (hfirst.fits hle)]
        have hsecond := (hnext v).truncates limit m₁ (hm₁.unlimited hroom) hle
        exact hsecond.mono (fun _ _ h => h.earlier hm₁) fun _ _ h => h.earlier hm₁
    | stop reason m₁ =>
      rw [hr] at hfirst
      rw [bind_eq_of_stop hr]
      refine ⟨fun hle => bind_eq_of_stop (hfirst.fits hle), fun hlt => ?_⟩
      obtain ⟨m₂, hr', hrest⟩ := hfirst.cut hlt
      exact ⟨m₂, bind_eq_of_stop hr', hrest⟩
    | exhausted =>
      rw [bind_eq_of_exhausted hr]
      trivial

end

/-! ## Printing -/

section

variable {s : Sink} {bytes : Array UInt8} {room : ℕ}

lemma Sink.write_of_none (h : s.room = none) :
    s.write bytes = (none, { s with written := s.written ++ bytes }) := by
  rw [Sink.write, h]

lemma Sink.write_of_le (h : s.room = some room) (hle : bytes.size ≤ room) :
    s.write bytes =
      (none, { s with written := s.written ++ bytes, room := some (room - bytes.size) }) := by
  simp only [Sink.write, h, if_pos hle]

lemma Sink.write_of_lt (h : s.room = some room) (hlt : room < bytes.size) :
    s.write bytes =
      (some .closed, { s with written := s.written ++ bytes.take room, room := some 0 }) := by
  simp only [Sink.write, h, if_neg (Nat.not_le.mpr hlt)]

end

lemma printLine_eq_ok {m : Machine} {text : String} {sink : Sink}
    (h : m.sink.writeLine text = (none, sink)) :
    Action.printLine text m = .ok () { m with sink := sink } := by rw [Action.printLine, h]

lemma printLine_eq_stop {m : Machine} {text : String} {fault : SinkFault} {sink : Sink}
    (h : m.sink.writeLine text = (some fault, sink)) :
    Action.printLine text m = .stop (.sink fault) { m with sink := sink } := by
  rw [Action.printLine, h]

/-- A line that does not fit is written up to the limit. -/
lemma printLine_truncates (text : String) : (Action.printLine text).Truncates where
  keeps := Action.Keeps.closed.printLine text
  truncates limit m hroom hsize := by
    generalize hbytes : (text ++ "\n").toUTF8.data = bytes
    have hline : ∀ s : Sink, s.writeLine text = s.write bytes := fun s => by
      rw [Sink.writeLine, hbytes]
    rw [printLine_eq_ok ((hline m.sink).trans (Sink.write_of_none hroom))]
    constructor
    · intro hfits
      have hfits : (m.sink.written ++ bytes).size ≤ limit := hfits
      rw [Array.size_append] at hfits
      have hle : bytes.size ≤ limit - m.sink.written.size := by omega
      rw [printLine_eq_ok ((hline (m.limit limit).sink).trans (Sink.write_of_le rfl hle))]
      simp only [Machine.limit, Array.size_append, Nat.sub_sub]
    · intro hlt
      -- The line does not fit: as much of it is written as there is room for, and the write fails.
      have hlt : limit < (m.sink.written ++ bytes).size := hlt
      rw [Array.size_append] at hlt
      have hover : limit - m.sink.written.size < bytes.size := by omega
      refine ⟨_, printLine_eq_stop
        ((hline (m.limit limit).sink).trans (Sink.write_of_lt rfl hover)), rfl, rfl, ?_⟩
      have hlength : m.sink.written.toList.length ≤ limit := by simpa using hsize
      simp [Machine.limit, List.take_append, List.take_of_length_le hlength]

/-! ## Acting inside a frame -/

lemma inFrame_eq {α : Type} (frame : FrameId) (act : Action α) (m : Machine) :
    Action.inFrame frame act m = (act { m with current := frame }).leave m.current := by
  unfold Action.inFrame Result.leave
  cases act { m with current := frame } <;> rfl

/-- The stop at the limit goes back to the frame that was left. -/
lemma Result.Limited.leave {α : Type} {limit : ℕ} {m m₁ : Machine} {frame : FrameId}
    {r r' : Result α} (h : Limited limit { m with current := frame } m₁ r r') :
    Limited limit m { m₁ with current := m.current } (r.leave m.current) (r'.leave m.current) where
  fits hle := congrArg _ (h.fits hle)
  cut hlt := by
    obtain ⟨m₂, rfl, -, hglobals, hwritten⟩ := h.cut hlt
    exact ⟨_, rfl, rfl, hglobals, hwritten⟩

lemma Action.Truncates.inFrame {α : Type} {act : Action α} (h : act.Truncates) (frame : FrameId) :
    (act.inFrame frame).Truncates where
  keeps := Action.Keeps.closed.inFrame frame h.keeps
  truncates limit m hroom hsize := by
    have hinside := h.truncates limit { m with current := frame } hroom hsize
    rw [inFrame_eq, inFrame_eq]
    cases hr : act { m with current := frame } with
    | ok v m₁ =>
      rw [hr] at hinside
      exact Result.Limited.leave hinside
    | stop reason m₁ =>
      rw [hr] at hinside
      exact Result.Limited.leave hinside
    | exhausted => trivial

/-- What a call comes to, from what happens inside it: only a `return` is caught. -/
def Result.caught : Result Value → Result Value
  | .stop (.returned value) m => .ok value m
  | other => other

lemma catchReturn_eq (act : Action Value) (m : Machine) : act.catchReturn m = (act m).caught := rfl

/-- The stop at the limit is not `caught`. -/
lemma Result.Limited.caught {limit : ℕ} {m m₁ : Machine} {r r' : Result Value}
    (h : Limited limit m m₁ r r') : Limited limit m m₁ r.caught r'.caught where
  fits hle := congrArg _ (h.fits hle)
  cut hlt := by
    obtain ⟨m₂, rfl, hrest⟩ := h.cut hlt
    exact ⟨m₂, rfl, hrest⟩

lemma Action.Truncates.catchReturn {act : Action Value} (h : act.Truncates) :
    act.catchReturn.Truncates where
  keeps := Action.Keeps.closed.catchReturn h.keeps
  truncates limit m hroom hsize := by
    have hinside := h.truncates limit m hroom hsize
    rw [catchReturn_eq, catchReturn_eq]
    cases hr : act m with
    | ok v m₁ =>
      rw [hr] at hinside
      exact Result.Limited.caught hinside
    | stop reason m₁ =>
      rw [hr] at hinside
      cases reason <;> exact Result.Limited.caught hinside
    | exhausted => trivial

/-! ## Every run -/

lemma Action.Truncates.closed : Action.Closed @Action.Truncates where
  pure v := ⟨Action.Keeps.closed.pure v, fun _ _ _ hsize => .of_quiet hsize rfl rfl⟩
  bind hact hnext := hact.bind hnext
  exhausted := ⟨Action.Keeps.closed.exhausted, fun _ _ _ _ => trivial⟩
  stop reason := ⟨Action.Keeps.closed.stop reason, fun _ _ _ hsize => .of_quiet hsize rfl rfl⟩
  define x v := ⟨Action.Keeps.closed.define x v, fun _ _ _ hsize => .of_quiet hsize rfl rfl⟩
  newFrame outer bindings :=
    ⟨Action.Keeps.closed.newFrame outer bindings, fun _ _ _ hsize => .of_quiet hsize rfl rfl⟩
  currentFrame := ⟨Action.Keeps.closed.currentFrame, fun _ _ _ hsize => .of_quiet hsize rfl rfl⟩
  newObject := ⟨Action.Keeps.closed.newObject, fun _ _ _ hsize => .of_quiet hsize rfl rfl⟩
  readClock := ⟨Action.Keeps.closed.readClock, fun _ _ _ hsize => .of_quiet hsize rfl rfl⟩
  -- Only here does the limit matter; all other actions leave the sink alone.
  printLine text := printLine_truncates text
  readVariable lookup id name := by
    refine ⟨Action.Keeps.closed.readVariable lookup id name, fun limit m _ hsize => ?_⟩
    have hread : (m.limit limit).read? lookup id name.lexeme = m.read? lookup id name.lexeme := rfl
    unfold Action.readVariable
    rw [hread]
    cases m.read? lookup id name.lexeme <;> exact .of_quiet hsize rfl rfl
  assignVariable lookup id name v := by
    refine ⟨Action.Keeps.closed.assignVariable lookup id name v, fun limit m _ hsize => ?_⟩
    have hholder : (m.limit limit).holder? lookup id name.lexeme =
        m.holder? lookup id name.lexeme := rfl
    unfold Action.assignVariable
    rw [hholder]
    cases m.holder? lookup id name.lexeme <;> exact .of_quiet hsize rfl rfl
  inFrame frame hact := hact.inFrame frame
  catchReturn hact := hact.catchReturn

/-- A limit only truncates the run of the statements `ss`. -/
theorem executeAll_truncates (lookup : Lookup) (steps : ℕ) (ss : List Stmt) :
    (executeAll (execute lookup steps) ss).Truncates :=
  Action.Truncates.closed.executeAll (Action.Truncates.closed.runs lookup steps).2 ss

end LoxLang
