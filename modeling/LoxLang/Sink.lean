/-!
# The output sink

Printed text goes to a sink as UTF-8 bytes.  A sink may have room for only so many bytes, and its
flush may fail; what was written before a failure stays written.
-/

namespace LoxLang

/-- Why output could not be delivered. -/
inductive SinkFault where
  | closed
  | flushFailed
  deriving Repr, DecidableEq

def SinkFault.message : SinkFault → String
  | closed => "closed"
  | flushFailed => "flush failed"

structure Sink where
  written : Array UInt8
  /-- How many more bytes are accepted; without a limit, any number. -/
  room : Option Nat
  flushFails : Bool

namespace Sink

/-- A sink that accepts everything: its `room` has no limit and its `flush` never fails. -/
def unlimited : Sink := ⟨#[], none, false⟩

/-- Write `bytes`, as many as there is `room` for; a write that does not fit leaves no room. -/
def write (s : Sink) (bytes : Array UInt8) : Option SinkFault × Sink :=
  match s.room with
  | none => (none, { s with written := s.written ++ bytes })
  | some room =>
    if bytes.size ≤ room then
      (none, { s with written := s.written ++ bytes, room := some (room - bytes.size) })
    else
      (some .closed, { s with written := s.written ++ bytes.take room, room := some 0 })

/-- Write `text` and a line end in one `write`. -/
def writeLine (s : Sink) (text : String) : Option SinkFault × Sink :=
  s.write (text ++ "\n").toUTF8.data

def flush (s : Sink) : Option SinkFault := if s.flushFails then some .flushFailed else none

/-- Bytes as text.  A character cut off at the end becomes a replacement character. -/
def decode (bytes : Array UInt8) : String :=
  -- A character has at most four bytes, so that at most three of them can be left over.
  let cuts := (List.range 4).filterMap fun cut =>
    (String.fromUTF8? ⟨bytes.take (bytes.size - cut)⟩).map fun text =>
      if cut = 0 then text else text ++ "�"
  cuts.headD ""

/-- What was `written` after the first `start` bytes. -/
def textFrom (s : Sink) (start : Nat) : String := decode (s.written.extract start s.written.size)

end Sink

end LoxLang
