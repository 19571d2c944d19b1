import LoxLang.Value

/-!
# The store of frames

A frame holds the variables of one scope at run time and refers to the frame around it.  Frames are
shared: a closure keeps its frame, so a write is seen through every chain of frames that passes
through it.  The store numbers frames in order of creation; a frame is younger than the frame around
it.

A variable is found either a given number of frames out (`getAt?`, `assignAt?`), without looking any
further, or by searching outwards for the nearest frame that binds it (`get?`, `assign?`).
-/

namespace LoxLang

/-- Variables and their values; a name occurs once. -/
abbrev Bindings := List (String × Value)

/-- Bind `name`, in its old place if it was bound before. -/
def Bindings.set (name : String) (value : Value) : Bindings → Bindings
  | [] => [(name, value)]
  | (key, old) :: rest =>
    if key = name then (key, value) :: rest else (key, old) :: Bindings.set name value rest

structure Frame where
  bindings : Bindings
  enclosing : Option FrameId

structure Store where
  frames : Array Frame

namespace Store

def empty : Store := ⟨#[]⟩

/-- Add an empty frame inside `enclosing`.  It gets the next number. -/
def add (s : Store) (enclosing : Option FrameId) : FrameId × Store :=
  (s.frames.size, ⟨s.frames.push ⟨[], enclosing⟩⟩)

/-- The frame around the frame `id`; the outermost frame of a chain has none. -/
def enclosing? (s : Store) (id : FrameId) : Option FrameId := s.frames[id]?.bind Frame.enclosing

/-- The value that the frame `id` itself binds to `name`. -/
def local? (s : Store) (id : FrameId) (name : String) : Option Value :=
  s.frames[id]?.bind fun frame => frame.bindings.lookup name

/-- Bind `name` in the frame `id`.  Where there is no such frame, nothing changes. -/
def define (s : Store) (id : FrameId) (name : String) (value : Value) : Store :=
  ⟨s.frames.modify id fun frame =>
    { frame with bindings := Bindings.set name value frame.bindings }⟩

/-- Bind names in the frame `id`, in order. -/
def defineAll (s : Store) (id : FrameId) (bindings : List (String × Value)) : Store :=
  bindings.foldl (fun s b => s.define id b.1 b.2) s

/-! ## At a distance -/

/-- The frame `distance` steps out from `id`, if the chain is that long. -/
def ancestor? (s : Store) (id : FrameId) : Nat → Option FrameId
  | 0 => some id
  | distance + 1 => (s.enclosing? id).bind fun outer => s.ancestor? outer distance

/-- The frame `distance` steps out, if that very frame binds `name`. -/
def holderAt? (s : Store) (id : FrameId) (distance : Nat) (name : String) : Option FrameId :=
  (s.ancestor? id distance).filter fun frame => (s.local? frame name).isSome

/-- The value that the frame `distance` steps out binds to `name`, whatever frames further out
bind. -/
def getAt? (s : Store) (id : FrameId) (distance : Nat) (name : String) : Option Value :=
  (s.ancestor? id distance).bind fun frame => s.local? frame name

/-- Change `name` in the frame `distance` steps out; it must be bound there. -/
def assignAt? (s : Store) (id : FrameId) (distance : Nat) (name : String) (value : Value) :
    Option Store :=
  (s.holderAt? id distance name).map fun frame => s.define frame name value

/-! ## By search -/

/-- The nearest of the first `steps` frames of the chain from `id` that binds `name`. -/
def holderWithin (s : Store) (name : String) : Nat → FrameId → Option FrameId
  | 0, _ => none
  | steps + 1, id =>
    match s.local? id name with
    | some _ => some id
    | none => (s.enclosing? id).bind (s.holderWithin name steps)

/-- The nearest frame of the chain from `id` that binds `name`.  Frames get older outwards, so a
chain has no more frames than its innermost frame has a number, and `id + 1` steps reach its end. -/
def holder? (s : Store) (id : FrameId) (name : String) : Option FrameId :=
  s.holderWithin name (id + 1) id

/-- The value of `name` in the nearest frame that binds it. -/
def get? (s : Store) (id : FrameId) (name : String) : Option Value :=
  (s.holder? id name).bind fun frame => s.local? frame name

/-- Change `name` in the nearest frame that binds it; some frame must. -/
def assign? (s : Store) (id : FrameId) (name : String) (value : Value) : Option Store :=
  (s.holder? id name).map fun frame => s.define frame name value

end Store

end LoxLang
