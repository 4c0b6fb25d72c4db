/-! Sinks for output text. A sink may have room for a limited number of bytes; it keeps exactly
those, and refuses the first text that does not fit as a whole. -/
namespace LoxLang

structure Sink where
  capacity : Option Nat
  written : ByteArray

namespace Sink

/-- An empty sink. -/
def ofCapacity (capacity : Option Nat) : Sink := ⟨capacity, .empty⟩

/-- Writes as much of a text as there is room for, and says whether that was all of it. -/
def write (s : Sink) (text : String) : Bool × Sink :=
  let bytes := text.toUTF8
  match s.capacity with
  | none => (true, { s with written := s.written ++ bytes })
  | some capacity =>
    let room := capacity - s.written.size
    if bytes.size ≤ room then (true, { s with written := s.written ++ bytes })
    else (false, { s with written := s.written ++ bytes.extract 0 room })

end Sink
end LoxLang
