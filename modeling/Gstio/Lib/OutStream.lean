import Mathlib

/-!
# Output streams over a buffer

An output stream over a byte buffer (`std::stringbuf`, `std::filebuf`) writes at its put position, over the bytes
already there and past the end, and `seekp` moves the position back over what was written, to patch it.

Between two operations a writer usually keeps the buffer as the bytes it means, followed by leftovers of writes it
went back over; the two lemmas say how a write changes such a buffer.

* `OutStream.write_end`: a write at the end of the bytes that count appends to them, over the leftovers;
* `OutStream.write_over`: a write over bytes of the same length replaces them.
-/

/-- A byte buffer and a put position. -/
structure OutStream where
  buf : List UInt8
  pos : Nat

namespace OutStream

/-- `write`: the bytes go at the position, over what is there, and the position moves past them. -/
def write (o : OutStream) (bytes : List UInt8) : OutStream :=
  ⟨o.buf.take o.pos ++ bytes ++ o.buf.drop (o.pos + bytes.length), o.pos + bytes.length⟩

/-- `seekp`. -/
def seekp (o : OutStream) (p : Nat) : OutStream := ⟨o.buf, p⟩

/-- A write at the end of the bytes that count appends to them; the leftovers after them lose as many bytes. -/
theorem write_end (clean junk bytes : List UInt8) :
    write ⟨clean ++ junk, clean.length⟩ bytes = ⟨clean ++ bytes ++ junk.drop bytes.length, (clean ++ bytes).length⟩ := by
  simp [write, List.drop_append]

/-- A write over bytes of the same length replaces them. -/
theorem write_over (a b c bytes : List UInt8) (h : b.length = bytes.length) :
    write ⟨a ++ b ++ c, a.length⟩ bytes = ⟨a ++ bytes ++ c, (a ++ bytes).length⟩ := by
  simp [write, List.drop_append, ← h]

end OutStream
