import Gstio.Lib.OutStream
import Gstio.Lib.Rollback
import Gstio.Fc.Raw

/-!
# Binary snapshots (`snapshot.cpp`: `ostream_snapshot_writer`, `istream_snapshot_reader`)

A binary snapshot is the magic number and the version, then the sections, then an end marker. A section is the size
of what follows its size field, its row count, its name and a `0`, then its rows as `fc::raw` packs them. The writer
puts placeholders for the size and the count, and writes them over the placeholders when the section ends; a row
whose writer throws moves the position back to where the row began. The reader walks the sections by their sizes,
comparing names byte by byte: `snapshot.get()`, an `int` from `0` to `255`, against a `char` of the name, which is
signed (GCC and Clang on x86-64), so a name byte from `0x80` up never compares equal.

Numbers are written as their bytes in memory, little-endian. A read past the end of the stream is a failure of the
stream (`streamFailure`); on the snapshots the writer produces no read goes past the end.

* `nameMatches_iff`: the name test accepts exactly the stored name, and only when all its bytes are below `0x80`;
* `writeSnapshot_eq`: the writer produces `snapshotBytes` of the rows that did not throw, then leftovers;
* `snapshot_round_trip`: what the reader finds in what the writer wrote.
-/

namespace Gstio.Chain

open Gstio.Fc

/-- `ostream_snapshot_writer::magic_number`. -/
def magicNumber : Nat := 0x30510550

/-- `current_snapshot_version`. -/
def currentSnapshotVersion : Nat := 1

/-- `std::numeric_limits<uint64_t>::max()`: the placeholders and the end marker. -/
def uint64Max : Nat := 2 ^ 64 - 1

/-- The exceptions of the binary snapshot. -/
inductive SnapshotError
  /-- `snapshot_exception` -/
  | snapshot (msg : String)
  /-- A read or a seek past the end of the stream. -/
  | streamFailure
  /-- The exception of a row's writer or reader. -/
  | row
  deriving DecidableEq, Repr

/-- What `row_writer.write(snapshot)` does: write the bytes of a row, or write some bytes and throw. -/
inductive RowWrite
  | written (bytes : List UInt8)
  | threw (before : List UInt8)

/-- `ostream_snapshot_writer`: the stream, the position of the snapshot, the position of the open section (`none` for
`std::streampos(-1)`) and its rows so far. -/
structure OstreamSnapshotWriter where
  snapshot : OutStream
  headerPos : Nat
  sectionPos : Option Nat
  rowCount : Nat

namespace OstreamSnapshotWriter

/-- The constructor: the magic number and the version. -/
def create (snapshot : OutStream) : OstreamSnapshotWriter :=
  let headerPos := snapshot.pos
  let snapshot := snapshot.write (leBytes 4 magicNumber)
  let snapshot := snapshot.write (leBytes 4 currentSnapshotVersion)
  ⟨snapshot, headerPos, none, 0⟩

/-- `write_start_section`: placeholders for the size and the row count, then the name and a `0`. -/
def writeStartSection (w : OstreamSnapshotWriter) (sectionName : List UInt8) :
    Except SnapshotError OstreamSnapshotWriter := do
  Except.assert w.sectionPos.isNone
    (.snapshot "Attempting to write a new section without closing the previous section")
  let sectionPos := w.snapshot.pos
  let snapshot := w.snapshot.write (leBytes 8 uint64Max)
  let snapshot := snapshot.write (leBytes 8 uint64Max)
  let snapshot := snapshot.write sectionName
  let snapshot := snapshot.write [0]
  pure ⟨snapshot, w.headerPos, some sectionPos, 0⟩

/-- `write_row`: a row that throws leaves the position where the row began, and its exception goes on. The count is
a `uint64_t`, written as its low eight bytes, which a `Nat` gives alike. -/
def writeRow (w : OstreamSnapshotWriter) : RowWrite → OstreamSnapshotWriter × Except SnapshotError Unit
  | .written bytes => ({ w with snapshot := w.snapshot.write bytes, rowCount := w.rowCount + 1 }, .ok ())
  | .threw before => ({ w with snapshot := (w.snapshot.write before).seekp w.snapshot.pos }, .error .row)

/-- `write_end_section`: the size of what follows the size field, and the row count, over the placeholders. With no
open section the source seeks to `-1`, which fails the stream; `write_section` never does that. -/
def writeEndSection (w : OstreamSnapshotWriter) : OstreamSnapshotWriter :=
  match w.sectionPos with
  | some sectionPos =>
    let restore := w.snapshot.pos
    let sectionSize := restore - sectionPos - 8
    let snapshot := w.snapshot.seekp sectionPos
    let snapshot := snapshot.write (leBytes 8 sectionSize)
    let snapshot := snapshot.write (leBytes 8 w.rowCount)
    ⟨snapshot.seekp restore, w.headerPos, none, 0⟩
  | none => w

/-- `write_section(name, f)`, for an `f` that adds the rows `rows`, catching the exception of a row that throws and
going on with the next. -/
def writeSection (w : OstreamSnapshotWriter) (sectionName : List UInt8) (rows : List RowWrite) :
    Except SnapshotError OstreamSnapshotWriter := do
  let w ← w.writeStartSection sectionName
  let w := rows.foldl (fun w row => (w.writeRow row).1) w
  pure w.writeEndSection

/-- `finalize`: the end marker. -/
def finalize (w : OstreamSnapshotWriter) : OstreamSnapshotWriter :=
  { w with snapshot := w.snapshot.write (leBytes 8 uint64Max) }

end OstreamSnapshotWriter

/-- A snapshot written into an empty stream, section by section, and finalized: the bytes of the stream. -/
def writeSnapshot (sections : List (List UInt8 × List RowWrite)) : Except SnapshotError (List UInt8) := do
  let w ← sections.foldlM (fun w s => w.writeSection s.1 s.2) (OstreamSnapshotWriter.create ⟨[], 0⟩)
  pure w.finalize.snapshot.buf

/-- The number of `width` bytes at `pos`, or a failure of the stream. -/
def readWord (bytes : List UInt8) (pos width : Nat) : Except SnapshotError Nat :=
  if pos + width ≤ bytes.length then .ok (leValue ((bytes.drop pos).take width)) else .error .streamFailure

/-- `snapshot.get()`: the byte at `pos` as an `int`, or `EOF` (`-1`) past the end. -/
def getByte (bytes : List UInt8) (pos : Nat) : Int :=
  match bytes[pos]? with
  | some b => b.toNat
  | none => -1

/-- A `char` of a `std::string` as an `int`: `char` is signed, so a byte from `0x80` up is negative. -/
def charValue (c : UInt8) : Int := c.toInt8.toInt

/-- The name test of `has_section` and `set_section` at `pos`: `snapshot.get() != c` for each `char` in turn,
stopping at the first difference, then `snapshot.get() == 0`. -/
def nameMatches (bytes : List UInt8) (pos : Nat) : List UInt8 → Bool
  | [] => getByte bytes pos == 0
  | c :: cs => if getByte bytes pos != charValue c then false else nameMatches bytes (pos + 1) cs

/-- `istream_snapshot_reader`: the bytes of the stream and its read position, the position of the snapshot, and the
rows of the current section. -/
structure IstreamSnapshotReader where
  snapshot : List UInt8
  pos : Nat
  headerPos : Nat
  numRows : UInt64
  curRow : UInt64

namespace IstreamSnapshotReader

/-- The constructor, over a stream at its start. -/
def create (snapshot : List UInt8) : IstreamSnapshotReader := ⟨snapshot, 0, 0, 0, 0⟩

/-- The loop of `validate`: `validate_section` until the end marker, each turn seeking past a section. The fuel, one
turn per byte, is more than the sections. -/
def validateSections (bytes : List UInt8) : Nat → Nat → Except SnapshotError Unit
  | 0, _ => .error .streamFailure
  | fuel + 1, pos => do
    let sectionSize ← readWord bytes pos 8
    if sectionSize = uint64Max then pure ()
    else
      let next := pos + 8 + sectionSize
      if bytes.length < next then throw .streamFailure else validateSections bytes fuel next

/-- `validate`, from the read position (which it restores): its `catch` turns a failure of the stream into a
`snapshot_exception`, and lets the assertions, which are not `std::exception`s, through. -/
def validate (r : IstreamSnapshotReader) : Except SnapshotError Unit :=
  let ioException := SnapshotError.snapshot "Binary snapshot validation threw IO exception (${what})"
  match readWord r.snapshot r.pos 4 with
  | .error _ => .error ioException
  | .ok actualTotem =>
    if actualTotem ≠ magicNumber then .error (.snapshot "Binary snapshot has unexpected magic number!")
    else match readWord r.snapshot (r.pos + 4) 4 with
      | .error _ => .error ioException
      | .ok actualVersion =>
        if actualVersion ≠ currentSnapshotVersion then
          .error (.snapshot "Binary snapshot is an unsuppored version.  Expected : ${expected}, Got: ${actual}")
        else match validateSections r.snapshot (r.snapshot.length + 1) (r.pos + 8) with
          | .error _ => .error ioException
          | .ok () => .ok ()

/-- The loop of `has_section` from the section at `next`. -/
def hasSectionLoop (bytes sectionName : List UInt8) : Nat → Nat → Except SnapshotError Bool
  | 0, _ => .error .streamFailure
  | fuel + 1, next => do
    let sectionSize ← readWord bytes next 8
    if sectionSize = uint64Max then pure false
    else
      let _ ← readWord bytes (next + 8) 8
      if nameMatches bytes (next + 16) sectionName then pure true
      else hasSectionLoop bytes sectionName fuel (next + 8 + sectionSize)

/-- `has_section`, from the start of the snapshot; it restores the read position. -/
def hasSection (r : IstreamSnapshotReader) (sectionName : List UInt8) : Except SnapshotError Bool :=
  hasSectionLoop r.snapshot sectionName (r.snapshot.length + 1) (r.headerPos + 8)

/-- The loop of `set_section` from the section at `next`: the row count of the first section of that name, and the
position after its name. -/
def setSectionLoop (bytes sectionName : List UInt8) : Nat → Nat → Except SnapshotError (Nat × Nat)
  | 0, _ => .error .streamFailure
  | fuel + 1, next => do
    let sectionSize ← readWord bytes next 8
    if sectionSize = uint64Max then throw (.snapshot "Binary snapshot has no section named ${n}")
    else
      let rowCount ← readWord bytes (next + 8) 8
      if nameMatches bytes (next + 16) sectionName then pure (rowCount, next + 16 + sectionName.length + 1)
      else setSectionLoop bytes sectionName fuel (next + 8 + sectionSize)

/-- `set_section`: the stream is left at the first row. -/
def setSection (r : IstreamSnapshotReader) (sectionName : List UInt8) : Except SnapshotError IstreamSnapshotReader := do
  let (rowCount, pos) ← setSectionLoop r.snapshot sectionName (r.snapshot.length + 1) (r.headerPos + 8)
  pure { r with pos, numRows := UInt64.ofNat rowCount, curRow := 0 }

/-- `empty`. -/
def empty (r : IstreamSnapshotReader) : Bool := r.numRows == 0

variable {Row : Type} (c : Codec Row)

/-- `read_row`: the row `provide` unpacks from the stream, and `++cur_row < num_rows`. -/
def readRow (r : IstreamSnapshotReader) : Except SnapshotError (Row × IstreamSnapshotReader × Bool) :=
  match c.unpack (r.snapshot.drop r.pos) with
  | .error _ => .error .row
  | .ok (row, rest) =>
    let curRow := r.curRow + 1
    .ok (row, { r with pos := r.snapshot.length - rest.length, curRow }, decide (curRow < r.numRows))

/-- The loop of `read_from_snapshot`: `read_row` while it returns `true`. It runs once per row of the section, which
is its fuel. -/
def readRowsLoop : Nat → IstreamSnapshotReader → Except SnapshotError (List Row)
  | 0, _ => .ok []
  | fuel + 1, r => do
    let (row, r, more) ← readRow c r
    if more then (row :: ·) <$> readRowsLoop fuel r else pure [row]

/-- `read_section(name, f)` with the `f` of `read_from_snapshot`: `more = !section.empty()`, then the loop. -/
def readSection (r : IstreamSnapshotReader) (sectionName : List UInt8) : Except SnapshotError (List Row) := do
  let r ← r.setSection sectionName
  if r.empty then pure [] else readRowsLoop c r.numRows.toNat r

end IstreamSnapshotReader

/-! ## The format -/

/-- The bytes a row leaves: all it wrote, or nothing when it threw. -/
def RowWrite.bytes? : RowWrite → Option (List UInt8)
  | .written bytes => some bytes
  | .threw _ => none

/-- The bytes of a section: the size of what follows the size field, the row count, the name and a `0`, the rows. -/
def sectionBytes (sectionName : List UInt8) (rows : List (List UInt8)) : List UInt8 :=
  leBytes 8 (8 + sectionName.length + 1 + rows.flatten.length) ++ leBytes 8 rows.length ++ sectionName ++ [0] ++
    rows.flatten

/-- A section the reader can walk: its name has no `0`, and its size is below the end marker. -/
def SectionFits (s : List UInt8 × List (List UInt8)) : Prop :=
  0 ∉ s.1 ∧ 8 + s.1.length + 1 + s.2.flatten.length < uint64Max

instance : DecidablePred SectionFits := fun _ => inferInstanceAs (Decidable (_ ∧ _))

/-- Every section has bytes. -/
theorem length_le_length_sections (secs : List (List UInt8 × List (List UInt8))) :
    secs.length ≤ (secs.map fun s => sectionBytes s.1 s.2).flatten.length := by
  induction secs with
  | nil => simp
  | cons s secs ih =>
    have hs : 0 < (sectionBytes s.1 s.2).length := by simp [sectionBytes]
    rw [List.map_cons, List.flatten_cons, List.length_append, List.length_cons]
    omega

/-- The bytes of a snapshot: the magic number, the version, the sections, the end marker. -/
def snapshotBytes (sections : List (List UInt8 × List (List UInt8))) : List UInt8 :=
  leBytes 4 magicNumber ++ leBytes 4 currentSnapshotVersion ++ (sections.map fun s => sectionBytes s.1 s.2).flatten ++
    leBytes 8 uint64Max

/-! ## The writer -/

namespace OstreamSnapshotWriter

/-- Between sections: the stream holds `clean`, then leftovers of rows that threw, and is at the end of `clean`. -/
def Clean (w : OstreamSnapshotWriter) (clean : List UInt8) : Prop :=
  (∃ junk, w.snapshot = ⟨clean ++ junk, clean.length⟩) ∧ w.sectionPos = none

/-- Inside the section that starts at `start`, after its header `head` and the rows `rows` that did not throw. -/
def InSection (w : OstreamSnapshotWriter) (start : Nat) (head : List UInt8) (rows : List (List UInt8)) : Prop :=
  (∃ junk, w.snapshot = ⟨head ++ rows.flatten ++ junk, (head ++ rows.flatten).length⟩) ∧ w.sectionPos = some start ∧
    w.rowCount = rows.length

theorem create_clean : (create ⟨[], 0⟩).Clean (leBytes 4 magicNumber ++ leBytes 4 currentSnapshotVersion) := by
  refine ⟨⟨[], ?_⟩, rfl⟩
  simp only [create, OutStream.write]
  rw [List.take_of_length_le (by simp), List.drop_eq_nil_of_le (by simp)]
  simp

/-- A row keeps the section's shape: a written row joins the rows, and one that threw leaves only leftovers. -/
theorem InSection.writeRow {w : OstreamSnapshotWriter} {start : Nat} {head : List UInt8} {rows : List (List UInt8)}
    (hw : w.InSection start head rows) (row : RowWrite) :
    (w.writeRow row).1.InSection start head (rows ++ row.bytes?.toList) := by
  obtain ⟨⟨junk, hs⟩, hpos, hcount⟩ := hw
  cases row with
  | written bytes =>
    refine ⟨⟨junk.drop bytes.length, ?_⟩, hpos, ?_⟩
    · simp only [OstreamSnapshotWriter.writeRow, hs, OutStream.write_end]
      simp [RowWrite.bytes?]
    · simp [OstreamSnapshotWriter.writeRow, RowWrite.bytes?, hcount]
  | threw before =>
    refine ⟨⟨before ++ junk.drop before.length, ?_⟩, hpos, by simp [OstreamSnapshotWriter.writeRow, RowWrite.bytes?,
      hcount]⟩
    simp only [OstreamSnapshotWriter.writeRow, hs, OutStream.write_end, OutStream.seekp]
    simp [RowWrite.bytes?]

theorem InSection.foldl_writeRow {start : Nat} {head : List UInt8} :
    ∀ (rows : List RowWrite) {w : OstreamSnapshotWriter} {done : List (List UInt8)}, w.InSection start head done →
      (rows.foldl (fun w row => (w.writeRow row).1) w).InSection start head (done ++ rows.filterMap RowWrite.bytes?)
  | [], _, _, hw => by simpa using hw
  | row :: rows, _, done, hw => by
    rw [List.foldl_cons, List.filterMap_cons]
    have := InSection.foldl_writeRow rows (hw.writeRow row)
    cases row <;> simpa [RowWrite.bytes?] using this

/-- `write_start_section` opens a section after `clean`: its header holds placeholders for the size and the count. -/
theorem Clean.writeStartSection {w : OstreamSnapshotWriter} {clean : List UInt8} (hw : w.Clean clean)
    (sectionName : List UInt8) :
    ∃ w', w.writeStartSection sectionName = .ok w' ∧
      w'.InSection clean.length (clean ++ leBytes 8 uint64Max ++ leBytes 8 uint64Max ++ sectionName ++ [0]) [] := by
  obtain ⟨⟨junk, hs⟩, hpos⟩ := hw
  simp only [OstreamSnapshotWriter.writeStartSection, hpos, Option.isNone_none, Except.assert, if_true, bind, Except.bind, pure,
    Except.pure, hs]
  rw [OutStream.write_end, OutStream.write_end, OutStream.write_end, OutStream.write_end]
  refine ⟨_, rfl, ⟨List.drop 1 (List.drop sectionName.length (List.drop 8 (List.drop 8 junk))), ?_⟩, rfl, rfl⟩
  simp

/-- `write_end_section` writes the size and the count of the section over its placeholders, and goes back to the
end. -/
theorem InSection.writeEndSection {w : OstreamSnapshotWriter} {clean sectionName : List UInt8}
    {rows : List (List UInt8)}
    (hw : w.InSection clean.length (clean ++ leBytes 8 uint64Max ++ leBytes 8 uint64Max ++ sectionName ++ [0]) rows) :
    w.writeEndSection.Clean (clean ++ sectionBytes sectionName rows) := by
  obtain ⟨⟨junk, hs⟩, hpos, hcount⟩ := hw
  have hsize : (clean ++ leBytes 8 uint64Max ++ leBytes 8 uint64Max ++ sectionName ++ [0] ++ rows.flatten).length -
      clean.length - 8 = 8 + sectionName.length + 1 + rows.flatten.length := by
    simp only [List.length_append, length_leBytes, List.length_singleton]
    omega
  simp only [OstreamSnapshotWriter.writeEndSection, hpos, hs, hcount, OutStream.seekp, hsize]
  -- the size goes over the first placeholder, the count over the second
  rw [show clean ++ leBytes 8 uint64Max ++ leBytes 8 uint64Max ++ sectionName ++ [0] ++ rows.flatten ++ junk =
      clean ++ leBytes 8 uint64Max ++ (leBytes 8 uint64Max ++ sectionName ++ [0] ++ rows.flatten ++ junk) by simp,
    OutStream.write_over _ _ _ _ (by simp)]
  rw [show clean ++ leBytes 8 (8 + sectionName.length + 1 + rows.flatten.length) ++
      (leBytes 8 uint64Max ++ sectionName ++ [0] ++ rows.flatten ++ junk) =
      clean ++ leBytes 8 (8 + sectionName.length + 1 + rows.flatten.length) ++ leBytes 8 uint64Max ++
        (sectionName ++ [0] ++ rows.flatten ++ junk) by simp,
    OutStream.write_over _ _ _ _ (by simp)]
  refine ⟨⟨junk, ?_⟩, rfl⟩
  simp [sectionBytes]

/-- **A section as the writer leaves it**: the header with its size and count, and the rows that did not throw. -/
theorem Clean.writeSection {w : OstreamSnapshotWriter} {clean : List UInt8} (hw : w.Clean clean)
    (sectionName : List UInt8) (rows : List RowWrite) :
    ∃ w', w.writeSection sectionName rows = .ok w' ∧
      w'.Clean (clean ++ sectionBytes sectionName (rows.filterMap RowWrite.bytes?)) := by
  obtain ⟨w1, hstart, hw1⟩ := hw.writeStartSection sectionName
  have hrows := InSection.foldl_writeRow rows hw1
  rw [List.nil_append] at hrows
  exact ⟨_, by simp [OstreamSnapshotWriter.writeSection, hstart, bind, Except.bind, pure, Except.pure], hrows.writeEndSection⟩

/-- Section after section, the writer appends the bytes of each. -/
theorem Clean.foldlM_writeSection :
    ∀ (sections : List (List UInt8 × List RowWrite)) {w : OstreamSnapshotWriter} {clean : List UInt8}, w.Clean clean →
      ∃ w', sections.foldlM (fun w s => w.writeSection s.1 s.2) w = .ok w' ∧
        w'.Clean (clean ++ (sections.map fun s => sectionBytes s.1 (s.2.filterMap RowWrite.bytes?)).flatten)
  | [], w, _, hw => ⟨w, rfl, by simpa using hw⟩
  | s :: sections, _, _, hw => by
    obtain ⟨w1, h1, hw1⟩ := hw.writeSection s.1 s.2
    obtain ⟨w', h', hw'⟩ := Clean.foldlM_writeSection sections hw1
    refine ⟨w', ?_, by simpa using hw'⟩
    rw [List.foldlM_cons, h1]
    exact h'

end OstreamSnapshotWriter

/-- **What the writer produces**: the format over the rows that did not throw, then the leftovers of rows that threw
after the last section. -/
theorem writeSnapshot_eq (sections : List (List UInt8 × List RowWrite)) :
    ∃ junk, writeSnapshot sections =
      .ok (snapshotBytes (sections.map fun s => (s.1, s.2.filterMap RowWrite.bytes?)) ++ junk) := by
  obtain ⟨w, hfold, ⟨junk, hs⟩, -⟩ := OstreamSnapshotWriter.Clean.foldlM_writeSection sections
    OstreamSnapshotWriter.create_clean
  refine ⟨junk.drop 8, ?_⟩
  simp only [writeSnapshot, hfold, bind, Except.bind, pure, Except.pure, OstreamSnapshotWriter.finalize, hs,
    OutStream.write_end]
  simp [snapshotBytes, Function.comp_def]

/-! ## The reader on the format -/

section Reading

variable {bytes : List UInt8}

/-- What stands at a position stands within the stream. -/
theorem add_length_le_length {a : List UInt8} {pos : Nat} (ha : a ≠ []) (h : a <+: bytes.drop pos) :
    pos + a.length ≤ bytes.length := by
  have hle := h.length_le
  have hpos : 0 < a.length := List.length_pos_iff.mpr ha
  rw [List.length_drop] at hle
  omega

/-- Past the bytes `a` at `pos` are the bytes that follow them. -/
theorem prefix_drop_of_append {a b : List UInt8} {pos : Nat} (h : a ++ b <+: bytes.drop pos) :
    b <+: bytes.drop (pos + a.length) := by
  obtain ⟨t, h⟩ := h
  refine ⟨t, ?_⟩
  rw [← List.drop_drop, ← h, List.append_assoc, List.drop_left]

/-- A word read where its bytes stand. -/
theorem readWord_eq {pos width n : Nat} (hw : 0 < width) (h : leBytes width n <+: bytes.drop pos) :
    readWord bytes pos width = .ok (n % 256 ^ width) := by
  have hne : leBytes width n ≠ [] := List.ne_nil_of_length_pos (by simpa using hw)
  have hlen := add_length_le_length hne h
  rw [length_leBytes] at hlen
  obtain ⟨rest, h⟩ := h
  rw [readWord, if_pos hlen, ← h, List.take_left' (length_leBytes width n), leValue_leBytes]

theorem getByte_eq {pos : Nat} {b : UInt8} {rest : List UInt8} (h : b :: rest <+: bytes.drop pos) :
    getByte bytes pos = b.toNat := by
  obtain ⟨t, h⟩ := h
  have hb : bytes[pos]? = some b := by
    rw [← Nat.add_zero pos, ← List.getElem?_drop, ← h]
    rfl
  rw [getByte, hb]

/-- `char` is signed: the bytes from `0x80` up stand for negative numbers. -/
theorem charValue_eq (c : UInt8) : charValue c = if c.toNat < 0x80 then (c.toNat : Int) else c.toNat - 0x100 := by
  rw [charValue, Int8.toInt, UInt8.toBitVec_toInt8, BitVec.toInt_eq_toNat_cond]
  simp only [UInt8.toNat_toBitVec]
  split_ifs <;> omega

/-- A byte of the stream equals a `char` only when the `char` is that byte and below `0x80`. -/
theorem toNat_eq_charValue_iff {b c : UInt8} : (b.toNat : Int) = charValue c ↔ b = c ∧ c < 0x80 := by
  rw [charValue_eq, ← UInt8.toNat_inj, UInt8.lt_iff_toNat_lt]
  have hb := b.toNat_lt
  have hc := c.toNat_lt
  split_ifs <;> simp <;> omega

/-- **The name test**: over a stored name without `0`, a name without `0` passes exactly when it is the stored name
and all its bytes are below `0x80`. -/
theorem nameMatches_iff {pos : Nat} {name n : List UInt8} (h : name ++ [0] <+: bytes.drop pos) (hname : 0 ∉ name)
    (hn : 0 ∉ n) : nameMatches bytes pos n = true ↔ n = name ∧ ∀ c ∈ n, c < 0x80 := by
  induction n generalizing name pos with
  | nil =>
    cases name with
    | nil => simp [nameMatches, getByte_eq h]
    | cons b name =>
      -- the stored name goes on where the searched one ends
      have hb : b ≠ 0 := fun hb => hname (hb ▸ List.mem_cons_self)
      have hbyte : getByte bytes pos ≠ 0 := by
        rw [getByte_eq h]
        exact_mod_cast fun h0 => hb (UInt8.toNat_inj.mp h0)
      simp [nameMatches, hbyte]
  | cons c n ih =>
    have hc : c ≠ 0 := fun hc => hn (hc ▸ List.mem_cons_self)
    have hn' : 0 ∉ n := fun h0 => hn (List.mem_cons_of_mem c h0)
    cases name with
    | nil =>
      -- the stored name ends here: the `0` after it equals no byte of the searched name
      have hbyte : getByte bytes pos ≠ charValue c := by
        rw [getByte_eq h, Ne, toNat_eq_charValue_iff]
        exact fun h0 => hc h0.1.symm
      simp [nameMatches, hbyte]
    | cons b name =>
      have hname' : 0 ∉ name := fun h0 => hname (List.mem_cons_of_mem b h0)
      have hrest : name ++ [0] <+: bytes.drop (pos + 1) := prefix_drop_of_append (a := [b]) h
      rw [nameMatches, getByte_eq h]
      by_cases hbc : (b.toNat : Int) = charValue c
      · obtain ⟨rfl, hlt⟩ := toNat_eq_charValue_iff.mp hbc
        simp [hbc, ih hrest hname' hn', hlt]
      · have hne : ¬ (c = b ∧ c < 0x80) := fun h' => hbc (toNat_eq_charValue_iff.mpr ⟨h'.1.symm, h'.2⟩)
        simp only [bne_iff_ne, ne_eq, hbc, not_false_eq_true, if_true, Bool.false_eq_true, false_iff,
          List.cons.injEq, List.forall_mem_cons]
        exact fun ⟨⟨hcb, _⟩, hlt, _⟩ => hne ⟨hcb, hlt⟩

/-- What the reader finds at a section: its size, its count, its name, its rows, and past it what follows. -/
theorem read_sectionBytes {next : Nat} {name more : List UInt8} {rows : List (List UInt8)}
    (h : sectionBytes name rows ++ more <+: bytes.drop next)
    (hfit : 8 + name.length + 1 + rows.flatten.length < uint64Max) :
    readWord bytes next 8 = .ok (8 + name.length + 1 + rows.flatten.length) ∧
      readWord bytes (next + 8) 8 = .ok (rows.length % 2 ^ 64) ∧
      name ++ [0] <+: bytes.drop (next + 16) ∧
      rows.flatten ++ more <+: bytes.drop (next + 16 + name.length + 1) ∧
      more <+: bytes.drop (next + 8 + (8 + name.length + 1 + rows.flatten.length)) := by
  simp only [sectionBytes, List.append_assoc] at h
  -- each field stands right after the one before it
  have hcount := prefix_drop_of_append h
  have hname := prefix_drop_of_append hcount
  simp only [length_leBytes, show next + 8 + 8 = next + 16 by omega] at hcount hname
  rw [← List.append_assoc] at hname
  have hrows := prefix_drop_of_append hname
  have hmore := prefix_drop_of_append hrows
  simp only [List.length_append, List.length_singleton, ← Nat.add_assoc] at hrows hmore
  refine ⟨?_, ?_, (List.prefix_append _ _).trans hname, hrows, ?_⟩
  · rw [readWord_eq (by decide) ((List.prefix_append _ _).trans h), Nat.mod_eq_of_lt]
    unfold uint64Max at hfit
    omega
  · rw [readWord_eq (by decide) ((List.prefix_append _ _).trans hcount), show (256 : Nat) ^ 8 = 2 ^ 64 from rfl]
  · rwa [show next + 8 + (8 + name.length + 1 + rows.flatten.length) =
      next + 16 + name.length + 1 + rows.flatten.length by omega]

end Reading

namespace IstreamSnapshotReader

variable {bytes : List UInt8}

/-- The end marker and the sections, in the bytes from `next` on. -/
def SectionsAt (bytes : List UInt8) (next : Nat) (secs : List (List UInt8 × List (List UInt8))) : Prop :=
  (secs.map fun s => sectionBytes s.1 s.2).flatten ++ leBytes 8 uint64Max <+: bytes.drop next

/-- Past the first section stand the others. -/
theorem SectionsAt.cons {next : Nat} {s : List UInt8 × List (List UInt8)} {secs : List (List UInt8 × List (List UInt8))}
    (h : SectionsAt bytes next (s :: secs)) (hfit : SectionFits s) :
    readWord bytes next 8 = .ok (8 + s.1.length + 1 + s.2.flatten.length) ∧
      readWord bytes (next + 8) 8 = .ok (s.2.length % 2 ^ 64) ∧
      s.1 ++ [0] <+: bytes.drop (next + 16) ∧
      s.2.flatten <+: bytes.drop (next + 16 + s.1.length + 1) ∧
      SectionsAt bytes (next + 8 + (8 + s.1.length + 1 + s.2.flatten.length)) secs := by
  rw [SectionsAt, List.map_cons, List.flatten_cons, List.append_assoc] at h
  obtain ⟨hsize, hcount, hname, hrows, hmore⟩ := read_sectionBytes h hfit.2
  exact ⟨hsize, hcount, hname, (List.prefix_append _ _).trans hrows, hmore⟩

/-- At the end marker the reader stops. -/
theorem SectionsAt.nil {next : Nat} (h : SectionsAt bytes next []) : readWord bytes next 8 = .ok uint64Max := by
  rw [SectionsAt, List.map_nil, List.flatten_nil, List.nil_append] at h
  rw [readWord_eq (by decide) h]
  rfl

/-- The sections are no more than the bytes. -/
theorem SectionsAt.length_lt {next : Nat} {secs : List (List UInt8 × List (List UInt8))}
    (h : SectionsAt bytes next secs) : secs.length < bytes.length + 1 := by
  have hle := (show SectionsAt bytes next secs from h).length_le
  have hsec := length_le_length_sections secs
  simp only [List.length_append, length_leBytes, List.length_drop] at hle
  omega

/-- `validate_section` walks every section to the end marker. -/
theorem validateSections_eq :
    ∀ (secs : List (List UInt8 × List (List UInt8))) (fuel next : Nat), SectionsAt bytes next secs →
      secs.length < fuel → (∀ s ∈ secs, SectionFits s) → validateSections bytes fuel next = .ok ()
  | _, 0, _, _, hfuel, _ => absurd hfuel (Nat.not_lt_zero _)
  | [], fuel + 1, next, h, _, _ => by
    rw [validateSections, h.nil]
    rfl
  | s :: secs, fuel + 1, next, h, hfuel, hfits => by
    have hfit := hfits s List.mem_cons_self
    obtain ⟨hsize, -, -, -, hmore⟩ := h.cons hfit
    -- the next section, or the end marker, stands within the stream
    have hnext := add_length_le_length (List.ne_nil_of_length_pos (by simp)) hmore
    rw [validateSections, hsize]
    simp only [bind, Except.bind, if_neg (Nat.ne_of_lt hfit.2)]
    rw [if_neg (show ¬ bytes.length < next + 8 + (8 + s.1.length + 1 + s.2.flatten.length) by omega)]
    exact validateSections_eq secs fuel _ hmore (by simpa using hfuel) fun s hs => hfits s (List.mem_cons_of_mem _ hs)

/-- `has_section` walks the sections until one passes the name test, or to the end marker. -/
theorem hasSectionLoop_eq {n : List UInt8} (hn : 0 ∉ n) :
    ∀ (secs : List (List UInt8 × List (List UInt8))) (fuel next : Nat), SectionsAt bytes next secs →
      secs.length < fuel → (∀ s ∈ secs, SectionFits s) →
      hasSectionLoop bytes n fuel next = .ok (decide (n ∈ secs.map Prod.fst ∧ ∀ c ∈ n, c < 0x80))
  | _, 0, _, _, hfuel, _ => absurd hfuel (Nat.not_lt_zero _)
  | [], fuel + 1, next, h, _, _ => by
    rw [hasSectionLoop, h.nil]
    simp [bind, Except.bind, pure, Except.pure]
  | s :: secs, fuel + 1, next, h, hfuel, hfits => by
    have hfit := hfits s List.mem_cons_self
    obtain ⟨hsize, hcount, hname, -, hmore⟩ := h.cons hfit
    have ih := hasSectionLoop_eq hn secs fuel _ hmore (by simpa using hfuel)
      fun s hs => hfits s (List.mem_cons_of_mem _ hs)
    rw [hasSectionLoop, hsize]
    simp only [bind, Except.bind, if_neg (Nat.ne_of_lt hfit.2), hcount]
    by_cases hm : n = s.1 ∧ ∀ c ∈ n, c < 0x80
    · have hmem : n ∈ (s :: secs).map Prod.fst := by simp [hm.1]
      rw [if_pos ((nameMatches_iff hname hfit.1 hn).mpr hm), decide_eq_true ⟨hmem, hm.2⟩]
      rfl
    · -- the name test fails here, and the answer is the one for the sections after
      rw [if_neg (mt (nameMatches_iff hname hfit.1 hn).mp hm), ih]
      congr 1
      exact decide_eq_decide.mpr (by simp only [List.map_cons, List.mem_cons]; tauto)

/-- `set_section` finds no section where `has_section` finds none. -/
theorem setSectionLoop_eq_error {n : List UInt8} (hn : 0 ∉ n) :
    ∀ (secs : List (List UInt8 × List (List UInt8))) (fuel next : Nat), SectionsAt bytes next secs →
      secs.length < fuel → (∀ s ∈ secs, SectionFits s) → ¬ (n ∈ secs.map Prod.fst ∧ ∀ c ∈ n, c < 0x80) →
      setSectionLoop bytes n fuel next = .error (.snapshot "Binary snapshot has no section named ${n}")
  | _, 0, _, _, hfuel, _, _ => absurd hfuel (Nat.not_lt_zero _)
  | [], fuel + 1, next, h, _, _, _ => by
    rw [setSectionLoop, h.nil]
    rfl
  | s :: secs, fuel + 1, next, h, hfuel, hfits, hnot => by
    have hfit := hfits s List.mem_cons_self
    obtain ⟨hsize, hcount, hname, -, hmore⟩ := h.cons hfit
    have hm : ¬ (n = s.1 ∧ ∀ c ∈ n, c < 0x80) := fun hm => hnot ⟨by simp [hm.1], hm.2⟩
    rw [setSectionLoop, hsize]
    simp only [bind, Except.bind, if_neg (Nat.ne_of_lt hfit.2), hcount]
    rw [if_neg (mt (nameMatches_iff hname hfit.1 hn).mp hm)]
    exact setSectionLoop_eq_error hn secs fuel _ hmore (by simpa using hfuel)
      (fun s hs => hfits s (List.mem_cons_of_mem _ hs)) fun h' => hnot ⟨by simp [h'.1], h'.2⟩

/-- `set_section` stops at the section of the name, past the sections of other names before it. -/
theorem setSectionLoop_eq_ok {n : List UInt8} {rows : List (List UInt8)} {post : List (List UInt8 × List (List UInt8))}
    (hn : 0 ∉ n) (hascii : ∀ c ∈ n, c < 0x80) (hfit : SectionFits (n, rows)) :
    ∀ (pre : List (List UInt8 × List (List UInt8))) (fuel next : Nat),
      SectionsAt bytes next (pre ++ (n, rows) :: post) → pre.length < fuel → (∀ s ∈ pre, SectionFits s ∧ s.1 ≠ n) →
      setSectionLoop bytes n fuel next =
        .ok (rows.length % 2 ^ 64, next + (pre.map fun s => sectionBytes s.1 s.2).flatten.length + 16 + n.length + 1)
  | _, 0, _, _, hfuel, _ => absurd hfuel (Nat.not_lt_zero _)
  | [], fuel + 1, next, h, _, _ => by
    obtain ⟨hsize, hcount, hname, -, -⟩ := SectionsAt.cons h hfit
    rw [setSectionLoop, hsize]
    simp only [bind, Except.bind, if_neg (Nat.ne_of_lt hfit.2), hcount]
    rw [if_pos ((nameMatches_iff hname hfit.1 hn).mpr ⟨rfl, hascii⟩)]
    simp [pure, Except.pure]
  | s :: pre, fuel + 1, next, h, hfuel, hpre => by
    obtain ⟨hfit', hne⟩ := hpre s List.mem_cons_self
    obtain ⟨hsize, hcount, hname, -, hmore⟩ := SectionsAt.cons h hfit'
    rw [setSectionLoop, hsize]
    simp only [bind, Except.bind, if_neg (Nat.ne_of_lt hfit'.2), hcount]
    rw [if_neg (mt (nameMatches_iff hname hfit'.1 hn).mp fun h' => hne h'.1.symm),
      setSectionLoop_eq_ok hn hascii hfit pre fuel _ hmore (by simpa using hfuel)
        fun s hs => hpre s (List.mem_cons_of_mem _ hs)]
    simp [sectionBytes]
    omega

/-- Past sections `pre` stand the sections after them. -/
theorem SectionsAt.append {next : Nat} {pre secs : List (List UInt8 × List (List UInt8))}
    (h : SectionsAt bytes next (pre ++ secs)) :
    SectionsAt bytes (next + (pre.map fun s => sectionBytes s.1 s.2).flatten.length) secs := by
  rw [SectionsAt, List.map_append, List.flatten_append, List.append_assoc] at h
  exact prefix_drop_of_append h

/-- What a read leaves is what stands at the end of the stream. -/
theorem drop_length_sub_of_drop_eq {pos : Nat} {read rest : List UInt8} (h : bytes.drop pos = read ++ rest) :
    bytes.drop (bytes.length - rest.length) = rest :=
  (List.suffix_iff_eq_drop.mp ((List.suffix_append read rest).trans (h ▸ List.drop_suffix pos bytes))).symm

section Rows

variable {Row : Type} (c : Codec Row)

/-- The row counter moves by one without wrapping while rows are left. -/
theorem toNat_curRow_add_one {r : IstreamSnapshotReader} (h : r.curRow.toNat < r.numRows.toNat) :
    (r.curRow + 1).toNat = r.curRow.toNat + 1 := by
  have := r.numRows.toNat_lt
  rw [UInt64.toNat_add, UInt64.toNat_one, Nat.mod_eq_of_lt (by omega)]

/-- `read_row` over a packed row: the row, the reader past it, and whether rows are left. -/
theorem readRow_of_drop (hc : ∀ x rest, c.unpack (c.pack x ++ rest) = .ok (x, rest)) {r : IstreamSnapshotReader}
    {x : Row} {rest : List UInt8} (h : r.snapshot.drop r.pos = c.pack x ++ rest) :
    readRow c r = .ok (x, { r with pos := r.snapshot.length - rest.length, curRow := r.curRow + 1 },
      decide (r.curRow + 1 < r.numRows)) := by
  rw [readRow, h, hc]

/-- **The read loop** over the packed rows of a section, counted from `cur_row`, returns the rows. -/
theorem readRowsLoop_eq (hc : ∀ x rest, c.unpack (c.pack x ++ rest) = .ok (x, rest)) :
    ∀ (rows : List Row) (r : IstreamSnapshotReader) (rest : List UInt8), rows ≠ [] →
      r.snapshot.drop r.pos = (rows.map c.pack).flatten ++ rest → r.curRow.toNat + rows.length = r.numRows.toNat →
      readRowsLoop c rows.length r = .ok rows
  | [x], r, rest, _, h, hcount => by
    rw [List.map_singleton, List.flatten_singleton] at h
    rw [List.length_singleton] at hcount
    -- the pre-increment reaches `num_rows`: the last row
    have hlast : ¬ r.curRow + 1 < r.numRows := by
      rw [UInt64.lt_iff_toNat_lt, toNat_curRow_add_one (by omega)]
      omega
    rw [List.length_singleton, readRowsLoop, readRow_of_drop c hc h]
    simp [hlast, bind, Except.bind, pure, Except.pure]
  | x :: y :: ys, r, rest, _, h, hcount => by
    rw [List.map_cons, List.flatten_cons, List.append_assoc] at h
    rw [List.length_cons, List.length_cons] at hcount
    have hnext := toNat_curRow_add_one (r := r) (by omega)
    have hmore : r.curRow + 1 < r.numRows := by
      rw [UInt64.lt_iff_toNat_lt, hnext]
      omega
    have ih := readRowsLoop_eq hc (y :: ys)
      { r with pos := r.snapshot.length - (((y :: ys).map c.pack).flatten ++ rest).length, curRow := r.curRow + 1 }
      rest (List.cons_ne_nil _ _) (drop_length_sub_of_drop_eq h) (by simp only [hnext, List.length_cons]; omega)
    rw [List.length_cons, readRowsLoop, readRow_of_drop c hc h]
    simp only [bind, Except.bind, hmore, decide_true, if_true]
    rw [ih]
    rfl

end Rows

/-! ### A snapshot in the format -/

section Format

variable {secs : List (List UInt8 × List (List UInt8))} {junk : List UInt8}

theorem prefix_snapshotBytes :
    leBytes 4 magicNumber ++ (leBytes 4 currentSnapshotVersion ++
      ((secs.map fun s => sectionBytes s.1 s.2).flatten ++ leBytes 8 uint64Max)) <+: (snapshotBytes secs ++ junk).drop 0 :=
  ⟨junk, by simp only [snapshotBytes, List.append_assoc, List.drop_zero]⟩

theorem sectionsAt_snapshotBytes : SectionsAt (snapshotBytes secs ++ junk) 8 secs := by
  have h := prefix_drop_of_append (prefix_drop_of_append (@prefix_snapshotBytes secs junk))
  simp only [length_leBytes, Nat.zero_add, Nat.reduceAdd] at h
  exact h

/-- `validate` accepts a snapshot in the format. -/
theorem validate_snapshotBytes (hfits : ∀ s ∈ secs, SectionFits s) :
    (create (snapshotBytes secs ++ junk)).validate = .ok () := by
  have hmagic : readWord (snapshotBytes secs ++ junk) 0 4 = .ok magicNumber :=
    readWord_eq (by decide) ((List.prefix_append _ _).trans prefix_snapshotBytes)
  have hversion : readWord (snapshotBytes secs ++ junk) (0 + 4) 4 = .ok currentSnapshotVersion := by
    have h := prefix_drop_of_append (@prefix_snapshotBytes secs junk)
    rw [length_leBytes] at h
    exact readWord_eq (by decide) ((List.prefix_append _ _).trans h)
  have hat : SectionsAt (snapshotBytes secs ++ junk) 8 secs := sectionsAt_snapshotBytes
  have hsections := validateSections_eq secs _ 8 hat hat.length_lt hfits
  simp only [validate, create, hmagic, hversion]
  rw [if_neg (by decide), if_neg (by decide)]
  simp only [Nat.zero_add, hsections]

/-- `has_section` over a snapshot in the format: the names of its sections whose bytes are all below `0x80`. -/
theorem hasSection_snapshotBytes (hfits : ∀ s ∈ secs, SectionFits s) {n : List UInt8} (hn : 0 ∉ n) :
    (create (snapshotBytes secs ++ junk)).hasSection n =
      .ok (decide (n ∈ secs.map Prod.fst ∧ ∀ c ∈ n, c < 0x80)) := by
  have hat : SectionsAt (snapshotBytes secs ++ junk) 8 secs := sectionsAt_snapshotBytes
  exact hasSectionLoop_eq hn secs _ _ hat hat.length_lt hfits

/-- `set_section` of a name `has_section` does not find throws. -/
theorem setSection_snapshotBytes_error (hfits : ∀ s ∈ secs, SectionFits s) {n : List UInt8} (hn : 0 ∉ n)
    (hnot : ¬ (n ∈ secs.map Prod.fst ∧ ∀ c ∈ n, c < 0x80)) :
    (create (snapshotBytes secs ++ junk)).setSection n =
      .error (.snapshot "Binary snapshot has no section named ${n}") := by
  have hat : SectionsAt (snapshotBytes secs ++ junk) 8 secs := sectionsAt_snapshotBytes
  rw [setSection]
  simp only [create]
  rw [setSectionLoop_eq_error hn secs _ _ hat hat.length_lt hfits hnot]
  rfl

/-- `set_section` of the name of a section, all of whose bytes are below `0x80`: the reader stands at the rows of
that section and counts them. -/
theorem setSection_snapshotBytes {n : List UInt8} {rows : List (List UInt8)} (hfits : ∀ s ∈ secs, SectionFits s)
    (hnames : (secs.map Prod.fst).Nodup) (hmem : (n, rows) ∈ secs) (hascii : ∀ c ∈ n, c < 0x80) :
    ∃ pos, (create (snapshotBytes secs ++ junk)).setSection n =
        .ok ⟨snapshotBytes secs ++ junk, pos, 0, UInt64.ofNat (rows.length % 2 ^ 64), 0⟩ ∧
      rows.flatten <+: (snapshotBytes secs ++ junk).drop pos := by
  obtain ⟨pre, post, rfl⟩ := List.append_of_mem hmem
  have hat : SectionsAt (snapshotBytes (pre ++ (n, rows) :: post) ++ junk) 8 (pre ++ (n, rows) :: post) :=
    sectionsAt_snapshotBytes
  have hfit : SectionFits (n, rows) := hfits _ (by simp)
  -- the sections before it have other names: the names are distinct
  have hpre : ∀ s ∈ pre, SectionFits s ∧ s.1 ≠ n := by
    intro s hs
    refine ⟨hfits s (List.mem_append_left _ hs), ?_⟩
    rw [List.map_append, List.map_cons, List.nodup_append] at hnames
    exact hnames.2.2 _ (List.mem_map_of_mem hs) _ List.mem_cons_self
  have hfuel : pre.length < (snapshotBytes (pre ++ (n, rows) :: post) ++ junk).length + 1 := by
    have := hat.length_lt
    rw [List.length_append, List.length_cons] at this
    omega
  have hloop := setSectionLoop_eq_ok hfit.1 hascii hfit pre _ _ hat hfuel hpre
  obtain ⟨-, -, -, hrows, -⟩ := hat.append.cons hfit
  refine ⟨_, ?_, hrows⟩
  rw [setSection]
  simp only [create]
  rw [hloop]
  rfl

theorem empty_iff {r : IstreamSnapshotReader} : r.empty = true ↔ r.numRows.toNat = 0 := by
  rw [empty, beq_iff_eq, ← UInt64.toNat_inj, UInt64.toNat_zero]

/-- **`read_section`** of a section, with a name whose bytes are all below `0x80`: the rows of the section. -/
theorem readSection_snapshotBytes {Row : Type} (c : Codec Row)
    (hc : ∀ x rest, c.unpack (c.pack x ++ rest) = .ok (x, rest)) {n : List UInt8} {rows : List Row}
    (hfits : ∀ s ∈ secs, SectionFits s) (hnames : (secs.map Prod.fst).Nodup) (hmem : (n, rows.map c.pack) ∈ secs)
    (hascii : ∀ c ∈ n, c < 0x80) (hcount : rows.length < 2 ^ 64) :
    (create (snapshotBytes secs ++ junk)).readSection c n = .ok rows := by
  obtain ⟨pos, hset, rest, hrows⟩ := @setSection_snapshotBytes secs junk _ _ hfits hnames hmem hascii
  have hnum : (UInt64.ofNat ((rows.map c.pack).length % 2 ^ 64)).toNat = rows.length := by
    rw [List.length_map, Nat.mod_eq_of_lt hcount, UInt64.toNat_ofNat_of_lt' hcount]
  rw [readSection, hset]
  simp only [bind, Except.bind]
  by_cases hempty : rows = []
  · subst hempty
    rfl
  · have hne : ¬ (IstreamSnapshotReader.empty ⟨snapshotBytes secs ++ junk, pos, 0,
        UInt64.ofNat ((rows.map c.pack).length % 2 ^ 64), 0⟩ = true) := by
      rw [empty_iff]
      simp only [hnum]
      exact fun h => hempty (List.eq_nil_of_length_eq_zero h)
    rw [if_neg hne]
    simp only [hnum]
    exact readRowsLoop_eq c hc rows _ rest hempty hrows.symm (by simp only [hnum, UInt64.toNat_zero, Nat.zero_add])

end Format

end IstreamSnapshotReader

/-! ## The round trip -/

/-- What the `f` of `write_section` does with a row: hand it to the row writer, which packs it, or write some bytes
and throw. -/
inductive RowAttempt (Row : Type)
  | row (r : Row)
  | throws (before : List UInt8)

namespace RowAttempt

variable {Row : Type}

/-- What the stream sees of an attempt. -/
def toRowWrite (c : Codec Row) : RowAttempt Row → RowWrite
  | .row r => .written (c.pack r)
  | .throws before => .threw before

/-- The row, when its writer did not throw. -/
def row? : RowAttempt Row → Option Row
  | .row r => some r
  | .throws _ => none

theorem filterMap_bytes?_toRowWrite (c : Codec Row) (rows : List (RowAttempt Row)) :
    (rows.map (toRowWrite c)).filterMap RowWrite.bytes? = (rows.filterMap row?).map c.pack := by
  induction rows with
  | nil => rfl
  | cons a rows ih =>
    cases a <;> simp only [List.map_cons, List.filterMap_cons, toRowWrite, row?, RowWrite.bytes?, ih]

end RowAttempt

theorem snapshot_round_trip {Row : Type} (c : Codec Row)
    (hc : ∀ x rest, c.unpack (c.pack x ++ rest) = .ok (x, rest))
    (sections : List (List UInt8 × List (RowAttempt Row))) (hnames : (sections.map Prod.fst).Nodup)
    (hfits : ∀ s ∈ sections, SectionFits (s.1, (s.2.filterMap RowAttempt.row?).map c.pack) ∧
      (s.2.filterMap RowAttempt.row?).length < 2 ^ 64) :
    ∃ bytes, writeSnapshot (sections.map fun s => (s.1, s.2.map (RowAttempt.toRowWrite c))) = .ok bytes ∧
      (IstreamSnapshotReader.create bytes).validate = .ok () ∧
      (∀ n, 0 ∉ n → (IstreamSnapshotReader.create bytes).hasSection n =
        .ok (decide (n ∈ sections.map Prod.fst ∧ ∀ b ∈ n, b < 0x80))) ∧
      ∀ s ∈ sections,
        ((∀ b ∈ s.1, b < 0x80) →
          (∃ r, (IstreamSnapshotReader.create bytes).setSection s.1 = .ok r ∧
            (r.empty = true ↔ s.2.filterMap RowAttempt.row? = [])) ∧
          (IstreamSnapshotReader.create bytes).readSection c s.1 = .ok (s.2.filterMap RowAttempt.row?)) ∧
        ((∃ b ∈ s.1, 0x80 ≤ b) → (IstreamSnapshotReader.create bytes).setSection s.1 =
          .error (.snapshot "Binary snapshot has no section named ${n}")) := by
  -- the sections as the reader finds them: the packed rows whose writer did not throw
  obtain ⟨junk, hw⟩ := writeSnapshot_eq (sections.map fun s => (s.1, s.2.map (RowAttempt.toRowWrite c)))
  have hsecs : (sections.map fun s => (s.1, s.2.map (RowAttempt.toRowWrite c))).map
      (fun s => (s.1, s.2.filterMap RowWrite.bytes?)) =
      sections.map fun s => (s.1, (s.2.filterMap RowAttempt.row?).map c.pack) := by
    rw [List.map_map]
    exact List.map_congr_left fun s _ => by
      simp only [Function.comp_apply, RowAttempt.filterMap_bytes?_toRowWrite]
  rw [hsecs] at hw
  have hnames_eq : (sections.map fun s => (s.1, (s.2.filterMap RowAttempt.row?).map c.pack)).map Prod.fst =
      sections.map Prod.fst := by
    simp [Function.comp_def]
  have hnames' := hnames_eq ▸ hnames
  have hfits' : ∀ s ∈ sections.map fun s => (s.1, (s.2.filterMap RowAttempt.row?).map c.pack), SectionFits s := by
    simp only [List.mem_map]
    rintro _ ⟨s, hs, rfl⟩
    exact (hfits s hs).1
  refine ⟨_, hw, IstreamSnapshotReader.validate_snapshotBytes hfits', fun n hn => ?_,
    fun s hs => ⟨fun hascii => ?_, fun hhigh => ?_⟩⟩
  · rw [IstreamSnapshotReader.hasSection_snapshotBytes hfits' hn, hnames_eq]
  · have hmem : (s.1, (s.2.filterMap RowAttempt.row?).map c.pack) ∈
        sections.map fun s => (s.1, (s.2.filterMap RowAttempt.row?).map c.pack) :=
      List.mem_map_of_mem (f := fun s => (s.1, (s.2.filterMap RowAttempt.row?).map c.pack)) hs
    obtain ⟨pos, hset, -⟩ := @IstreamSnapshotReader.setSection_snapshotBytes _ junk _ _ hfits' hnames' hmem hascii
    refine ⟨⟨_, hset, ?_⟩,
      IstreamSnapshotReader.readSection_snapshotBytes c hc hfits' hnames' hmem hascii (hfits s hs).2⟩
    rw [IstreamSnapshotReader.empty_iff, List.length_map, Nat.mod_eq_of_lt (hfits s hs).2,
      UInt64.toNat_ofNat_of_lt' (hfits s hs).2, List.length_eq_zero_iff]
  · have hnot : ¬ (s.1 ∈ sections.map Prod.fst ∧ ∀ b ∈ s.1, b < 0x80) := by
      obtain ⟨b, hb, hge⟩ := hhigh
      exact fun h => absurd (h.2 b hb) (UInt8.not_lt.mpr hge)
    exact IstreamSnapshotReader.setSection_snapshotBytes_error hfits' (hfits s hs).1.1 (hnames_eq ▸ hnot)

/-- Two sections of one-byte rows: `ab`, where the writer of the middle row throws, and `é` (`0xC3 0xA9`). -/
def accentedSections : List (List UInt8 × List (RowAttempt UInt8)) :=
  [([97, 98], [.row 1, .throws [9, 9, 9], .row 3]), ([0xC3, 0xA9], [.row 7])]

theorem accented_section_not_found :
    ∃ bytes, writeSnapshot (accentedSections.map fun s => (s.1, s.2.map (RowAttempt.toRowWrite uint8Codec))) =
        .ok bytes ∧
      (IstreamSnapshotReader.create bytes).readSection uint8Codec [97, 98] = .ok [1, 3] ∧
      (IstreamSnapshotReader.create bytes).hasSection [0xC3, 0xA9] = .ok false ∧
      (IstreamSnapshotReader.create bytes).setSection [0xC3, 0xA9] =
        .error (.snapshot "Binary snapshot has no section named ${n}") := by
  obtain ⟨bytes, hw, -, hhas, hsec⟩ :=
    snapshot_round_trip uint8Codec uint8Codec_unpack_pack accentedSections (by decide) (by decide)
  refine ⟨bytes, hw, ((hsec _ List.mem_cons_self).1 (by simp)).2, ?_, ?_⟩
  · rw [hhas _ (by decide)]
    simp
  · exact (hsec _ (List.mem_cons_of_mem _ List.mem_cons_self)).2 ⟨0xC3, by simp, by decide⟩

end Gstio.Chain
