import Sockcan.Numerals
import Sockcan.Protocol.Frame

/-! The trace file of `_CandumpWriter`: what it writes for a frame, and what a reader of the
file finds. The times are texts, which are answered from outside. -/
namespace Sockcan.Server
open Protocol Numerals

inductive TraceDirection where
  | rx
  | tx
  deriving DecidableEq

def TraceDirection.text : TraceDirection → List Char
  | .rx => ['R', 'x']
  | .tx => ['T', 'x']

/-- One line of the file. -/
structure TraceEntry where
  number : Nat
  offset : List Char
  direction : TraceDirection
  frame : Frame
  deriving DecidableEq

structure CandumpWriter where
  counter : Nat
  file : List Char
  closed : Bool
  deriving DecidableEq

section Format

/-- `f"{can_id:08X}" if is_extended else f"{can_id:03X}"`. -/
def idField (frame : Frame) : List Char :=
  pad '0' (if frame.isExtended then 8 else 3) (numeral 16 frame.canId)

/-- `f"{byte:02X}"`. -/
def byteField (byte : UInt8) : List Char := pad '0' 2 (numeral 16 byte.toNat)

def payloadField (data : List UInt8) : List Char := [' '].intercalate (data.map byteField)

/-- A line without its end. -/
def TraceEntry.row (entry : TraceEntry) : List Char :=
  pad ' ' 7 (numeral 10 entry.number) ++ ')' :: ' ' ::
    (pad ' ' 13 entry.offset ++ ' ' :: '1' :: ' ' ::
      (entry.direction.text ++ ' ' ::
        (pad ' ' 8 (idField entry.frame) ++ ' ' ::
          (numeral 10 entry.frame.data.length ++ ' ' :: payloadField entry.frame.data))))

def TraceEntry.line (entry : TraceEntry) : List Char := entry.row ++ ['\n']

def versionRow : List Char := ";$FILEVERSION=1.1".toList

def startTimeKey : List Char := ";$STARTTIME=".toList

def columnsRow : List Char := ";$COLUMNS=N,T,B,I,d,L,D".toList

def traceHeader (startTime : List Char) : List Char :=
  versionRow ++ '\n' :: (startTimeKey ++ startTime ++ '\n' :: (columnsRow ++ ['\n']))

/-- `_CandumpWriter.__init__`. -/
def CandumpWriter.open (startTime : List Char) : CandumpWriter := ⟨0, traceHeader startTime, false⟩

/-- `_CandumpWriter.write`, which counts also where it raises: the file may be closed. -/
def CandumpWriter.write (writer : CandumpWriter) (offset : List Char) (direction : TraceDirection)
    (frame : Frame) : CandumpWriter × Bool :=
  let counted := { writer with counter := writer.counter + 1 }
  if counted.closed then (counted, false)
  else
    let entry : TraceEntry := ⟨counted.counter, offset, direction, frame⟩
    ({ counted with file := counted.file ++ entry.line }, true)

def CandumpWriter.close (writer : CandumpWriter) : CandumpWriter := { writer with closed := true }

end Format

section Reader

def readDirection (text : List Char) : Option TraceDirection :=
  if text = TraceDirection.rx.text then some .rx
  else if text = TraceDirection.tx.text then some .tx
  else none

/-- What a line says. The width of the id tells which kind it is. -/
def readRow (row : List Char) : Option TraceEntry :=
  match words row with
  | number :: offset :: _ :: direction :: id :: length :: bytes => do
    let number ← readNumeral 10 number.dropLast
    let direction ← readDirection direction
    let canId ← readNumeral 16 id
    let data ← bytes.mapM fun byte => (readNumeral 16 byte).map UInt8.ofNat
    if readNumeral 10 length = some data.length then
      some ⟨number, offset, direction, ⟨canId, data, decide (id.length = 8)⟩⟩
    else none
  | _ => none

/-- The line is none of the header, and not what is behind the last end of a line. -/
def isEntry : List Char → Bool
  | [] => false
  | first :: _ => decide (first ≠ ';')

def readTrace (file : List Char) : Option (List TraceEntry) :=
  ((file.splitOn '\n').filter isEntry).mapM readRow

end Reader

/-- A reader takes the frame for what it is: no short id is written with eight digits. -/
def Legible (frame : Frame) : Prop := frame.isExtended ∨ frame.canId < 2 ^ 28

instance (frame : Frame) : Decidable (Legible frame) := inferInstanceAs (Decidable (_ ∨ _))

section Words
variable {entry : TraceEntry} {frame : Frame}

theorem TraceDirection.isWord (direction : TraceDirection) : IsWord direction.text := by
  cases direction <;> exact ⟨by decide, by decide, by decide⟩

theorem isWord_idField (frame : Frame) : IsWord (idField frame) := isWord_pad_numeral 16 _ _

theorem isWord_byteField (byte : UInt8) : IsWord (byteField byte) := isWord_pad_numeral 16 2 _

theorem isWord_numbered (n : Nat) : IsWord (numeral 10 n ++ [')']) := by
  obtain ⟨_, blank, line_end⟩ := isWord_numeral 10 n
  refine ⟨by simp, ?_, ?_⟩
  · simpa using blank
  · simpa using line_end

/-- The fields of a line are its words. -/
theorem words_row (offset : IsWord entry.offset) :
    words entry.row = (numeral 10 entry.number ++ [')']) :: entry.offset :: ['1'] ::
      entry.direction.text :: idField entry.frame :: numeral 10 entry.frame.data.length ::
        entry.frame.data.map byteField := by
  have bytes : ∀ text ∈ entry.frame.data.map byteField, IsWord text := by
    intro text member
    obtain ⟨byte, _, rfl⟩ := List.mem_map.mp member
    exact isWord_byteField byte
  have first : pad ' ' 7 (numeral 10 entry.number) ++ [')'] =
      List.replicate (7 - (numeral 10 entry.number).length) ' ' ++
        (numeral 10 entry.number ++ [')']) := List.append_assoc _ _ _
  have split : entry.row = (pad ' ' 7 (numeral 10 entry.number) ++ [')']) ++ ' ' ::
      (pad ' ' 13 entry.offset ++ ' ' :: (['1'] ++ ' ' ::
        (entry.direction.text ++ ' ' ::
          (pad ' ' 8 (idField entry.frame) ++ ' ' ::
            (numeral 10 entry.frame.data.length ++ ' ' ::
              payloadField entry.frame.data))))) := by
    simp [TraceEntry.row]
  rw [split, words_append, first, words_blanks, words_append, words_pad, words_append,
    words_append, words_append, words_pad, words_append, payloadField, words_join bytes,
    words_word (isWord_numbered _), words_word offset, words_word ⟨by decide, by decide, by decide⟩,
    words_word entry.direction.isWord, words_word (isWord_idField _),
    words_word (isWord_numeral 10 _)]
  rfl

theorem readDirection_text (direction : TraceDirection) :
    readDirection direction.text = some direction := by
  cases direction <;> rfl

theorem readByte (byte : UInt8) :
    (readNumeral 16 (byteField byte)).map UInt8.ofNat = some byte := by
  have read : readNumeral 16 (byteField byte) = some byte.toNat :=
    readNumeral_pad (by decide) (by decide) 2 byte.toNat
  rw [read, Option.map_some, UInt8.ofNat_toNat]

theorem mapM_readByte (data : List UInt8) :
    data.mapM ((fun byte => (readNumeral 16 byte).map UInt8.ofNat) ∘ byteField) = some data := by
  induction data with
  | nil => rfl
  | cons byte rest ih => simp [readByte, ih]

/-- The width of the id. -/
theorem idField_length (frame : Frame) :
    (idField frame).length =
      max (if frame.isExtended then 8 else 3) (numeral 16 frame.canId).length := by
  rw [idField, pad, List.length_append, List.length_replicate]
  omega

theorem legible_iff (word : frame.canId < 2 ^ 32) :
    Legible frame ↔ decide ((idField frame).length = 8) = frame.isExtended := by
  have eight : (numeral 16 frame.canId).length ≤ 8 ↔ frame.canId < 16 ^ 8 :=
    numeral_length_le (by decide) (by decide)
  have seven : (numeral 16 frame.canId).length ≤ 7 ↔ frame.canId < 16 ^ 7 :=
    numeral_length_le (by decide) (by decide)
  rw [Legible, idField_length]
  cases frame.isExtended with
  | true =>
    simp only [true_or, if_true, true_iff, decide_eq_true_iff]
    omega
  | false =>
    simp only [Bool.false_eq_true, false_or, if_false, decide_eq_false_iff_not]
    omega

/-- A line is read back as it was meant, but for the kind of an id that is too wide for it. -/
theorem readRow_row (offset : IsWord entry.offset) : readRow entry.row =
    some { entry with frame.isExtended := decide ((idField entry.frame).length = 8) } := by
  have id : readNumeral 16 (idField entry.frame) = some entry.frame.canId :=
    readNumeral_pad (by decide) (by decide) _ _
  have number : readNumeral 10 (numeral 10 entry.number) = some entry.number :=
    readNumeral_numeral (by decide) (by decide) _
  have length : readNumeral 10 (numeral 10 entry.frame.data.length) =
      some entry.frame.data.length := readNumeral_numeral (by decide) (by decide) _
  simp [readRow, words_row offset, number, readDirection_text, id, mapM_readByte, length]

theorem readRow_eq_self_iff (offset : IsWord entry.offset) (word : entry.frame.canId < 2 ^ 32) :
    readRow entry.row = some entry ↔ Legible entry.frame := by
  rw [readRow_row offset, legible_iff word]
  obtain ⟨number, offset, direction, canId, data, isExtended⟩ := entry
  simp

end Words

section File
variable {entries : List TraceEntry} {startTime : List Char}

theorem line_end_not_mem_payload (data : List UInt8) : '\n' ∉ payloadField data := by
  rw [payloadField]
  induction data with
  | nil => simp
  | cons byte rest ih =>
    have field := (isWord_byteField byte).2.2
    cases rest with
    | nil => simpa using field
    | cons second later =>
      have joined : [' '].intercalate ((byte :: second :: later).map byteField) =
          byteField byte ++ ' ' :: [' '].intercalate ((second :: later).map byteField) := by simp
      rw [joined]
      simp only [List.mem_append, List.mem_cons, not_or]
      exact ⟨field, by decide, ih⟩

theorem line_end_not_mem_pad {width : Nat} {text : List Char} (absent : '\n' ∉ text) :
    '\n' ∉ pad ' ' width text := fun member =>
  (mem_pad member).elim (by decide) absent

/-- A row is one line. -/
theorem line_end_not_mem_row {entry : TraceEntry} (offset : IsWord entry.offset) :
    '\n' ∉ entry.row := by
  simp only [TraceEntry.row, List.mem_append, List.mem_cons, not_or]
  exact ⟨line_end_not_mem_pad (isWord_numeral 10 _).2.2, by decide, by decide,
    line_end_not_mem_pad offset.2.2, by decide, by decide, by decide, entry.direction.isWord.2.2,
    by decide, line_end_not_mem_pad (isWord_idField _).2.2, by decide, (isWord_numeral 10 _).2.2,
    by decide, line_end_not_mem_payload _⟩

theorem isEntry_row (entry : TraceEntry) : isEntry entry.row = true := by
  have first : ∃ c rest, pad ' ' 7 (numeral 10 entry.number) = c :: rest :=
    List.exists_cons_of_ne_nil (List.append_ne_nil_of_right_ne_nil _ (numeral_ne_nil 10 _))
  obtain ⟨c, rest, starts⟩ := first
  have other : c ≠ ';' := by
    rintro rfl
    rcases mem_pad (starts ▸ List.mem_cons_self) with blank | digit
    · exact absurd blank (by decide)
    · exact absurd (glyphs_of_numeral _ digit) (by decide)
  rw [TraceEntry.row, starts]
  exact decide_eq_true other

/-- The lines of the file that are to be read back. -/
theorem rows_file (entries : List TraceEntry)
    (offsets : ∀ entry ∈ entries, IsWord entry.offset) :
    ((entries.flatMap TraceEntry.line).splitOn '\n').filter isEntry =
      entries.map TraceEntry.row := by
  induction entries with
  | nil => simp [isEntry]
  | cons entry rest ih =>
    obtain ⟨first, others⟩ := List.forall_mem_cons.mp offsets
    have lines : (entry :: rest).flatMap TraceEntry.line =
        entry.row ++ '\n' :: rest.flatMap TraceEntry.line := by simp [TraceEntry.line]
    rw [lines, List.splitOn_append_cons_self_of_not_mem (line_end_not_mem_row first),
      List.filter_cons_of_pos (isEntry_row entry), ih others, List.map_cons]

/-- The header is skipped. -/
theorem rows_header {text : List Char} (oneLine : '\n' ∉ startTime) :
    ((traceHeader startTime ++ text).splitOn '\n').filter isEntry =
      (text.splitOn '\n').filter isEntry := by
  have version : isEntry versionRow = false := by decide
  have columns : isEntry columnsRow = false := by decide
  have key : startTimeKey = ';' :: startTimeKey.tail := by decide
  have started : isEntry (startTimeKey ++ startTime) = false := by
    rw [key]
    rfl
  have second : '\n' ∉ startTimeKey ++ startTime := fun member =>
    (List.mem_append.mp member).elim (by decide) oneLine
  have lines : traceHeader startTime ++ text = versionRow ++ '\n' ::
      ((startTimeKey ++ startTime) ++ '\n' :: (columnsRow ++ '\n' :: text)) := by
    simp only [traceHeader, List.append_assoc, List.cons_append, List.nil_append]
  rw [lines, List.splitOn_append_cons_self_of_not_mem (by decide),
    List.splitOn_append_cons_self_of_not_mem second,
    List.splitOn_append_cons_self_of_not_mem (by decide),
    List.filter_cons_of_neg (by simp [version]), List.filter_cons_of_neg (by simp [started]),
    List.filter_cons_of_neg (by simp [columns])]

theorem readTrace_entries_iff (oneLine : '\n' ∉ startTime)
    (offsets : ∀ entry ∈ entries, IsWord entry.offset)
    (ids : ∀ entry ∈ entries, entry.frame.canId < 2 ^ 32) :
    readTrace (traceHeader startTime ++ entries.flatMap TraceEntry.line) = some entries ↔
      ∀ entry ∈ entries, Legible entry.frame := by
  rw [readTrace, rows_header oneLine, rows_file entries offsets]
  induction entries with
  | nil => simp
  | cons entry rest ih =>
    obtain ⟨first, others⟩ := List.forall_mem_cons.mp offsets
    obtain ⟨word, words⟩ := List.forall_mem_cons.mp ids
    rw [List.forall_mem_cons, ← ih others words, ← readRow_eq_self_iff first word]
    constructor
    · intro read
      rw [List.map_cons, List.mapM_cons] at read
      obtain ⟨found, here, later⟩ := Option.bind_eq_some_iff.mp read
      obtain ⟨others, those, same⟩ := Option.bind_eq_some_iff.mp later
      obtain ⟨rfl, rfl⟩ := List.cons.inj (Option.some.inj same)
      exact ⟨here, those⟩
    · rintro ⟨here, later⟩
      rw [List.map_cons, List.mapM_cons, here, later]
      rfl

end File

section Writing

/-- The arguments of one `write`, and the time that it writes. -/
structure TraceWrite where
  offset : List Char
  direction : TraceDirection
  frame : Frame
  deriving DecidableEq

def TraceWrite.entry (number : Nat) (write : TraceWrite) : TraceEntry :=
  ⟨number, write.offset, write.direction, write.frame⟩

/-- The writes, numbered in their order. -/
def numbered : (counter : Nat) → List TraceWrite → List TraceEntry
  | _, [] => []
  | counter, write :: rest => write.entry (counter + 1) :: numbered (counter + 1) rest

def CandumpWriter.writeAll (writer : CandumpWriter) (writes : List TraceWrite) : CandumpWriter :=
  writes.foldl (fun writer write => (writer.write write.offset write.direction write.frame).1)
    writer

/-- A write that returns adds a line. -/
theorem CandumpWriter.write_returned {writer after : CandumpWriter} {offset : List Char}
    {direction : TraceDirection} {frame : Frame}
    (wrote : writer.write offset direction frame = (after, true)) :
    writer.closed = false ∧ after = { writer with
      counter := writer.counter + 1
      file := writer.file ++
        ((TraceWrite.mk offset direction frame).entry (writer.counter + 1)).line } := by
  cases closed : writer.closed with
  | true => simp [write, closed] at wrote
  | false =>
    simp only [write, closed, Bool.false_eq_true, if_false, Prod.mk.injEq] at wrote
    exact ⟨rfl, wrote.1.symm⟩

/-- A write raises where the file is closed, and leaves it as it is. -/
theorem CandumpWriter.write_raised {writer after : CandumpWriter} {offset : List Char}
    {direction : TraceDirection} {frame : Frame}
    (failed : writer.write offset direction frame = (after, false)) :
    writer.closed = true ∧ after = { writer with counter := writer.counter + 1 } := by
  cases closed : writer.closed with
  | true =>
    simp only [write, closed, if_true, Prod.mk.injEq] at failed
    exact ⟨rfl, failed.1.symm⟩
  | false => simp [write, closed] at failed

theorem numbered_append (counter : Nat) (writes : List TraceWrite) (write : TraceWrite) :
    numbered counter (writes ++ [write]) =
      numbered counter writes ++ [write.entry (counter + writes.length + 1)] := by
  induction writes generalizing counter with
  | nil => rfl
  | cons first rest ih =>
    have next : counter + 1 + rest.length = counter + (rest.length + 1) := by omega
    simp only [List.cons_append, numbered, ih, List.length_cons, next]

theorem numbered_length (counter : Nat) (writes : List TraceWrite) :
    (numbered counter writes).length = writes.length := by
  induction writes generalizing counter with
  | nil => rfl
  | cons write rest ih => simp [numbered, ih]

theorem numbered_number (counter : Nat) (writes : List TraceWrite) :
    (numbered counter writes).map TraceEntry.number =
      List.range' (counter + 1) writes.length := by
  induction writes generalizing counter with
  | nil => rfl
  | cons write rest ih =>
    rw [List.length_cons, List.range'_succ, ← ih]
    rfl

theorem CandumpWriter.writeAll_eq {writer : CandumpWriter} (opened : writer.closed = false)
    (writes : List TraceWrite) : writer.writeAll writes =
      { writer with
        counter := writer.counter + writes.length
        file := writer.file ++ (numbered writer.counter writes).flatMap TraceEntry.line } := by
  induction writes generalizing writer with
  | nil => simp [writeAll, numbered]
  | cons write rest ih =>
    let next : CandumpWriter := { writer with
      counter := writer.counter + 1
      file := writer.file ++ (write.entry (writer.counter + 1)).line }
    have first : (writer.write write.offset write.direction write.frame).1 = next := by
      simp [CandumpWriter.write, opened, TraceWrite.entry, next]
    have stays : next.closed = false := opened
    have later : next.writeAll rest = _ := ih stays
    rw [writeAll, List.foldl_cons, first]
    refine later.trans ?_
    simp [numbered, next, Nat.add_assoc, Nat.add_comm 1]

theorem forall_mem_numbered {P : List Char → Frame → Prop} {counter : Nat}
    {writes : List TraceWrite} :
    (∀ entry ∈ numbered counter writes, P entry.offset entry.frame) ↔
      ∀ write ∈ writes, P write.offset write.frame := by
  induction writes generalizing counter with
  | nil => simp [numbered]
  | cons write rest ih =>
    simp only [numbered, List.forall_mem_cons, ih]
    rfl

/-- The file says, line by line and numbered from one, what was written to it: exactly where
no id that is not extended is so wide that it is written with the eight digits of one that is. -/
theorem trace_read_back_iff {startTime : List Char} (oneLine : '\n' ∉ startTime)
    {writes : List TraceWrite} (offsets : ∀ write ∈ writes, IsWord write.offset)
    (ids : ∀ write ∈ writes, write.frame.canId < 2 ^ 32) :
    readTrace ((CandumpWriter.open startTime).writeAll writes).file = some (numbered 0 writes) ↔
      ∀ write ∈ writes, Legible write.frame := by
  rw [CandumpWriter.writeAll_eq rfl]
  refine (readTrace_entries_iff oneLine ?_ ?_).trans ?_
  · exact (forall_mem_numbered (P := fun offset _ => IsWord offset)).mpr offsets
  · exact (forall_mem_numbered (P := fun _ frame => frame.canId < 2 ^ 32)).mpr ids
  · exact forall_mem_numbered (P := fun _ frame => Legible frame)

/-- A frame from the bus, and one from a consumer without data. -/
def tracedWrites : List TraceWrite :=
  [⟨"0.4".toList, .rx, ⟨0x123, [0xDE, 0x0A], false⟩⟩, ⟨"1500.0".toList, .tx, ⟨0x7, [], true⟩⟩]

theorem trace_read_back_iff_both :
    readTrace ((CandumpWriter.open "1750000000.000000".toList).writeAll tracedWrites).file =
      some (numbered 0 tracedWrites) :=
  (trace_read_back_iff (by decide) (by decide) (by decide)).mpr (by decide)

end Writing

end Sockcan.Server
