import FixWire.Encoder.Cell
import FixWire.Proofs.Number.Digits
import FixWire.Proofs.Refusal

/-!
# What is written

The bytes of cells, as a function of the cells alone : a field that is set or required is written as one field,
and a group that has entries or is required as its counter and then its entries.

`Write.Emits` says of an action that it writes certain bytes wherever there is room for them. Actions one after
the other emit their bytes one after the other (`Write.Emits.seq`), so that nothing about buffers is needed
beyond single fields : writing cells emits their bytes (`emits_write`), which are as many as were announced
(`length_written`).
-/

namespace FixWire

/-! ## Buffers -/

namespace Bytes

variable {buffer a b : Bytes} {offset : Nat}

theorem overwrite_nil (buffer : Bytes) (offset : Nat) : buffer.overwrite offset [] = buffer := by
  rw [overwrite, List.append_nil, List.length_nil, Nat.add_zero, List.take_append_drop]

/-- Writing into a buffer keeps its length. -/
theorem length_overwrite (h : a.length ≤ buffer.length - offset) :
    (buffer.overwrite offset a).length = buffer.length := by
  simp only [overwrite, List.length_append, List.length_take, List.length_drop]
  omega

/-- What is written behind something is written together with it. -/
theorem overwrite_append (h : offset ≤ buffer.length) :
    (buffer.overwrite offset a).overwrite (offset + a.length) b = buffer.overwrite offset (a ++ b) := by
  have hlen : (buffer.take offset ++ a).length = offset + a.length := by
    rw [List.length_append, List.length_take, Nat.min_eq_left h]
  have htake : (buffer.overwrite offset a).take (offset + a.length) = buffer.take offset ++ a := by
    rw [overwrite, ← hlen, List.take_left]
  have hdrop : (buffer.overwrite offset a).drop (offset + a.length + b.length) =
      buffer.drop (offset + (a ++ b).length) := by
    rw [overwrite, ← List.drop_drop, ← hlen, List.drop_left, List.drop_drop, hlen, List.length_append, Nat.add_assoc]
  rw [overwrite, htake, hdrop, overwrite, List.append_assoc (buffer.take offset)]

/-- What has been written over a buffer is found there. -/
theorem window_overwrite (h : a.length ≤ buffer.length - offset) :
    (buffer.overwrite offset a).window offset a.length = a := by
  by_cases ha : a = []
  · simp [ha, window]
  · have : 0 < a.length := List.length_pos_iff.2 ha
    have hlen : (buffer.take offset).length = offset := by
      rw [List.length_take, Nat.min_eq_left (by omega)]
    rw [window, overwrite, List.append_assoc]
    nth_rewrite 1 [← hlen]
    rw [List.drop_left, List.take_left]

end Bytes

namespace Cursor

variable {c : Cursor} {a b : Bytes}

@[simp] theorem put_nil (c : Cursor) : c.put [] = c := by
  rw [put, Bytes.overwrite_nil, List.length_nil, Nat.add_zero]

/-- Writing takes up room. -/
theorem remaining_put (h : a.length ≤ c.remaining) : (c.put a).remaining = c.remaining - a.length := by
  rw [remaining, put, Bytes.length_overwrite h, remaining]
  dsimp only
  omega

/-- Writing twice is writing once. -/
theorem put_put (h : a.length ≤ c.remaining) : (c.put a).put b = c.put (a ++ b) := by
  by_cases ha : a = []
  · rw [ha, put_nil, List.nil_append]
  · have : 0 < a.length := List.length_pos_iff.2 ha
    rw [remaining] at h
    rw [put, put, put]
    dsimp only
    rw [Bytes.overwrite_append (by omega), List.length_append, Nat.add_assoc]

/-- The checksum of what has been written since the start is that of the bytes. -/
theorem checksumSince_put {buffer : Bytes} {offset : Nat} (h : a.length ≤ (start buffer offset).remaining) :
    ((start buffer offset).put a).checksumSince offset = checksum a := by
  have hwindow : (buffer.overwrite offset a).window offset a.length = a := Bytes.window_overwrite h
  change checksum ((buffer.overwrite offset a).window offset (offset + a.length - offset)) = checksum a
  rw [Nat.add_sub_cancel_left, hwindow]

end Cursor

/-! ## Actions and their bytes -/

namespace Write

/-- The action writes the bytes wherever there is room for them. -/
def Emits (w : Write Unit) (bytes : Bytes) : Prop :=
  ∀ c : Cursor, bytes.length ≤ c.remaining → w.run c = (.ok (), c.put bytes)

namespace Emits

variable {w w' : Write Unit} {a b : Bytes}

theorem nothing : Emits (pure ()) [] := by
  intro c _
  rw [Cursor.put_nil]
  rfl

/-- Actions one after the other emit their bytes one after the other. -/
theorem seq (h : Emits w a) (h' : Emits w' b) : Emits (do w; w') (a ++ b) := by
  intro c hc
  rw [List.length_append] at hc
  have ha : a.length ≤ c.remaining := by omega
  have hb : b.length ≤ (c.put a).remaining := by
    rw [Cursor.remaining_put ha]
    omega
  rw [run_bind, h c ha]
  dsimp only
  rw [h' _ hb, Cursor.put_put ha]

end Emits

/-- A field is written whole where there is room for it, and otherwise not at all. -/
theorem run_sized (tag : Tag) (length : Nat) (value : Bytes) (c : Cursor) :
    (sized tag length value).run c =
      if fieldLength tag length ≤ c.remaining then (.ok (), c.put (fieldBytes tag value))
      else (.error (.bufferTooShort (fieldLength tag length) c.remaining), c) := by
  have hensure : (ensure (fieldLength tag length)).run c = (c.ensure (fieldLength tag length), c) := rfl
  rw [sized, run_bind, hensure, Cursor.ensure]
  by_cases h : fieldLength tag length ≤ c.remaining
  · rw [if_neg (by omega), if_pos h]
    rfl
  · rw [if_pos (by omega), if_neg h]

/-- A field of a known length emits its bytes. -/
theorem emits_sized {tag : Tag} {length : Nat} {value : Bytes} (h : value.length = length) :
    Emits (sized tag length value) (fieldBytes tag value) := by
  intro c hc
  rw [length_fieldBytes, h] at hc
  rw [run_sized, if_pos hc]

/-- A field emits its bytes. -/
theorem emits_field (tag : Tag) (value : Bytes) : Emits (field tag value) (fieldBytes tag value) :=
  emits_sized rfl

/-- A count emits its digits. -/
theorem emits_count (tag : Tag) (n : Nat) : Emits (int tag n) (fieldBytes tag (Natural.digits n)) := by
  rw [← Integer.text_natCast]
  exact emits_sized (Integer.length_text _)

/-- A checksum emits its three digits. -/
theorem emits_checksum (tag : Tag) (sum : UInt8) : Emits (checksum tag sum) (fieldBytes tag (checksumText sum)) :=
  emits_sized (Natural.length_padded 3 _)

end Write

/-! ## Cells -/

namespace Encoder

/-- Whether anything is written for the cell. -/
def Cell.isWritten : Cell → Bool
  | .field slot value => value.isSome || slot.required
  | .group slot _ live _ => !live.isEmpty || slot.required

mutual

/-- The bytes of a cell. -/
def Cell.written : Cell → Bytes
  | .field slot value =>
    if value.isSome || slot.required then fieldBytes slot.tag (value.getD []) else []
  | .group slot _ live _ =>
    if !live.isEmpty || slot.required then
      fieldBytes slot.tag (Natural.digits live.length) ++ entriesWritten live
    else []

/-- The bytes of the cells. -/
def written : List Cell → Bytes
  | [] => []
  | c :: rest => c.written ++ written rest

/-- The bytes of the entries of a group. -/
def entriesWritten : List (List Cell) → Bytes
  | [] => []
  | cells :: rest => written cells ++ entriesWritten rest

end

/-- Cells are written one after another. -/
theorem written_append : ∀ cells cells' : List Cell, written (cells ++ cells') = written cells ++ written cells'
  | [], _ => rfl
  | c :: rest, cells' => by
    rw [List.cons_append, written, written, written_append rest, List.append_assoc]

theorem written_cons (c : Cell) (cells : List Cell) : written (c :: cells) = c.written ++ written cells :=
  rfl

/-- A cell that is not written takes up no bytes. -/
theorem Cell.written_eq_nil {c : Cell} (h : c.isWritten = false) : c.written = [] := by
  cases c <;> exact if_neg (by simpa [Cell.isWritten] using h)

/-- A group is written if it has entries or is required. -/
theorem group_isWritten {live : List (List Cell)} {required : Bool} :
    (live.isEmpty && !required) = !(!live.isEmpty || required) := by
  cases live <;> cases required <;> rfl

mutual

/-- Writing a cell emits its bytes. -/
theorem Cell.emits_write : ∀ c : Cell, Write.Emits c.write c.written
  | .field slot value => by
    rw [Cell.write, Cell.written]
    split_ifs
    · exact Write.emits_field _ _
    · exact .nothing
  | .group slot body live spare => by
    rw [Cell.write, Cell.written, group_isWritten]
    cases !live.isEmpty || slot.required with
    | true => exact (Write.emits_count _ _).seq (emits_writeEntries live)
    | false => exact .nothing

/-- Writing cells emits their bytes. -/
theorem emits_write : ∀ cells : List Cell, Write.Emits (write cells) (written cells)
  | [] => .nothing
  | c :: rest => c.emits_write.seq (emits_write rest)

/-- Writing entries emits their bytes. -/
theorem emits_writeEntries : ∀ entries : List (List Cell), Write.Emits (writeEntries entries) (entriesWritten entries)
  | [] => .nothing
  | cells :: rest => (emits_write cells).seq (emits_writeEntries rest)

end

mutual

/-- The announced length of a cell is that of its bytes. -/
theorem Cell.length_written : ∀ c : Cell, c.written.length = c.writtenLength
  | .field slot value => by
    rw [Cell.written, Cell.writtenLength]
    split_ifs
    · exact length_fieldBytes _ _
    · rfl
  | .group slot body live spare => by
    rw [Cell.written, Cell.writtenLength, group_isWritten]
    cases !live.isEmpty || slot.required with
    | true =>
      simp only [Bool.not_true, Bool.false_eq_true, if_true, if_false]
      rw [List.length_append, length_fieldBytes, Natural.length_digits, length_entriesWritten live]
    | false => rfl

/-- As many bytes are written for cells as are announced. -/
theorem length_written : ∀ cells : List Cell, (written cells).length = writtenLength cells
  | [] => rfl
  | c :: rest => by
    rw [written, writtenLength, List.length_append, c.length_written, length_written rest]

/-- The announced length of entries is that of their bytes. -/
theorem length_entriesWritten : ∀ entries : List (List Cell), (entriesWritten entries).length = entriesLength entries
  | [] => rfl
  | cells :: rest => by
    rw [entriesWritten, entriesLength, List.length_append, length_written cells, length_entriesWritten rest]

end

end Encoder

end FixWire
