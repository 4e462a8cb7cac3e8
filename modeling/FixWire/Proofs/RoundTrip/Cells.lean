import FixWire.Proofs.Decoder.Fit
import FixWire.Proofs.Encoder.Writing

/-!
# Cells written and read

What a decoder holds after it has read what is written for the cells of an encoder (`decoded`), and the faults that
it logs meanwhile (`faults`). Both follow the cells : nothing is read for a cell for which nothing is written, the
field of a cell is read as a pair, and what else is written for it are the entries of a group.
-/

namespace FixWire

open Decoder (Fault Log OpenGroup Reading Unclaimed readGroup readPair repetitionCycle)

/-! ## A field -/

namespace Pair

/-- A field is read as a pair, whatever follows it. -/
theorem read?_field {text value : Bytes} (ht : equalsSign ∉ text) (hv : soh ∉ value) (rest : Bytes) :
    read? (text ++ equalsSign :: value ++ [soh] ++ rest) = some (⟨text, value, true⟩, rest) := by
  have htext : ∀ b ∈ text, (b != equalsSign) = true := fun b hb => by
    simpa using fun h : b = equalsSign => ht (h ▸ hb)
  have hvalue : ∀ b ∈ value, (b != soh) = true := fun b hb => by
    simpa using fun h : b = soh => hv (h ▸ hb)
  have hsplit : text ++ equalsSign :: value ++ [soh] ++ rest = text ++ (equalsSign :: (value ++ (soh :: rest))) := by
    simp
  rw [read?, hsplit, List.takeWhile_append_of_pos htext, List.takeWhile_cons_of_neg (by simp), List.append_nil,
    List.drop_left]
  dsimp only
  rw [List.takeWhile_append_of_pos hvalue, List.takeWhile_cons_of_neg (by simp), List.append_nil, List.drop_left]

theorem read?_nil : read? [] = none :=
  rfl

/-- The pair of a written field. -/
def written (tag : Tag) (value : Bytes) : Pair :=
  ⟨Natural.digits tag, value, true⟩

/-- A field is read back whole if its value does not end it early, whatever follows. -/
theorem read?_fieldBytes {value : Bytes} (h : soh ∉ value) (tag : Tag) (rest : Bytes) :
    read? (fieldBytes tag value ++ rest) = some (written tag value, rest) :=
  read?_field (equalsSign_notMem_digits tag) h rest

theorem tag_written {tag : Tag} (h : tag < tagLimit) (value : Bytes) : (written tag value).tag = tag := by
  have hlimit : tag < Natural.limit := Nat.lt_trans h (by decide)
  rw [Pair.tag, written, Natural.parse_digits hlimit]
  exact if_pos h

end Pair

/-- Counts that fit are read back from their digits. -/
theorem Decoder.declaredCount?_digits {n : Nat} (h : n < Integer.limit) :
    Decoder.declaredCount? (Natural.digits n) = some n := by
  have hlimit : n < Natural.limit := Nat.lt_trans h (by decide)
  rw [Decoder.declaredCount?, Natural.parse_digits hlimit]
  simp [h]

/-! ## Cells before and after -/

namespace Decoder

variable {done rest : List Cell} {c new : Cell}

/-- A cell is found behind others that do not have its tag. -/
theorem find?_middle (h : c.tag ∉ done.map Cell.tag) : find? (done ++ c :: rest) c.tag = some c := by
  rw [find?, List.find?_append, List.find?_eq_none.2, List.find?_cons, beq_self_eq_true]
  · rfl
  · intro d hd ht
    exact h (List.mem_map.2 ⟨d, hd, eq_of_beq ht⟩)

/-- A cell is replaced behind others that do not have its tag. -/
theorem put_middle (ht : new.tag = c.tag) (h : c.tag ∉ done.map Cell.tag) :
    put new (done ++ c :: rest) = done ++ new :: rest := by
  induction done with
  | nil => exact if_pos ht.symm
  | cons d done ih =>
    rw [List.map_cons, List.mem_cons, not_or] at h
    rw [List.cons_append, put, if_neg (fun hd => h.1 (hd.trans ht).symm), ih h.2, List.cons_append]

end Decoder

/-! ## What is read -/

namespace Encoder

namespace Cell

/-- The member that the cell is for. -/
def member : Cell → Member
  | .field slot _ => .field slot
  | .group slot body _ _ => .group slot body

/-- The value of the field that is written for the cell, or of the counter. -/
def value : Cell → Bytes
  | .field _ value => value.getD []
  | .group _ _ live _ => Natural.digits live.length

/-- What is written for the cell after that field. -/
def entries : Cell → Bytes
  | .field _ _ => []
  | .group _ _ live _ => entriesWritten live

/-- The field of the cell is read as it was written. -/
structure Legible (c : Cell) : Prop where
  tag : c.tag < tagLimit
  value : soh ∉ c.value

theorem tag_member (c : Cell) : c.member.tag = c.tag := by
  cases c <;> rfl

theorem written_of_isWritten {c : Cell} (h : c.isWritten = true) :
    c.written = fieldBytes c.tag c.value ++ c.entries := by
  cases c with
  | field slot value => exact (if_pos h).trans (List.append_nil _).symm
  | group slot body live spare => exact if_pos h

end Cell

mutual

/-- The cell of a decoder after reading what is written for the cell of an encoder. -/
def Cell.decoded (cycle : UInt32) : Cell → Decoder.Cell
  | .field slot value =>
    if value.isSome || slot.required then .field slot (.ofBytes slot.kind (value.getD [])) cycle
    else .field slot .absent 0
  | .group slot body live _ =>
    if !live.isEmpty || slot.required then
      .group slot body ⟨true, cycle, some live.length⟩ (decodedEntries live) []
    else .group slot body {} [] []

/-- The cells of a decoder after reading what is written for those of an encoder. -/
def decoded (cycle : UInt32) : List Cell → List Decoder.Cell
  | [] => []
  | c :: rest => c.decoded cycle :: decoded cycle rest

/-- The repetitions of a group after reading what is written for its entries. -/
def decodedEntries : List (List Cell) → List (List Decoder.Cell)
  | [] => []
  | cells :: rest => decoded repetitionCycle cells :: decodedEntries rest

end

mutual

/-- The faults that are logged while what is written for the cell is read. -/
def Cell.faults : Cell → List Fault
  | .field slot value =>
    if value.isSome || slot.required then Decoder.valueFaults slot (value.getD []) else []
  | .group slot _ live _ => if !live.isEmpty || slot.required then entriesFaults live else []

/-- The faults that are logged while what is written for the cells is read. -/
def faults : List Cell → List Fault
  | [] => []
  | c :: rest => c.faults ++ faults rest

/-- The faults that are logged while what is written for the entries is read. -/
def entriesFaults : List (List Cell) → List Fault
  | [] => []
  | cells :: rest => faults cells ++ entriesFaults rest

end

/-- The cells of a decoder of which nothing has been read. -/
def unread (cells : List Cell) : List Decoder.Cell :=
  cells.map fun c => .blank c.member

theorem decoded_eq_map (cycle : UInt32) (cells : List Cell) : decoded cycle cells = cells.map (Cell.decoded cycle) := by
  induction cells with
  | nil => rfl
  | cons c rest ih => rw [decoded, ih, List.map_cons]

theorem decodedEntries_eq_map (entries : List (List Cell)) :
    decodedEntries entries = entries.map (decoded repetitionCycle) := by
  induction entries with
  | nil => rfl
  | cons cells rest ih => rw [decodedEntries, ih, List.map_cons]

@[simp] theorem Cell.tag_decoded (cycle : UInt32) (c : Cell) : (c.decoded cycle).tag = c.tag := by
  cases c <;> (rw [decoded]; split_ifs <;> rfl)

theorem Cell.tag_blank (c : Cell) : (Decoder.Cell.blank c.member).tag = c.tag := by
  cases c <;> rfl

theorem notMem_of_nodup {done : List Decoder.Cell} {c : Cell} {rest : List Cell}
    (h : (done.map Decoder.Cell.tag ++ (c :: rest).map Cell.tag).Nodup) : c.tag ∉ done.map Decoder.Cell.tag :=
  fun hin => (List.nodup_append.1 h).2.2 _ hin _ List.mem_cons_self rfl

/-- A cell that comes next is blank. -/
theorem find?_unread {c : Cell} (done : List Decoder.Cell) (h : c.tag ∉ done.map Decoder.Cell.tag)
    (rest : List Cell) : Decoder.find? (done ++ unread (c :: rest)) c.tag = some (.blank c.member) := by
  rw [unread, List.map_cons, ← c.tag_blank]
  exact Decoder.find?_middle (by rwa [c.tag_blank])

/-- A cell that comes next takes its place. -/
theorem put_unread {c : Cell} (done : List Decoder.Cell) (h : c.tag ∉ done.map Decoder.Cell.tag) (rest : List Cell)
    (cycle : UInt32) :
    Decoder.put (c.decoded cycle) (done ++ unread (c :: rest)) = done ++ c.decoded cycle :: unread rest :=
  Decoder.put_middle (by rw [c.tag_blank, c.tag_decoded]) (by rwa [c.tag_blank])

/-- An unset field is read as blank. -/
theorem Cell.decoded_of_not {c : Cell} (h : c.isWritten = false) (cycle : UInt32) :
    c.decoded cycle = .blank c.member := by
  cases c <;> exact if_neg (by simpa [Cell.isWritten] using h)

theorem Cell.faults_of_not {c : Cell} (h : c.isWritten = false) : c.faults = [] := by
  cases c <;> exact if_neg (by simpa [Cell.isWritten] using h)

end Encoder

end FixWire
