import FixWire.Encoder.Message
import FixWire.Proofs.Encoder.Writing

/-!
# The bytes of a message

A message is written with two computed fields : the length of what stands between them, and the sum of what stands
before the second one. Both are set in the encoder as if by hand, and the message is what is then written for its
header, its body and its trailer (`MessageEncoder.encode_of_room`).
-/

namespace FixWire

open Encoder

/-! ## The computed field among its neighbours -/

namespace Encoder

@[simp] theorem Cell.not_isDerived_group (d : Derived) (slot : GroupSlot) (body : List Member)
    (live spare : List (List Cell)) : (Cell.group slot body live spare).isDerived d = false :=
  rfl

theorem setFirst_of_not {p : Cell → Bool} {value : Bytes} {c : Cell} (h : p c = false) (cells : List Cell) :
    setFirst p value (c :: cells) = c :: setFirst p value cells := by
  cases c with
  | field slot old => rw [setFirst, if_neg (by simp [h])]
  | group => rfl

end Encoder

namespace MessageEncoder

theorem split_of_not {d : Derived} {c : Cell} (h : c.isDerived d = false) (cells : List Cell) :
    split d (c :: cells) = (c :: (split d cells).1, (split d cells).2) := by
  unfold split
  simp only [List.takeWhile_cons, h, Bool.not_false, if_true, List.length_cons, List.drop_succ_cons]
  split <;> rfl

theorem split_of_derived {d : Derived} {c : Cell} (h : c.isDerived d = true) (cells : List Cell) :
    split d (c :: cells) = ([], some c.tag, cells) := by
  unfold split
  simp [h]

/-- Either no cell is that of the computed field, or it stands between those before and those after it. -/
theorem split_cases (d : Derived) (cells : List Cell) :
    (split d cells = (cells, none, []) ∧ ∀ value, setFirst (Cell.isDerived d) value cells = cells) ∨
      ∃ before slot old after, cells = before ++ .field slot old :: after ∧
        split d cells = (before, some slot.tag, after) ∧
        ∀ value, setFirst (Cell.isDerived d) value cells = before ++ .field slot (some value) :: after := by
  induction cells with
  | nil => exact .inl ⟨rfl, fun _ => rfl⟩
  | cons c rest ih =>
    cases hc : c.isDerived d with
    | true =>
      cases c with
      | field slot old =>
        refine .inr ⟨[], slot, old, rest, rfl, split_of_derived hc rest, fun value => ?_⟩
        rw [setFirst, if_pos hc, List.nil_append]
      | group => simp at hc
    | false =>
      simp only [split_of_not hc, setFirst_of_not hc]
      rcases ih with ⟨hsplit, hset⟩ | ⟨before, slot, old, after, rfl, hsplit, hset⟩
      · exact .inl ⟨by rw [hsplit], fun value => by rw [hset]⟩
      · exact .inr ⟨c :: before, slot, old, after, rfl, by rw [hsplit], fun value => by rw [hset, List.cons_append]⟩

/-- Setting the computed field does not change what stands before and after it. -/
theorem split_setFirst (d : Derived) (value : Bytes) (cells : List Cell) :
    split d (setFirst (Cell.isDerived d) value cells) = split d cells := by
  induction cells with
  | nil => rfl
  | cons c rest ih =>
    cases hc : c.isDerived d with
    | true =>
      cases c with
      | field slot old =>
        rw [setFirst, if_pos hc, split_of_derived hc, split_of_derived (c := .field slot (some value)) hc]
        rfl
      | group => simp at hc
    | false => rw [setFirst_of_not hc, split_of_not hc, split_of_not hc, ih]

/-! ## Computed fields -/

/-- The encoder with the length of the message stored. -/
def measured (e : MessageEncoder) : MessageEncoder :=
  { e with header := setFirst (Cell.isDerived .bodyLength) (Natural.digits e.bodyLength) e.header }

/-- The bytes before the field of the checksum. -/
def summed (e : MessageEncoder) : Bytes :=
  written e.measured.header ++ written e.body ++ written (split .checkSum e.trailer).1

/-- The encoder with both computed fields stored. -/
def computed (e : MessageEncoder) : MessageEncoder :=
  { e.measured with trailer := setFirst (Cell.isDerived .checkSum) (checksumText (checksum e.summed)) e.trailer }

/-- The bytes of the message. -/
def wire (e : MessageEncoder) : Bytes :=
  written e.computed.header ++ written e.computed.body ++ written e.computed.trailer

variable {e : MessageEncoder}

/-- What is written for the field of the checksum and after it. -/
def closing (e : MessageEncoder) : Bytes :=
  match (split .checkSum e.trailer).2.1 with
  | some tag =>
    fieldBytes tag (checksumText (checksum e.summed)) ++ written (split .checkSum e.trailer).2.2
  | none => []

theorem wire_eq (e : MessageEncoder) : e.wire = e.summed ++ e.closing := by
  have htrailer : written e.computed.trailer = written (split .checkSum e.trailer).1 ++ e.closing := by
    rcases split_cases .checkSum e.trailer with ⟨hsplit, hset⟩ | ⟨before, slot, old, after, -, hsplit, hset⟩
    · rw [computed, closing, hset, hsplit, List.append_nil]
    · rw [computed, closing, hset, hsplit, written_append, written_cons]
      rfl
  rw [wire, htrailer, summed, List.append_assoc _ _ e.closing]
  rfl

/-- The header with the length stored takes up the bytes that are announced for it. -/
theorem length_measured (e : MessageEncoder) :
    (written e.measured.header).length =
      writtenLength (split .bodyLength e.header).1 +
        computedLength (split .bodyLength e.header).2.1 (Natural.digitCount e.bodyLength) +
        writtenLength (split .bodyLength e.header).2.2 := by
  rw [measured]
  dsimp only
  rcases split_cases .bodyLength e.header with ⟨hsplit, hset⟩ | ⟨before, slot, old, after, -, hsplit, hset⟩
  · rw [hset, hsplit, length_written]
    rfl
  · rw [hset, hsplit, written_append, written_cons, List.length_append, List.length_append, length_written,
      length_written, ← Natural.length_digits, Cell.written]
    simp only [Option.isSome_some, Bool.true_or, if_true, Option.getD_some, length_fieldBytes, computedLength]
    omega

theorem encodedLength_eq (e : MessageEncoder) :
    e.encodedLength = writtenLength (split .bodyLength e.header).1 +
      computedLength (split .bodyLength e.header).2.1 (Natural.digitCount e.bodyLength) + e.bodyLength +
      computedLength (split .checkSum e.trailer).2.1 3 + writtenLength (split .checkSum e.trailer).2.2 :=
  rfl

/-- A message takes up as many bytes as are announced. -/
theorem length_wire (e : MessageEncoder) : e.wire.length = e.encodedLength := by
  have hclosing : e.closing.length =
      computedLength (split .checkSum e.trailer).2.1 3 + writtenLength (split .checkSum e.trailer).2.2 := by
    rcases split_cases .checkSum e.trailer with ⟨hsplit, -⟩ | ⟨before, slot, old, after, -, hsplit, -⟩
    · rw [closing, hsplit]
      rfl
    · rw [closing, hsplit, List.length_append, length_fieldBytes, length_written]
      rfl
  rw [wire_eq, List.length_append, hclosing, summed, List.length_append, List.length_append, length_measured,
    length_written, length_written, encodedLength_eq, bodyLength]
  omega

/-! ## Writing a message -/

/-- Writing into the buffer beside an encoder. -/
def beside (w : Write Unit) : ExceptT FieldError (StateM (MessageEncoder × Cursor)) Unit := fun (e, c) =>
  let (result, c) := w.run c
  (result, (e, c))

/-- Storing the checksum of what has been written from `offset` on, and writing its field. -/
def putSum (offset : Nat) (tag : Tag) : ExceptT FieldError (StateM (MessageEncoder × Cursor)) Unit := do
  let sum := (← get).2.checksumSince offset
  modify fun (e, c) =>
    ({ e with trailer := setFirst (Cell.isDerived .checkSum) (checksumText sum) e.trailer }, c)
  beside (Write.checksum tag sum)

/-- Writing at the end of what has been written already. -/
theorem run_beside {w : Write Unit} {a b : Bytes} (h : w.Emits b) {c : Cursor}
    (hc : (a ++ b).length ≤ c.remaining) : (beside w).run (e, c.put a) = (.ok (), (e, c.put (a ++ b))) := by
  rw [List.length_append] at hc
  have ha : a.length ≤ c.remaining := by omega
  have hb : b.length ≤ (c.put a).remaining := by
    rw [Cursor.remaining_put ha]
    omega
  change ((w.run (c.put a)).1, (e, (w.run (c.put a)).2)) = _
  rw [h _ hb, Cursor.put_put ha]

theorem run_beside_seq {α : Type} {w : Write Unit} {a b : Bytes} (h : w.Emits b) {c : Cursor}
    (hc : (a ++ b).length ≤ c.remaining) (k : Unit → ExceptT FieldError (StateM (MessageEncoder × Cursor)) α) :
    (beside w >>= k).run (e, c.put a) = (k ()).run (e, c.put (a ++ b)) := by
  rw [run_bind, run_beside h hc]

theorem run_putSum {buffer a : Bytes} {offset : Nat} {tag : Tag} {sum : UInt8} (hsum : checksum a = sum)
    (h : (a ++ fieldBytes tag (checksumText sum)).length ≤ (Cursor.start buffer offset).remaining) :
    (putSum offset tag).run (e, (Cursor.start buffer offset).put a) =
      (.ok (), ({ e with trailer := setFirst (Cell.isDerived .checkSum) (checksumText sum) e.trailer },
        (Cursor.start buffer offset).put (a ++ fieldBytes tag (checksumText sum)))) := by
  have ha : a.length ≤ (Cursor.start buffer offset).remaining := by
    rw [List.length_append] at h
    omega
  rw [← run_beside (Write.emits_checksum tag sum) h, ← hsum, ← Cursor.checksumSince_put ha]
  rfl

theorem writeParts_eq (e : MessageEncoder) (offset : Nat) :
    e.writeParts offset = (do
      beside (write e.header)
      beside (write e.body)
      beside (write (split .checkSum e.trailer).1)
      match (split .checkSum e.trailer).2.1 with
      | some tag =>
        putSum offset tag
        beside (write (split .checkSum e.trailer).2.2)
      | none => beside (write (split .checkSum e.trailer).2.2)) := by
  unfold writeParts
  dsimp only
  cases (split .checkSum e.trailer).2.1 <;> rfl

/-- The parts are written one after the other, and the checksum is stored on the way. -/
theorem run_writeParts {buffer : Bytes} {offset : Nat} (h : e.wire.length ≤ buffer.length - offset) :
    (e.measured.writeParts offset).run (e.measured, Cursor.start buffer offset) =
      (.ok (), (e.computed, (Cursor.start buffer offset).put e.wire)) := by
  have hroom : e.wire.length ≤ (Cursor.start buffer offset).remaining := h
  have hclosing := e.wire_eq
  rw [hclosing, List.length_append] at hroom
  have hsummed : e.summed.length ≤ (Cursor.start buffer offset).remaining := by omega
  rw [summed, List.length_append, List.length_append] at hsummed
  have hbody : e.measured.body = e.body := rfl
  have htrailer : e.measured.trailer = e.trailer := rfl
  rw [writeParts_eq, hbody, htrailer, ← Cursor.put_nil (Cursor.start buffer offset),
    run_beside_seq (emits_write _) (by rw [List.nil_append]; omega),
    run_beside_seq (emits_write _) (by rw [List.nil_append, List.length_append]; omega),
    run_beside_seq (emits_write _) (by rw [List.nil_append, List.length_append, List.length_append]; omega),
    Cursor.put_nil, List.nil_append, ← summed, hclosing]
  rcases split_cases .checkSum e.trailer with ⟨hsplit, hset⟩ | ⟨before, slot, old, after, -, hsplit, hset⟩
  · have hnil : e.closing = [] := by rw [closing, hsplit]
    have hkeep : e.computed = e.measured := by rw [computed, hset]; rfl
    rw [hsplit, hnil, hkeep]
    exact run_beside (emits_write []) (by rw [written, List.append_nil]; omega)
  · have hfield : e.closing = fieldBytes slot.tag (checksumText (checksum e.summed)) ++ written after := by
      rw [closing, hsplit]
    rw [hfield, List.length_append] at hroom
    rw [hsplit, hfield, ← List.append_assoc]
    dsimp only
    rw [run_bind, run_putSum rfl (by rw [List.length_append]; omega)]
    exact run_beside (emits_write after) (by rw [List.length_append, List.length_append]; omega)

/-- With room for all of it a message is written whole. -/
theorem encode_of_room {buffer : Bytes} {offset : Nat} (h : e.encodedLength ≤ buffer.length - offset) :
    e.encode buffer offset = (.ok e.encodedLength, e.computed, buffer.overwrite offset e.wire) := by
  have hwire : e.wire.length ≤ buffer.length - offset := by rwa [length_wire]
  have hensure : (Cursor.start buffer offset).ensure e.encodedLength = .ok () :=
    if_neg (Nat.not_lt.2 h)
  have hwritten : ((Cursor.start buffer offset).put e.wire).written = e.encodedLength := by
    rw [← length_wire]
    exact Nat.add_sub_cancel_left offset _
  have hrun := run_writeParts hwire
  rw [measured] at hrun
  rw [encode, hensure]
  dsimp only
  rw [hrun]
  dsimp only [Except.map]
  rw [hwritten]
  rfl

end MessageEncoder

end FixWire
