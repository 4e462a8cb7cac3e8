import FixWire.Proofs.Encoder.Use

/-!
# Room for what is written

Messages, and aggregates on their own, are encoded only where there is room for as many bytes as are announced. Then
they take up exactly these bytes : nothing around them changes, and what they are does not depend on where they are
written, or over what (`Exact`). A refused encoding writes nothing. For a message this goes on after it has been
encoded, since the fields that are computed do not change the announced length.
-/

namespace FixWire

open Encoder

/-! ## What is written over a buffer -/

/-- Nothing changes around what is written over a buffer. -/
theorem Bytes.getElem?_overwrite {buffer a : Bytes} {offset i : Nat} (hroom : a.length ≤ buffer.length - offset)
    (h : i < offset ∨ offset + a.length ≤ i) : (buffer.overwrite offset a)[i]? = buffer[i]? := by
  by_cases ha : a = []
  · rw [ha, overwrite_nil]
  have : 0 < a.length := List.length_pos_iff.2 ha
  have hlen : (buffer.take offset).length = offset := by
    rw [List.length_take, Nat.min_eq_left (by omega)]
  rw [overwrite, List.append_assoc]
  rcases h with h | h
  · rw [List.getElem?_append_left (by omega), List.getElem?_take_of_lt h]
  · rw [List.getElem?_append_right (by omega), hlen, List.getElem?_append_right (by omega), List.getElem?_drop]
    congr 1
    omega

/-- An encoding takes up exactly the bytes that it announces. -/
structure Exact (length : Nat) (encode : Bytes → Nat → Except FieldError Nat × Bytes) : Prop where
  /-- It succeeds if there is room, and only then. -/
  succeeds (buffer : Bytes) (offset : Nat) :
    (∃ n, (encode buffer offset).1 = .ok n) ↔ length ≤ buffer.length - offset
  announced {buffer : Bytes} {offset n : Nat} : (encode buffer offset).1 = .ok n → n = length
  /-- The bytes around those that are written stay as they are. -/
  outside {buffer : Bytes} {offset n : Nat} :
    (encode buffer offset).1 = .ok n → ∀ i, i < offset ∨ offset + n ≤ i → (encode buffer offset).2[i]? = buffer[i]?
  /-- The bytes that are written do not depend on the place and on what was there. -/
  inside {buffer buffer' : Bytes} {offset offset' n n' : Nat} :
    (encode buffer offset).1 = .ok n → (encode buffer' offset').1 = .ok n' →
      (encode buffer offset).2.window offset n = (encode buffer' offset').2.window offset' n'
  /-- Nothing is written if it is refused. -/
  refused {buffer : Bytes} {offset : Nat} {cause : FieldError} :
    (encode buffer offset).1 = .error cause → (encode buffer offset).2 = buffer

/-- Writing certain bytes where there is room for them takes up exactly these. -/
theorem Exact.of_overwrite {bytes : Bytes} {encode : Bytes → Nat → Except FieldError Nat × Bytes}
    (hroom : ∀ buffer offset, bytes.length ≤ buffer.length - offset →
      encode buffer offset = (.ok bytes.length, buffer.overwrite offset bytes))
    (hnone : ∀ buffer offset, buffer.length - offset < bytes.length →
      ∃ cause, encode buffer offset = (.error cause, buffer)) : Exact bytes.length encode := by
  have hok {buffer : Bytes} {offset n : Nat} (h : (encode buffer offset).1 = .ok n) :
      bytes.length ≤ buffer.length - offset ∧ n = bytes.length := by
    by_cases hle : bytes.length ≤ buffer.length - offset
    · rw [hroom _ _ hle] at h
      exact ⟨hle, (Except.ok.inj h).symm⟩
    · obtain ⟨cause, hcause⟩ := hnone _ _ (Nat.lt_of_not_le hle)
      rw [hcause] at h
      cases h
  refine ⟨fun buffer offset => ⟨fun ⟨n, hn⟩ => (hok hn).1, fun hle => ⟨_, by rw [hroom _ _ hle]⟩⟩,
    fun hn => (hok hn).2, fun hn i hi => ?_, fun hn hn' => ?_, fun {buffer offset _} herror => ?_⟩
  · obtain ⟨hle, rfl⟩ := hok hn
    rw [hroom _ _ hle]
    exact Bytes.getElem?_overwrite hle hi
  · obtain ⟨hle, rfl⟩ := hok hn
    obtain ⟨hle', rfl⟩ := hok hn'
    rw [hroom _ _ hle, hroom _ _ hle', Bytes.window_overwrite hle, Bytes.window_overwrite hle']
  · by_cases hle : bytes.length ≤ buffer.length - offset
    · rw [hroom _ _ hle] at herror
      cases herror
    · obtain ⟨cause, hcause⟩ := hnone _ _ (Nat.lt_of_not_le hle)
      rw [hcause]

/-! ## Aggregates -/

namespace Encoder

variable {cells : List Cell} {buffer : Bytes} {offset : Nat}

/-- With room for all of it an aggregate is written whole. -/
theorem encode_of_room (h : (written cells).length ≤ buffer.length - offset) :
    encode cells buffer offset = (.ok (written cells).length, buffer.overwrite offset (written cells)) := by
  have hensure : (Write.ensure (writtenLength cells)).run (Cursor.start buffer offset) =
      (.ok (), Cursor.start buffer offset) := by
    rw [length_written] at h
    exact congrArg (·, _) (if_neg (Nat.not_lt.2 h))
  have hwritten : ((Cursor.start buffer offset).put (written cells)).written = (written cells).length :=
    Nat.add_sub_cancel_left offset _
  unfold encode
  dsimp only
  rw [run_bind, hensure]
  dsimp only
  rw [run_bind, emits_write cells (Cursor.start buffer offset) h, ← hwritten]
  rfl

/-- An aggregate is refused as a whole. -/
theorem encode_of_no_room (h : buffer.length - offset < (written cells).length) :
    encode cells buffer offset =
      (.error (.bufferTooShort (written cells).length (buffer.length - offset)), buffer) := by
  rw [length_written] at h ⊢
  have hensure : (Write.ensure (writtenLength cells)).run (Cursor.start buffer offset) =
      (.error (.bufferTooShort (writtenLength cells) (buffer.length - offset)), Cursor.start buffer offset) :=
    congrArg (·, _) (if_pos h)
  unfold encode
  dsimp only
  rw [run_bind, hensure]
  rfl

end Encoder

/-! ## Messages -/

namespace MessageEncoder

theorem bodyLength_computed (e : MessageEncoder) : e.computed.bodyLength = e.bodyLength := by
  simp only [bodyLength, computed, measured, split_setFirst]

/-- The announced length does not change when the computed fields are set. -/
theorem encodedLength_computed (e : MessageEncoder) : e.computed.encodedLength = e.encodedLength := by
  rw [encodedLength_eq, encodedLength_eq, bodyLength_computed]
  simp only [computed, measured, split_setFirst]

/-- Messages and aggregates take up exactly the bytes that are announced for them, and a message that has been
encoded, or refused, is announced with as many bytes as before. -/
theorem exact_encode (e : MessageEncoder) (cells : List Cell) :
    Exact e.encodedLength (fun buffer offset => ((e.encode buffer offset).1, (e.encode buffer offset).2.2)) ∧
      Exact (writtenLength cells) (Encoder.encode cells) ∧
      ∀ buffer offset, (e.encode buffer offset).2.1.encodedLength = e.encodedLength := by
  refine ⟨?_, ?_, fun buffer offset => ?_⟩
  · rw [← length_wire]
    refine .of_overwrite (fun buffer offset h => ?_) fun buffer offset h => ?_
    · rw [length_wire] at h ⊢
      rw [encode_of_room h]
    · rw [length_wire] at h
      exact ⟨_, by rw [encode_of_no_room h]⟩
  · rw [← length_written]
    exact .of_overwrite (fun _ _ => Encoder.encode_of_room) fun _ _ h => ⟨_, Encoder.encode_of_no_room h⟩
  · by_cases h : e.encodedLength ≤ buffer.length - offset
    · rw [encode_of_room h, encodedLength_computed]
    · rw [encode_of_no_room (Nat.lt_of_not_le h)]

end MessageEncoder

end FixWire
