import FixWire.Codecs.TypeIndex
import FixWire.Proofs.Dictionary.WellFormed

/-!
# Keys of message types

The key of a message type, put together with shifts, is the number whose digits to the base 256 are the first eight
bytes of the type (`MsgType.toNat_packed`). So two types have the same key if they agree on these bytes, NUL taking the
place of those that a shorter type has not (`MsgType.packed_eq_iff`).
-/

namespace FixWire

theorem Bytes.ofString_inj {s t : String} : ofString s = ofString t ↔ s = t := by
  refine ⟨fun h => ?_, fun h => h ▸ rfl⟩
  rw [← String.toByteArray_inj, ← String.utf8Encode_toList, ← String.utf8Encode_toList]
  exact congrArg List.toByteArray h

namespace MsgType

/-- The first eight bytes of a message type, with NUL bytes after those of a shorter one. -/
def padded (type : Bytes) : Bytes :=
  (type ++ List.replicate 8 0).take 8

theorem length_padded (type : Bytes) : (padded type).length = 8 := by
  simp [padded]

theorem pack_replicate (n : Nat) : pack (List.replicate n 0) = 0 := by
  induction n with
  | zero => rfl
  | succ n ih => rw [List.replicate_succ, pack, ih]; rfl

/-- NUL bytes at the end add nothing to a number. -/
theorem pack_append_zeros (bytes : Bytes) (n : Nat) : pack (bytes ++ List.replicate n 0) = pack bytes := by
  induction bytes with
  | nil => exact pack_replicate n
  | cons b rest ih => rw [List.cons_append, pack, pack, ih]

theorem pack_padded (type : Bytes) : pack (padded type) = key type := by
  rw [padded, List.take_append, List.take_replicate, pack_append_zeros, key]

/-- As many bytes are known from their number. -/
theorem eq_of_pack_eq : ∀ {a b : Bytes}, a.length = b.length → pack a = pack b → a = b
  | [], [], _, _ => rfl
  | x :: a, y :: b, hlength, h => by
    rw [pack, pack] at h
    have hx := x.toNat_lt
    have hy := y.toNat_lt
    have hrest : pack a = pack b := by omega
    have hfirst : x = y := UInt8.toNat_inj.1 (by omega)
    rw [hfirst, eq_of_pack_eq (Nat.succ.inj hlength) hrest]

theorem key_eq_iff {a b : Bytes} : key a = key b ↔ padded a = padded b := by
  rw [← pack_padded, ← pack_padded]
  exact ⟨eq_of_pack_eq (by rw [length_padded, length_padded]), congrArg pack⟩

/-! ## Shifting bytes to their places -/

/-- A byte in a place above all bits of a key is added to it. -/
theorem toNat_place {key : UInt64} {index : Nat} (hindex : index < 8) (hkey : key.toNat < 1 <<< (8 * index)) (b : UInt8) :
    (place key (b, index)).toNat = b.toNat <<< (8 * index) + key.toNat := by
  have hplace : (UInt64.ofNat (8 * index)).toNat % 64 = 8 * index := by
    rw [UInt64.toNat_ofNat_of_lt' (by rw [UInt64.size]; omega)]
    omega
  rw [Nat.one_shiftLeft] at hkey
  have hbyte : b.toNat <<< (8 * index) < 2 ^ 64 := by
    rw [Nat.shiftLeft_eq]
    calc b.toNat * 2 ^ (8 * index) < 2 ^ 8 * 2 ^ (8 * index) := Nat.mul_lt_mul_of_pos_right b.toNat_lt (Nat.two_pow_pos _)
      _ = 2 ^ (8 + 8 * index) := (Nat.pow_add ..).symm
      _ ≤ 2 ^ 64 := Nat.pow_le_pow_right (by decide) (by omega)
  rw [place, UInt64.toNat_or, UInt64.toNat_shiftLeft, hplace, UInt8.toNat_toUInt64, Nat.mod_eq_of_lt hbyte,
    Nat.shiftLeft_add_eq_or_of_lt hkey, Nat.or_comm]

/-- A key in which the places of the bytes are still free, once they are put there. The induction is on the bytes : each
leaves the places after its own free. -/
theorem toNat_foldl_place : ∀ {bytes : Bytes} {index : Nat} {key : UInt64}, index + bytes.length ≤ 8 →
    key.toNat < 1 <<< (8 * index) →
    ((bytes.zipIdx index).foldl place key).toNat = pack bytes <<< (8 * index) + key.toNat
  | [], index, key, _, _ => by simp [pack]
  | b :: rest, index, key, hlength, hkey => by
    rw [List.length_cons] at hlength
    have hplace := toNat_place (by omega) hkey b
    have hscale (n : Nat) : n <<< (8 * (index + 1)) = 256 * (n <<< (8 * index)) := by
      rw [Nat.shiftLeft_eq, Nat.shiftLeft_eq, Nat.mul_succ, Nat.pow_add, Nat.mul_comm _ (2 ^ 8)]
      exact Nat.mul_left_comm ..
    have hfree : (place key (b, index)).toNat < 1 <<< (8 * (index + 1)) := by
      have hb := Nat.mul_le_mul_right (2 ^ (8 * index)) b.toNat_lt
      rw [Nat.succ_mul] at hb
      rw [hplace, hscale, Nat.shiftLeft_eq, Nat.one_shiftLeft]
      rw [Nat.one_shiftLeft] at hkey
      omega
    rw [List.zipIdx_cons, List.foldl_cons, toNat_foldl_place (by omega) hfree, hplace, pack, hscale,
      Nat.shiftLeft_eq, Nat.shiftLeft_eq, Nat.shiftLeft_eq, Nat.add_mul, Nat.mul_assoc]
    omega

/-- The key that is put together with shifts. -/
theorem toNat_packed (type : Bytes) : (packed type).toNat = key type := by
  rw [packed, toNat_foldl_place (by rw [List.length_take]; omega) (by decide), key]
  exact Nat.add_zero _

theorem packed_eq_iff {a b : Bytes} : packed a = packed b ↔ padded a = padded b := by
  rw [← UInt64.toNat_inj, toNat_packed, toNat_packed, key_eq_iff]

end MsgType

end FixWire
