import FixWire.Text.Utf8
import Mathlib.Tactic.Common

/-!
# ASCII in UTF-8

A byte below 0x80 is a character, and no character of several bytes is one of these. So ASCII characters are read from
their own bytes and from no others (`Utf8.decode?_eq_ascii_iff`).
-/

namespace FixWire

namespace Utf8

/-- The bytes of ASCII characters. -/
def asciiBytes (cs : List Char) : Bytes :=
  cs.map Char.toUInt8

/-- The characters are all in ASCII. -/
def IsAscii (cs : List Char) : Prop :=
  ∀ c ∈ cs, c.toNat < 0x80

theorem asciiBytes_cons (c : Char) (cs : List Char) : asciiBytes (c :: cs) = c.toUInt8 :: asciiBytes cs :=
  rfl

theorem asciiBytes_append (cs cs' : List Char) : asciiBytes (cs ++ cs') = asciiBytes cs ++ asciiBytes cs' :=
  List.map_append

theorem isAscii_cons {c : Char} {cs : List Char} : IsAscii (c :: cs) ↔ c.toNat < 0x80 ∧ IsAscii cs :=
  List.forall_mem_cons

theorem isAscii_append {cs cs' : List Char} : IsAscii (cs ++ cs') ↔ IsAscii cs ∧ IsAscii cs' :=
  List.forall_mem_append

theorem toNat_toUInt8 {c : Char} (h : c.toNat < 0x80) : c.toUInt8.toNat = c.toNat := by
  change c.val.toUInt8.toNat = c.val.toNat
  rw [UInt32.toNat_toUInt8]
  exact Nat.mod_eq_of_lt (Nat.lt_trans h (by decide))

/-! ## Pieces -/

theorem piece_ascii {b : UInt8} (h : b < 0x80) (rest : Bytes) : piece b rest = ⟨some (Char.ofNat b.toNat), 1⟩ := by
  rw [piece, if_pos h]

/-- A byte that is due comes next, and the rest follows it. -/
theorem exists_of_follow {owed bits seen : Nat} {low high : UInt8} {bytes : Bytes} {c : Char}
    (h : (follow (owed + 1) low high bits seen bytes).char? = some c) :
    ∃ (b : UInt8) (rest : Bytes), low.toNat ≤ b.toNat ∧ b.toNat ≤ high.toNat ∧
      (follow owed 0x80 0xbf (bits * 0x40 + b.toNat % 0x40) (seen + 1) rest).char? = some c := by
  cases bytes with
  | nil => cases h
  | cons b rest =>
    rw [follow] at h
    split_ifs at h with hb
    rw [isTail, Bool.and_eq_true, decide_eq_true_eq, decide_eq_true_eq] at hb
    exact ⟨b, rest, UInt8.le_iff_toNat_le.1 hb.1, UInt8.le_iff_toNat_le.1 hb.2, h⟩

/-- When no byte is due any more, the bits are a character, beyond ASCII if they are many. -/
theorem le_of_follow {bits seen : Nat} {low high : UInt8} {bytes : Bytes} {c : Char}
    (h : (follow 0 low high bits seen bytes).char? = some c) (hbits : 0x80 ≤ bits) (hvalid : bits.isValidChar) :
    0x80 ≤ c.toNat := by
  obtain rfl : Char.ofNat bits = c := Option.some.inj h
  rwa [Char.ofNat, dif_pos hvalid]

/-- A character of several bytes is beyond ASCII. -/
theorem le_of_lead {b : UInt8} {owed bits : Nat} {low high : UInt8} (hb : lead b = some (owed, low, high, bits))
    {rest : Bytes} {c : Char} (h : (follow owed low high bits 1 rest).char? = some c) : 0x80 ≤ c.toNat := by
  unfold lead at hb
  simp only [Bool.and_eq_true, decide_eq_true_eq, UInt8.le_iff_toNat_le, ← UInt8.toNat_inj, UInt8.reduceToNat] at hb
  split_ifs at hb
  all_goals
    simp only [Option.some.injEq, Prod.mk.injEq] at hb
    obtain ⟨rfl, rfl, rfl, rfl⟩ := hb
    obtain ⟨t, _, hlow, hhigh, h⟩ := exists_of_follow h
    simp only [UInt8.reduceToNat] at hlow hhigh
  · refine le_of_follow h (by omega) (.inl (by omega))
  all_goals
    obtain ⟨u, _, -, -, h⟩ := exists_of_follow h
  · exact le_of_follow h (by omega) (.inl (by omega))
  · exact le_of_follow h (by omega) (.inl (by omega))
  · exact le_of_follow h (by omega) (by unfold Nat.isValidChar; omega)
  all_goals
    obtain ⟨v, _, -, -, h⟩ := exists_of_follow h
    exact le_of_follow h (by omega) (.inr ⟨by omega, by omega⟩)

/-- Only a byte in ASCII starts a character in ASCII. -/
theorem lt_of_piece {b : UInt8} {rest : Bytes} {c : Char} (h : (piece b rest).char? = some c) (hc : c.toNat < 0x80) :
    b < 0x80 := by
  by_contra hb
  rw [piece, if_neg hb] at h
  split at h
  next hlead => exact absurd (le_of_lead hlead h) (Nat.not_le.2 hc)
  next => cases h

/-! ## Texts -/

theorem decode?_nil : decode? [] = some [] := by
  rw [decode?, pieces]
  rfl

theorem decode?_cons (b : UInt8) (rest : Bytes) :
    decode? (b :: rest) = (piece b rest).char?.bind fun c =>
      (decode? (rest.drop ((piece b rest).width - 1))).bind fun cs => some (c :: cs) := by
  rw [decode?, pieces, List.mapM_cons]
  rfl

theorem toUInt8_ofNat {b : UInt8} (h : b < 0x80) : (Char.ofNat b.toNat).toUInt8 = b := by
  have hb : b.toNat < 0x80 := UInt8.lt_iff_toNat_lt.1 h
  rw [Char.ofNat, dif_pos (.inl (by omega)), ← UInt8.toNat_inj]
  exact toNat_toUInt8 (c := Char.ofNatAux b.toNat _) hb

/-- A text that starts with a character in ASCII starts with its byte. -/
theorem decode?_eq_cons_iff {c : Char} (hc : c.toNat < 0x80) {cs : List Char} {bytes : Bytes} :
    decode? bytes = some (c :: cs) ↔ ∃ rest, bytes = c.toUInt8 :: rest ∧ decode? rest = some cs := by
  constructor
  · intro h
    cases bytes with
    | nil => simp [decode?_nil] at h
    | cons b rest =>
      simp only [decode?_cons, Option.bind_eq_some_iff, Option.some.injEq, List.cons.injEq] at h
      obtain ⟨_, hpiece, _, hrest, rfl, rfl⟩ := h
      have hb := lt_of_piece hpiece hc
      rw [piece_ascii hb] at hpiece hrest
      exact ⟨rest, by rw [← Option.some.inj hpiece, toUInt8_ofNat hb], hrest⟩
  · rintro ⟨rest, rfl, h⟩
    have hb : c.toUInt8 < 0x80 := UInt8.lt_iff_toNat_lt.2 (by rwa [toNat_toUInt8 hc])
    rw [decode?_cons, piece_ascii hb, toNat_toUInt8 hc, Char.ofNat_toNat]
    simp [h]

theorem decode?_eq_nil_iff {bytes : Bytes} : decode? bytes = some [] ↔ bytes = [] := by
  cases bytes with
  | nil => simp [decode?_nil]
  | cons b rest => simp [decode?_cons, Option.bind_eq_some_iff]

/-- ASCII characters are read from their bytes, and from no others. -/
theorem decode?_eq_ascii_iff {cs : List Char} (h : IsAscii cs) {bytes : Bytes} :
    decode? bytes = some cs ↔ bytes = asciiBytes cs := by
  induction cs generalizing bytes with
  | nil => exact decode?_eq_nil_iff
  | cons c cs ih =>
    rw [isAscii_cons] at h
    simp only [decode?_eq_cons_iff h.1, ih h.2, exists_eq_right, asciiBytes_cons]

end Utf8

end FixWire
