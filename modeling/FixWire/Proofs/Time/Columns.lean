import FixWire.Proofs.Time.WireFormat
import FixWire.Time.Columns

/-!
# Timestamps written and read back

The columns of a timestamp are filled one after another, and together they are its text (`putStamp?_eq`). An instant of
the years from 0 to 9999 is written where there is room for it, before 1970 as after, and is read back
(`encodeAt_outcome`).
-/

namespace FixWire

/-! ## Filling columns -/

namespace Bytes

/-- The bytes, with others written over the first of them. -/
def filled (bytes done : Bytes) : Bytes :=
  done ++ bytes.drop done.length

variable {bytes done : Bytes} {first stop : Nat}

theorem filled_nil (b : Bytes) : b.filled [] = b :=
  rfl

theorem filled_self (h : done.length = bytes.length) : bytes.filled done = done := by
  rw [filled, h, List.drop_length, List.append_nil]

theorem length_filled (h : done.length ≤ bytes.length) : (bytes.filled done).length = bytes.length := by
  rw [filled, List.length_append, List.length_drop]
  omega

/-- What is written behind filled columns fills more of them. -/
theorem overwrite_filled (h : done.length = first) (source : Bytes) :
    (bytes.filled done).overwrite first source = bytes.filled (done ++ source) := by
  subst h
  rw [filled, overwrite, List.take_left, List.drop_append, List.drop_eq_nil_of_le (by omega), List.nil_append,
    List.drop_drop, Nat.add_sub_cancel_left, filled, List.length_append]

/-- A byte is put into the first free column. -/
theorem put?_filled (h : done.length = first) (hroom : first < bytes.length) (b : UInt8) :
    (bytes.filled done).put? first b = some (bytes.filled (done ++ [b])) := by
  subst h
  rw [put?, if_pos (by rwa [length_filled (by omega)]), filled, filled, List.set_append_right _ _ (Nat.le_refl _),
    Nat.sub_self, List.drop_eq_getElem_cons hroom, List.set_cons_zero, List.append_assoc, List.length_append]
  rfl

/-- A padded number is put into the first free columns. -/
theorem putPadded?_filled (h : done.length = first) (hle : first ≤ stop) (hroom : stop ≤ bytes.length) (n : Nat) :
    (bytes.filled done).putPadded? first stop n = some (bytes.filled (done ++ Natural.padded (stop - first) n)) := by
  have hlength : (bytes.filled done).length = bytes.length := length_filled (by omega)
  have hslice : ((bytes.filled done).slice first stop).length = stop - first := by
    rw [slice, window, List.length_take, List.length_drop, hlength]
    omega
  have hput := Decimal.Leftward.putLow?_behind hslice n [] []
  rw [List.nil_append, Decimal.Leftward.behind, List.append_nil, hslice] at hput
  rw [putPadded?, if_pos ⟨hle, by rwa [hlength]⟩, hput]
  simp only [Option.bind_eq_bind, Option.bind_some, Option.pure_def, Decimal.Leftward.behind, List.nil_append,
    List.append_nil, overwrite_filled h]

end Bytes

namespace Timestamp

/-! ## The text of a timestamp -/

/-- The columns of a timestamp are filled with its text. -/
theorem putStamp?_eq {out : Bytes} (h : out.length = textLength) (date : Date) (hour minute second milli : Nat) :
    putStamp? out date hour minute second milli =
      some (Natural.padded 4 date.year.toNat ++ Natural.padded 2 date.month ++ Natural.padded 2 date.day ++
        Bytes.ofString "-" ++ Natural.padded 2 hour ++ Bytes.ofString ":" ++ Natural.padded 2 minute ++
        Bytes.ofString ":" ++ Natural.padded 2 second ++ Bytes.ofString "." ++ Natural.padded 3 milli) := by
  have hroom : out.length = 21 := h
  simp only [putStamp?, Option.bind_eq_bind]
  rw [← Bytes.filled_nil out]
  simp (disch := simp [Natural.length_padded, hroom]) only [Bytes.putPadded?_filled, Bytes.put?_filled, Option.bind_some]
  rw [Bytes.filled_self (by simp [Natural.length_padded, hroom])]
  rfl

/-! ## The instants that are written -/

/-- The date of an instant. -/
def dateOf (millis : Int) : Date :=
  Calendar.ofDays (millis / dayMillis + Calendar.epoch)

/-- The instant is in one of the years that can be written, from 0 to 9999. -/
def InYears (millis : Int) : Prop :=
  0 ≤ (dateOf millis).year ∧ (dateOf millis).year ≤ 9999

/-- The instant as a timestamp with milliseconds. -/
def stampOf {millis : Int} (h : InYears millis) : Stamp where
  date := dateOf millis
  hour := (millis % dayMillis).toNat / 3600000
  minute := (millis % dayMillis).toNat / 60000 % 60
  second := (millis % dayMillis).toNat / 1000 % 60
  fraction := some (.last 3 ((millis % dayMillis).toNat % 1000) (by decide))
  date_valid := Calendar.isValid_ofDays _
  year_nonneg := h.1
  year_le := h.2
  hour_le := by
    unfold dayMillis
    omega
  minute_le := by omega
  second_le := by omega

variable {millis : Int}

/-- Milliseconds are what their three digits say. -/
theorem millisOf_last {n : Nat} (h : n < 1000) : millisOf (some (.last 3 n (by decide))) = n := by
  have hlength := length_lastDigits 3 n
  change ofDigits ((lastDigits 3 n ++ [0, 0]).take 3) = n
  rw [List.take_append_of_le_length hlength.ge, List.take_of_length_le hlength.le, ofDigits_lastDigits]
  exact Nat.mod_eq_of_lt h

/-- The stamp of an instant denotes it. -/
theorem millis_stampOf (h : InYears millis) : (stampOf h).millis = millis := by
  rw [Stamp.millis, stampOf]
  dsimp only
  rw [millisOf_last (Nat.mod_lt _ (by decide)), dateOf, Calendar.toDays_ofDays]
  unfold dayMillis
  omega

/-- The text of an instant is that of its stamp. -/
theorem text_stampOf (h : InYears millis) : text? millis = some (stampOf h).text := by
  have hfraction : ((stampOf h).fraction.map fun d => Bytes.ofString "." ++ d.bytes).getD [] =
      Bytes.ofString "." ++ Natural.padded 3 ((millis % dayMillis).toNat % 1000) := by
    change Bytes.ofString "." ++ (Digits.last 3 _ _).bytes = _
    rw [Digits.bytes_last]
  rw [Stamp.text, hfraction, ← List.append_assoc, text?]
  exact if_pos h

/-- The text of an instant is as long as announced. -/
theorem length_text_stampOf (h : InYears millis) : (stampOf h).text.length = textLength := by
  rw [Stamp.length_text]
  change 17 + (lastDigits 3 _).length + 1 = textLength
  rw [length_lastDigits]
  rfl

/-- The year of an instant is that of its day. -/
theorem year_dateOf (millis : Int) :
    (dateOf millis).year = Calendar.yearOf (millis / dayMillis + Calendar.epoch) :=
  rfl

/-- The years 0 to 9999, in milliseconds. -/
theorem inYears_iff : InYears millis ↔ -62167219200000 ≤ millis ∧ millis ≤ 253402300799999 := by
  have hfirst := @Calendar.le_yearOf_iff 0 (millis / dayMillis + Calendar.epoch)
  have hlast := @Calendar.le_yearOf_iff 10000 (millis / dayMillis + Calendar.epoch)
  rw [InYears, year_dateOf]
  generalize Calendar.yearOf (millis / dayMillis + Calendar.epoch) = year at *
  rw [show Calendar.firstDay 0 = 0 by decide, show Calendar.epoch = 719528 by decide] at hfirst
  rw [show Calendar.firstDay 10000 = 3652425 by decide, show Calendar.epoch = 719528 by decide] at hlast
  unfold dayMillis at hfirst hlast
  omega

/-! ## Writing -/

variable {buffer : Bytes} {offset : Nat}

/-- An instant of another year is refused, and nothing is written. -/
theorem encodeAt_of_outside (h : ¬ InYears millis) :
    encodeAt millis buffer offset = some (.error (.invalidValue kind offset), buffer) :=
  if_neg h

/-- Without room for the text nothing is written. -/
theorem encodeAt_of_no_room (h : InYears millis) (hroom : buffer.length - offset < textLength) :
    encodeAt millis buffer offset =
      some (.error (.bufferTooShort textLength (buffer.length - offset)), buffer) :=
  (if_pos h).trans (if_pos hroom)

/-- With room the text is written at the offset. -/
theorem encodeAt_of_room (h : InYears millis) (hroom : textLength ≤ buffer.length - offset) :
    encodeAt millis buffer offset = some (.ok textLength, buffer.overwrite offset (stampOf h).text) := by
  have hlength : (buffer.window offset textLength).length = textLength := by
    rw [Bytes.window, List.length_take, List.length_drop]
    omega
  have hput : putStamp? (buffer.window offset textLength) (dateOf millis) ((millis % dayMillis).toNat / 3600000)
      ((millis % dayMillis).toNat / 60000 % 60) ((millis % dayMillis).toNat / 1000 % 60)
      ((millis % dayMillis).toNat % 1000) = some (stampOf h).text := by
    rw [← text_stampOf h, putStamp?_eq hlength]
    exact (if_pos h).symm
  refine (if_pos h).trans ((if_neg (Nat.not_lt.2 hroom)).trans ?_)
  change (putStamp? _ (dateOf millis) _ _ _ _).bind _ = _
  rw [hput]
  rfl

/-- Writing as a whole refuses instants of other years. -/
theorem write_of_outside (h : ¬ InYears millis) :
    write millis buffer offset = .error (.invalidValue kind offset) := by
  rw [write, show text? millis = none from if_neg h]

/-- Writing as a whole depends on the room. -/
theorem write_of_inside (h : InYears millis) :
    write millis buffer offset =
      if buffer.length - offset < textLength then .error (.bufferTooShort textLength (buffer.length - offset))
      else .ok (buffer.overwrite offset (stampOf h).text) := by
  rw [write, text_stampOf h]

/-- Writing an instant fails if its year has no four digits, whatever the room, then if there are fewer than 21 bytes,
and leaves the buffer as it is. Otherwise exactly 21 bytes are written, the timestamp of the date of the instant, and
they are read as the same number of milliseconds. -/
theorem encodeAt_outcome (millis : Int) (buffer : Bytes) (offset : Nat) :
    (InYears millis ↔ -62167219200000 ≤ millis ∧ millis ≤ 253402300799999) ∧
    ∃ result after, encodeAt millis buffer offset = some (result, after) ∧
      write millis buffer offset = result.map (fun _ => after) ∧
      (result = .error (.invalidValue kind offset) ↔ ¬ InYears millis) ∧
      (result = .error (.bufferTooShort 21 (buffer.length - offset)) ↔
        InYears millis ∧ buffer.length - offset < 21) ∧
      (∀ cause, result = .error cause → after = buffer ∧
        (cause = .invalidValue kind offset ∨ cause = .bufferTooShort 21 (buffer.length - offset))) ∧
      ∀ written, result = .ok written → written = 21 ∧ ∃ stamp : Stamp,
        stamp.date = dateOf millis ∧ stamp.text.length = 21 ∧ parse stamp.text = .ok millis ∧
          after = buffer.take offset ++ stamp.text ++ buffer.drop (offset + 21) ∧ after.length = buffer.length := by
  refine ⟨inYears_iff, ?_⟩
  by_cases h : InYears millis
  · by_cases hroom : buffer.length - offset < textLength
    · refine ⟨_, _, encodeAt_of_no_room h hroom, ?_, by simp [h], by simpa [h, textLength] using hroom, ?_, by rintro _ ⟨⟩⟩
      · rw [write_of_inside h, if_pos hroom]
        rfl
      · rintro _ ⟨⟩
        exact ⟨rfl, .inr rfl⟩
    · refine ⟨_, _, encodeAt_of_room h (Nat.not_lt.1 hroom), ?_, by simp [h], by simpa [h, textLength] using hroom,
        by rintro _ ⟨⟩, ?_⟩
      · rw [write_of_inside h, if_neg hroom]
        rfl
      · have hlength := length_text_stampOf h
        rintro _ ⟨⟩
        refine ⟨rfl, stampOf h, rfl, hlength, ?_, ?_, ?_⟩
        · rw [Stamp.parse_text, millis_stampOf]
        · rw [Bytes.overwrite, hlength]
          rfl
        · rw [Bytes.overwrite, List.length_append, List.length_append, List.length_take, List.length_drop]
          omega
  · refine ⟨_, _, encodeAt_of_outside h, ?_, by simp [h], by simp [h], ?_, by rintro _ ⟨⟩⟩
    · rw [write_of_outside h]
      rfl
    · rintro _ ⟨⟩
      exact ⟨rfl, .inl rfl⟩

/-- The last millisecond before 1970. -/
example : text? (-1) = some (Bytes.ofString "19691231-23:59:59.999") := by
  decide +kernel

end Timestamp

end FixWire
