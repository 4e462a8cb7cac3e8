import FixWire.Time.Calendar
import Mathlib.Data.List.GetD
import Mathlib.Order.Monotone.Basic
import Mathlib.Tactic.Common

/-!
# Days and dates

The numbers of days and the dates that exist are in one-to-one correspondence (`ofDays_toDays`, `toDays_ofDays`), and a
day later is the next date of the calendar (`ofDays_succ`). With the first day of the year 0 this leaves no other
correspondence.
-/

namespace FixWire

namespace Calendar

/-! ## Years -/

/-- The number of days of a year. -/
def yearLength (year : Int) : Nat :=
  if isLeap year then 366 else 365

/-- The first day of the next year comes as many days later as the year has. -/
theorem firstDay_succ (year : Int) : firstDay (year + 1) = firstDay year + yearLength year := by
  unfold firstDay yearLength isLeap
  simp only [Bool.and_eq_true, Bool.or_eq_true, decide_eq_true_eq]
  split_ifs <;> omega

/-- Later years begin later, and only those. -/
theorem firstDay_lt_iff {year year' : Int} : firstDay year < firstDay year' ↔ year < year' := by
  refine StrictMono.lt_iff_lt (strictMono_int_of_lt_succ fun year => ?_)
  rw [firstDay_succ, yearLength]
  split_ifs <;> omega

theorem firstDay_le_iff {year year' : Int} : firstDay year ≤ firstDay year' ↔ year ≤ year' := by
  rw [← Int.not_lt, firstDay_lt_iff, Int.not_lt]

/-- The year of a day starts with that day or before it, and the year after it starts later. -/
theorem yearOf_spec (days : Int) : firstDay (yearOf days) ≤ days ∧ days < firstDay (yearOf days + 1) := by
  unfold yearOf
  dsimp only
  split_ifs with h h'
  · refine ⟨?_, by rwa [Int.sub_add_cancel]⟩
    unfold firstDay at *
    omega
  · refine ⟨h', ?_⟩
    unfold firstDay at *
    omega
  · exact ⟨Int.not_lt.1 h, Int.not_le.1 h'⟩

/-- A day is in the year between whose first day and the next one it lies. -/
theorem yearOf_eq {year days : Int} (h : firstDay year ≤ days) (h' : days < firstDay (year + 1)) : yearOf days = year := by
  obtain ⟨hle, hlt⟩ := yearOf_spec days
  have hup := firstDay_lt_iff.1 (h.trans_lt hlt)
  have hdown := firstDay_lt_iff.1 (hle.trans_lt h')
  omega

/-- The year of a day is a certain one or a later one if that year has started. -/
theorem le_yearOf_iff {year days : Int} : year ≤ yearOf days ↔ firstDay year ≤ days := by
  obtain ⟨hle, hlt⟩ := yearOf_spec days
  refine ⟨fun h => (firstDay_le_iff.2 h).trans hle, fun h => ?_⟩
  have := firstDay_lt_iff.1 (h.trans_lt hlt)
  omega

/-! ## Months -/

/-- The number of days of some months together. -/
def total (lengths : List Nat) : Nat :=
  lengths.foldr (· + ·) 0

theorem total_nil : total [] = 0 :=
  rfl

theorem total_cons (length : Nat) (lengths : List Nat) : total (length :: lengths) = length + total lengths :=
  rfl

/-- One more month adds its days. -/
theorem total_take_succ {lengths : List Nat} {k : Nat} (h : k < lengths.length) :
    total (lengths.take (k + 1)) = total (lengths.take k) + lengths[k] := by
  induction lengths generalizing k with
  | nil => exact absurd h (Nat.not_lt_zero k)
  | cons length lengths ih =>
    cases k with
    | zero => simp [total]
    | succ k =>
      rw [List.take_succ_cons, List.take_succ_cons, total_cons, total_cons, ih (Nat.lt_of_succ_lt_succ h),
        List.getElem_cons_succ, Nat.add_assoc]

/-- The days before a month are no more than those of the year. -/
theorem total_take_le (lengths : List Nat) (k : Nat) : total (lengths.take k) ≤ total lengths := by
  induction lengths generalizing k with
  | nil => simp
  | cons length lengths ih =>
    cases k with
    | zero => exact Nat.zero_le _
    | succ k => exact Nat.add_le_add_left (ih k) length

/-- Every day of some months is a day of one of them. -/
theorem exists_month {lengths : List Nat} {n : Nat} (h : n < total lengths) :
    ∃ k day, ∃ hk : k < lengths.length, day < lengths[k] ∧ n = total (lengths.take k) + day := by
  induction lengths generalizing n with
  | nil => exact absurd h (Nat.not_lt_zero n)
  | cons length lengths ih =>
    by_cases hn : n < length
    · exact ⟨0, n, Nat.zero_lt_succ _, hn, (Nat.zero_add n).symm⟩
    · rw [total_cons] at h
      obtain ⟨k, day, hk, hday, hrest⟩ := ih (n := n - length) (by omega)
      refine ⟨k + 1, day, Nat.succ_lt_succ hk, hday, ?_⟩
      rw [List.take_succ_cons, total_cons]
      omega

/-- Counting off finds the month and the day. -/
theorem countOff_eq {lengths : List Nat} {k day : Nat} (hk : k < lengths.length) (hday : day < lengths[k])
    (month : Nat) : countOff month lengths (total (lengths.take k) + day) = (month + k, day + 1) := by
  induction lengths generalizing k month with
  | nil => exact absurd hk (Nat.not_lt_zero k)
  | cons length lengths ih =>
    cases k with
    | zero =>
      rw [List.take_zero, total_nil, Nat.zero_add, countOff, if_pos (by simpa using hday)]
      rfl
    | succ k =>
      rw [List.take_succ_cons, total_cons, countOff, if_neg (by omega),
        show length + total (lengths.take k) + day - length = total (lengths.take k) + day by omega,
        ih (Nat.lt_of_succ_lt_succ hk) hday, Nat.add_right_comm, Nat.add_assoc]

theorem length_monthLengths (year : Int) : (monthLengths year).length = 12 :=
  rfl

/-- The months of a year make up the year. -/
theorem total_monthLengths (year : Int) : total (monthLengths year) = yearLength year := by
  unfold total monthLengths yearLength
  cases isLeap year <;> rfl

/-- A month has between 1 and 31 days. -/
theorem getElem_monthLengths {year : Int} {k : Nat} (hk : k < (monthLengths year).length) :
    0 < (monthLengths year)[k] ∧ (monthLengths year)[k] ≤ 31 := by
  revert k
  unfold monthLengths
  cases isLeap year <;> decide

/-! ## Dates -/

/-- A date exists if its month and its day of the month do. -/
theorem isValid_iff {d : Date} :
    isValid d = true ↔
      ∃ k day, ∃ hk : k < (monthLengths d.year).length, day < (monthLengths d.year)[k] ∧ d = ⟨d.year, k + 1, day + 1⟩ := by
  obtain ⟨year, month, day⟩ := d
  simp only [isValid, Bool.and_eq_true, decide_eq_true_eq, Date.mk.injEq, true_and]
  constructor
  · rintro ⟨⟨⟨hmonth, hlast⟩, hday⟩, hlength⟩
    have hk : month - 1 < (monthLengths year).length := by
      rw [length_monthLengths]
      omega
    rw [List.getD_eq_getElem _ _ hk] at hlength
    exact ⟨month - 1, day - 1, hk, by omega, by omega, by omega⟩
  · rintro ⟨k, day, hk, hlength, rfl, rfl⟩
    rw [Nat.add_sub_cancel, List.getD_eq_getElem _ _ hk]
    rw [length_monthLengths] at hk
    omega

theorem le_of_isValid {d : Date} (h : isValid d = true) : d.month ≤ 12 ∧ d.day ≤ 31 := by
  obtain ⟨k, day, hk, hday, hd⟩ := isValid_iff.1 h
  have hlength := (getElem_monthLengths hk).2
  rw [length_monthLengths] at hk
  rw [hd]
  exact ⟨hk, (Nat.succ_le_of_lt hday).trans hlength⟩

/-- The day number of a date : the first day of its year, and the days of the year before it. -/
theorem toDays_mk (year : Int) (k day : Nat) :
    toDays ⟨year, k + 1, day + 1⟩ = firstDay year + (total ((monthLengths year).take k) + day : Nat) := by
  rw [toDays, daysBefore, Nat.add_sub_cancel]
  push_cast
  rw [Int.add_sub_cancel, Int.add_assoc]
  rfl

/-- The date with the number of a date is that date. -/
theorem ofDays_toDays {d : Date} (h : isValid d = true) : ofDays (toDays d) = d := by
  obtain ⟨k, day, hk, hday, hd⟩ := isValid_iff.1 h
  rw [hd, toDays_mk]
  generalize d.year = year at *
  have hle : total ((monthLengths year).take (k + 1)) ≤ yearLength year :=
    (total_take_le _ _).trans_eq (total_monthLengths year)
  rw [total_take_succ hk] at hle
  have hcount := countOff_eq hk hday 1
  have hn : total ((monthLengths year).take k) + day < yearLength year := by omega
  generalize total ((monthLengths year).take k) + day = n at *
  have hyear : yearOf (firstDay year + n) = year := by
    refine yearOf_eq (by omega) ?_
    rw [firstDay_succ]
    omega
  have hrest : (firstDay year + n - firstDay year).toNat = n := by omega
  unfold ofDays
  simp only [hyear, hrest, hcount, Nat.add_comm 1]

/-- Every day has a date, and the number of its date is its own. -/
theorem exists_date (days : Int) : ∃ d, isValid d = true ∧ toDays d = days := by
  obtain ⟨hle, hlt⟩ := yearOf_spec days
  rw [firstDay_succ] at hlt
  generalize yearOf days = year at *
  have hn : (days - firstDay year).toNat < total (monthLengths year) := by
    rw [total_monthLengths]
    omega
  obtain ⟨k, day, hk, hday, hsplit⟩ := exists_month hn
  refine ⟨⟨year, k + 1, day + 1⟩, isValid_iff.2 ⟨k, day, hk, hday, rfl⟩, ?_⟩
  rw [toDays_mk, ← hsplit]
  omega

/-- Every day number is that of a date. -/
theorem isValid_ofDays (days : Int) : isValid (ofDays days) = true := by
  obtain ⟨d, hvalid, rfl⟩ := exists_date days
  rwa [ofDays_toDays hvalid]

/-- The date of a day number has that number. -/
theorem toDays_ofDays (days : Int) : toDays (ofDays days) = days := by
  obtain ⟨d, hvalid, rfl⟩ := exists_date days
  rw [ofDays_toDays hvalid]

/-! ## The next day -/

/-- The date after a date : the next day of the month, or the first day of the next month or of the next year. -/
def next (d : Date) : Date :=
  if d.day < (monthLengths d.year).getD (d.month - 1) 0 then { d with day := d.day + 1 }
  else if d.month < 12 then ⟨d.year, d.month + 1, 1⟩
  else ⟨d.year + 1, 1, 1⟩

/-- The next date is the date of the next day. -/
theorem next_spec {d : Date} (h : isValid d = true) : isValid (next d) = true ∧ toDays (next d) = toDays d + 1 := by
  obtain ⟨k, day, hk, hday, hd⟩ := isValid_iff.1 h
  rw [hd]
  generalize d.year = year at *
  unfold next
  dsimp only
  rw [Nat.add_sub_cancel, List.getD_eq_getElem _ _ hk]
  by_cases hlast : day + 1 < (monthLengths year)[k]
  · rw [if_pos hlast]
    refine ⟨isValid_iff.2 ⟨k, day + 1, hk, hlast, rfl⟩, ?_⟩
    rw [toDays_mk, toDays_mk]
    omega
  · have hend : total ((monthLengths year).take (k + 1)) = total ((monthLengths year).take k) + (day + 1) := by
      rw [total_take_succ hk]
      omega
    rw [if_neg hlast]
    by_cases hmonth : k + 1 < 12
    · rw [if_pos hmonth]
      refine ⟨isValid_iff.2 ⟨k + 1, 0, hmonth, (getElem_monthLengths hmonth).1, rfl⟩, ?_⟩
      rw [toDays_mk year (k + 1) 0, toDays_mk, hend]
      omega
    · rw [if_neg hmonth]
      refine ⟨isValid_iff.2 ⟨0, 0, Nat.zero_lt_succ _, (getElem_monthLengths (Nat.zero_lt_succ _)).1, rfl⟩, ?_⟩
      rw [length_monthLengths] at hk
      obtain rfl : k = 11 := by omega
      have hyear : total ((monthLengths year).take 12) = yearLength year := total_monthLengths year
      rw [toDays_mk (year + 1) 0 0, toDays_mk, firstDay_succ, ← hyear, hend, List.take_zero, total_nil]
      omega

/-- Days are counted from the first of January 1970. -/
theorem ofDays_epoch : ofDays epoch = ⟨1970, 1, 1⟩ := by
  decide

/-- A day later is the next date. -/
theorem ofDays_succ (days : Int) : ofDays (days + 1) = next (ofDays days) := by
  obtain ⟨hvalid, hdays⟩ := next_spec (isValid_ofDays days)
  rw [toDays_ofDays] at hdays
  rw [← hdays, ofDays_toDays hvalid]

end Calendar

end FixWire
