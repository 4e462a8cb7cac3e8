import FixWire.InPlace
import FixWire.Proofs.Decoder.Derivations
import FixWire.Proofs.Refusal

/-!
# Positions in a buffer

No buffer, offset and length, and no state of a decoder lead to a slip while decoding in place, and it comes to what
decoding the window as bytes of its own does (`decodeAt_eq_decode`). What carries the proof is that the bytes from a
position to the end of the window are those that are left when decoding the window (`Lands`), so that the same pair is
read from both (`Span.locates`), and a turn of a loop in place is a rule of the derivation of the reading.
-/

namespace FixWire

open Decoder

/-! ## Pairs in place -/

namespace Pair

/-- What stands before a byte, by the position of the byte. -/
theorem takeWhile_ne (bytes : Bytes) (b : UInt8) :
    bytes.takeWhile (· != b) = bytes.take (bytes.findIdx (· == b)) := by
  simp [List.takeWhile_eq_take_findIdx_not, bne]

/-- A pair goes up to the first end of a field after the first equals sign. -/
theorem read?_eq (bytes : Bytes) : read? bytes =
    match bytes.findIdx? (· == equalsSign) with
    | none => none
    | some i =>
      match (bytes.drop (i + 1)).findIdx? (· == soh) with
      | none => some (⟨bytes.take i, bytes.drop (i + 1), false⟩, [])
      | some j => some (⟨bytes.take i, (bytes.drop (i + 1)).take j, true⟩, bytes.drop (i + 1 + (j + 1))) := by
  rw [read?, takeWhile_ne]
  cases hi : bytes.findIdx? (· == equalsSign) with
  | none => simp [List.findIdx?_eq_none_iff_findIdx_eq.1 hi]
  | some i =>
    obtain ⟨hlt, rfl⟩ := List.findIdx?_eq_some_iff_findIdx_eq.1 hi
    rw [List.length_take_of_le (Nat.le_of_lt hlt), List.drop_eq_getElem_cons hlt]
    dsimp only
    rw [takeWhile_ne]
    cases hj : (bytes.drop (bytes.findIdx (· == equalsSign) + 1)).findIdx? (· == soh) with
    | none => 
      rw [List.findIdx?_eq_none_iff_findIdx_eq.1 hj, List.take_length, List.drop_length]
    | some j =>
      obtain ⟨hlt', rfl⟩ := List.findIdx?_eq_some_iff_findIdx_eq.1 hj
      rw [List.length_take_of_le (Nat.le_of_lt hlt'), List.drop_eq_getElem_cons hlt', List.drop_drop]

end Pair

namespace View

variable {v : View} {first stop position : Nat}

/-- Bytes inside the window can be read. -/
theorem slice_eq (h : v.Has first stop) : v.slice first stop = .ok (v.buffer.slice first stop) :=
  if_pos h

/-- A byte can be looked for up to the end of the window. -/
theorem scan_eq (h : v.Has position v.stop) (byte : UInt8) :
    v.scan position byte = .ok (((v.rest position).findIdx? (· == byte)).map (position + ·)) :=
  if_pos h

/-- As many bytes are left as there are up to the end of the window. -/
theorem length_rest (h : v.stop ≤ v.buffer.length) (position : Nat) : (v.rest position).length = v.stop - position := by
  simp [rest, Bytes.slice, Bytes.window]
  omega

theorem rest_eq_nil (h : v.stop ≤ position) : v.rest position = [] := by
  simp [rest, Bytes.slice, Bytes.window, Nat.sub_eq_zero_of_le h]

/-- Past the end of the window there is no pair. -/
theorem read?_rest (h : ¬position < v.stop) : Pair.read? (v.rest position) = none := by
  rw [rest_eq_nil (Nat.le_of_not_lt h)]
  rfl

/-- Behind some of the bytes that are left come those that are left later. -/
theorem drop_rest (position n : Nat) : (v.rest position).drop n = v.rest (position + n) := by
  simp [rest, Bytes.slice, Bytes.window, List.drop_take, Nat.sub_sub]

/-- Bytes of the window, as some of those up to its end. -/
theorem slice_eq_take (h : stop ≤ v.stop) : v.buffer.slice position stop = (v.rest position).take (stop - position) := by
  simp [rest, Bytes.slice, Bytes.window, List.take_take]
  omega

end View

/-- A span is read at a position of the window where decoding the window as bytes of its own reads a pair. -/
structure Span.Locates (v : View) (position : Nat) (p : Pair) (rest : Bytes) (s : Span) : Prop where
  read : Span.read? v position = .ok (some s)
  value : v.slice s.first s.stop = .ok p.value
  pair : s.pair p.value = p
  rest : v.rest s.next = rest
  after : position < s.next
  inside : s.next ≤ v.stop

/-- The tag of a span is that of its pair. -/
theorem Span.Locates.tag {v : View} {position : Nat} {p : Pair} {rest : Bytes} {s : Span}
    (h : s.Locates v position p rest) : s.tag = p.tag :=
  show (s.pair p.value).tag = p.tag from congrArg Pair.tag h.pair

namespace Span.Locates

variable {v : View} {position : Nat} {p : Pair} {rest : Bytes} {s : Span}

/-- Where a pair is located, the window goes on. -/
theorem lt_stop (h : s.Locates v position p rest) : position < v.stop :=
  Nat.lt_of_lt_of_le h.after h.inside

theorem le (h : s.Locates v position p rest) : position ≤ s.next :=
  Nat.le_of_lt h.after

theorem le_max (h : s.Locates v position p rest) : s.next ≤ max position v.stop :=
  Nat.le_trans h.inside (Nat.le_max_right _ _)

/-- The next pair is inside the window too. -/
theorem first_le (h : s.Locates v position p rest) (hfirst : v.first ≤ position) : v.first ≤ s.next :=
  Nat.le_trans hfirst h.le

end Span.Locates

section

variable {v : View} {position : Nat} {p : Pair} {rest : Bytes}

/-- Where no pair is left in the bytes, none is located in the buffer. -/
theorem Span.read?_eq_none (hv : v.stop ≤ v.buffer.length) (hfirst : v.first ≤ position) (hp : position < v.stop)
    (h : Pair.read? (v.rest position) = none) : Span.read? v position = .ok none := by
  have hhas : v.Has position v.stop := ⟨hfirst, Nat.le_of_lt hp, Nat.le_refl _, hv⟩
  rw [Pair.read?_eq] at h
  cases hi : (v.rest position).findIdx? (· == equalsSign) with
  | none => simp [read?, View.scan_eq hhas, hi, bind, Except.bind, pure, Except.pure]
  | some i =>
    rw [hi] at h
    dsimp only at h
    split at h <;> cases h

/-- Where a pair is read from the bytes of a window, it is located in the buffer. -/
theorem Span.locates (hv : v.stop ≤ v.buffer.length) (hfirst : v.first ≤ position)
    (h : Pair.read? (v.rest position) = some (p, rest)) : ∃ s : Span, s.Locates v position p rest := by
  have hp : position < v.stop := by
    by_contra hp
    rw [View.read?_rest hp] at h
    cases h
  have hhas : v.Has position v.stop := ⟨hfirst, Nat.le_of_lt hp, Nat.le_refl _, hv⟩
  rw [Pair.read?_eq] at h
  cases hi : (v.rest position).findIdx? (· == equalsSign) with
  | none => rw [hi] at h; cases h
  | some i =>
    have hlt := (List.findIdx?_eq_some_iff_findIdx_eq.1 hi).1
    rw [View.length_rest hv] at hlt
    have htext : v.slice position (position + i) = .ok ((v.rest position).take i) := by
      rw [View.slice_eq ⟨hfirst, by omega, by omega, by omega⟩, View.slice_eq_take (by omega), Nat.add_sub_cancel_left]
    have hhas' : v.Has (position + (i + 1)) v.stop := ⟨by omega, by omega, Nat.le_refl _, hv⟩
    have hread : Span.read? v position =
        let stop := (((v.rest (position + (i + 1))).findIdx? (· == soh)).map (position + (i + 1) + ·)).getD v.stop
        .ok (some ⟨(v.rest position).take i, position + (i + 1), stop, min (stop + 1) v.stop⟩) := by
      simp [read?, View.scan_eq hhas, hi, Nat.add_assoc, View.scan_eq hhas', htext, bind, Except.bind, pure, Except.pure]
    rw [hi] at h
    dsimp only at h
    rw [View.drop_rest] at h
    cases hj : (v.rest (position + (i + 1))).findIdx? (· == soh) with
    | none =>
      simp only [hj, Option.some.injEq, Prod.mk.injEq] at h
      obtain ⟨rfl, rfl⟩ := h
      simp only [hj, Option.map_none, Option.getD_none, Nat.min_eq_right (Nat.le_succ _)] at hread
      exact ⟨_, hread, View.slice_eq hhas', by simp [pair], View.rest_eq_nil (Nat.le_refl _), hp, Nat.le_refl _⟩
    | some j =>
      have hlt' := (List.findIdx?_eq_some_iff_findIdx_eq.1 hj).1
      rw [View.length_rest hv] at hlt'
      simp only [hj, Option.some.injEq, Prod.mk.injEq] at h
      obtain ⟨rfl, rfl⟩ := h
      have hvalue : v.slice (position + (i + 1)) (position + (i + 1) + j) =
          .ok ((v.rest (position + (i + 1))).take j) := by
        rw [View.slice_eq ⟨by omega, by omega, by omega, by omega⟩, View.slice_eq_take (by omega), Nat.add_sub_cancel_left]
      have hnext : min (position + (i + 1) + j + 1) v.stop = position + (i + 1) + j + 1 := by omega
      simp only [hj, Option.map_some, Option.getD_some, hnext] at hread
      have hrest : v.rest (position + (i + 1) + j + 1) = (v.rest position).drop (i + 1 + (j + 1)) := by
        rw [View.drop_rest, Nat.add_assoc, Nat.add_assoc]
      have hinside : position + (i + 1) + j + 1 ≤ v.stop := by omega
      exact ⟨_, hread, hvalue, by simp [pair], hrest, by dsimp only; omega, hinside⟩

end

/-! ## Turns of the loops -/

namespace Decoder

/-- A turn of a loop that moves the position on does not get stuck. -/
theorem advance_eq {position next : Nat} (h : position < next) : advance position next = .ok ⟨h⟩ :=
  dif_pos h

section Turns

variable {v : View} {position next : Nat} {p : Pair} {rest : Bytes} {s : Span} {unclaimed : Unclaimed}
  {around legal : List Tag} {cycle : UInt32} {g opened closed : OpenGroup} {cells stored : List Cell}
  {faults : List Fault} {log inner : Log} {summed : Bool} {ps : Parts} {part : Part}

/-- A pair that opens no group is stored at its position. -/
theorem readPairAt_field (hs : s.Locates v position p rest) (hstore : store cycle p cells = (stored, none, faults)) :
    readPairAt v unclaimed around cycle s cells log = .ok (stored, log.add faults, s.next) := by
  rw [readPairAt, bind_of_ok hs.value, hs.pair, hstore]
  rfl

/-- A pair that opens a group is stored once the group has been read in place. -/
theorem readPairAt_group (hs : s.Locates v position p rest)
    (hstore : store cycle p cells = (stored, some opened, faults))
    (hgroup : readGroupAt v unclaimed around opened (log.add faults) s.next = .ok (closed, inner, next)) :
    readPairAt v unclaimed around cycle s cells log =
      .ok (put closed.toCell stored, inner.add closed.countFaults, next) := by
  rw [readPairAt, bind_of_ok hs.value, hs.pair, hstore]
  dsimp only
  rw [bind_of_ok hgroup]
  rfl

/-- A group ends in place where it is over in the bytes that are left. -/
theorem readGroupAt_over (hv : v.stop ≤ v.buffer.length) (hfirst : v.first ≤ position)
    (h : g.Over unclaimed around (v.rest position)) :
    readGroupAt v unclaimed around g log position = .ok (g, log, position) := by
  rw [readGroupAt]
  split_ifs with hp
  · cases hread : Pair.read? (v.rest position) with
    | none =>
      rw [bind_of_ok (Span.read?_eq_none hv hfirst hp hread)]
      rfl
    | some found =>
      obtain ⟨s, hs⟩ := Span.locates hv hfirst hread
      obtain ⟨hnot, haround⟩ := h found.1 found.2 hread
      rw [bind_of_ok hs.read]
      dsimp only
      rw [bind_of_ok (advance_eq hs.after), hs.tag, if_neg hnot]
      by_cases ha : around.contains found.1.tag
      · rw [if_pos ha]
        rfl
      · rw [if_neg ha, haround.resolve_left ha]
        rfl
  · rfl

/-- A pair of the group takes a turn of the loop. -/
theorem readGroupAt_owned (hs : s.Locates v position p rest) (ho : g.owns p.tag)
    (hpair : readPairAt v unclaimed ((g.advance p.tag).tags ++ around) repetitionCycle s
      ((g.advance p.tag).current.getD []) log = .ok (stored, inner, next))
    (hnext : position < next) :
    readGroupAt v unclaimed around g log position =
      readGroupAt v unclaimed around { g.advance p.tag with current := some stored } inner next := by
  rw [readGroupAt, dif_pos hs.lt_stop, bind_of_ok hs.read]
  dsimp only
  rw [bind_of_ok (advance_eq hs.after), hs.tag, if_pos ho, bind_of_ok hpair]
  dsimp only
  rw [bind_of_ok (advance_eq hnext)]

/-- A pair that nothing has takes a turn of the loop as well, inside a group. -/
theorem readGroupAt_leftOut (hs : s.Locates v position p rest) (ho : ¬g.owns p.tag) (ha : ¬around.contains p.tag) :
    readGroupAt v (.skip legal) around g log position =
      readGroupAt v (.skip legal) around g (log.add [unclaimedFault legal p.tag]) s.next := by
  rw [readGroupAt, dif_pos hs.lt_stop, bind_of_ok hs.read]
  dsimp only
  rw [bind_of_ok (advance_eq hs.after), hs.tag, if_neg ho, if_neg ha]

/-- A message ends in place where it is over in the bytes that are left. -/
theorem readPartsAt_over (hv : v.stop ≤ v.buffer.length) (hfirst : v.first ≤ position)
    (h : ps.Over summed (v.rest position)) : readPartsAt v legal summed ps log position = .ok (ps, log, position) := by
  rw [readPartsAt]
  split_ifs with hp
  · cases hread : Pair.read? (v.rest position) with
    | none =>
      rw [bind_of_ok (Span.read?_eq_none hv hfirst hp hread)]
      rfl
    | some found =>
      obtain ⟨s, hs⟩ := Span.locates hv hfirst hread
      rw [bind_of_ok hs.read]
      dsimp only
      rw [hs.tag, if_pos (h found.1 found.2 hread)]
      rfl
  · rfl

/-- A pair of a part takes a turn of the loop. -/
theorem readPartsAt_owned (hs : s.Locates v position p rest) (hsum : ¬(summed && !ps.trailer.owns p.tag))
    (ho : ps.owner? p.tag = some part)
    (hpair : readPairAt v (.skip legal) ps.tags (ps.get part).stamp s (ps.get part).cells (log.see p.tag) =
      .ok (stored, inner, next))
    (hnext : position < next) :
    readPartsAt v legal summed ps log position =
      readPartsAt v legal (summed || ps.isSum part p.tag) (ps.setCells part stored) inner next := by
  rw [readPartsAt, dif_pos hs.lt_stop, bind_of_ok hs.read]
  dsimp only
  rw [hs.tag, if_neg hsum, ho]
  dsimp only
  rw [bind_of_ok hpair]
  dsimp only
  rw [bind_of_ok (advance_eq hnext)]

/-- And it does so outside groups. -/
theorem readPartsAt_leftOut (hs : s.Locates v position p rest) (hsum : ¬(summed && !ps.trailer.owns p.tag))
    (ho : ps.owner? p.tag = none) :
    readPartsAt v legal summed ps log position =
      readPartsAt v legal summed ps ((log.see p.tag).add [unclaimedFault legal p.tag]) s.next := by
  rw [readPartsAt, dif_pos hs.lt_stop, bind_of_ok hs.read]
  dsimp only
  rw [hs.tag, if_neg hsum, ho]
  dsimp only
  rw [bind_of_ok (advance_eq hs.after)]

/-- An aggregate on its own ends in place where it ends in the bytes that are left. -/
theorem readAggregateAt_over (hv : v.stop ≤ v.buffer.length) (hfirst : v.first ≤ position)
    (h : ∀ p rest, Pair.read? (v.rest position) = some (p, rest) → ¬(find? cells p.tag).isSome) :
    readAggregateAt v cycle cells log position = .ok (cells, log, position) := by
  rw [readAggregateAt]
  split_ifs with hp
  · cases hread : Pair.read? (v.rest position) with
    | none =>
      rw [bind_of_ok (Span.read?_eq_none hv hfirst hp hread)]
      rfl
    | some found =>
      obtain ⟨s, hs⟩ := Span.locates hv hfirst hread
      rw [bind_of_ok hs.read]
      dsimp only
      rw [hs.tag, if_neg (h found.1 found.2 hread)]
      rfl
  · rfl

/-- A pair of the aggregate takes a turn of the loop. -/
theorem readAggregateAt_owned (hs : s.Locates v position p rest) (ho : (find? cells p.tag).isSome)
    (hpair : readPairAt v .stop (cells.map Cell.tag) cycle s cells log = .ok (stored, inner, next))
    (hnext : position < next) :
    readAggregateAt v cycle cells log position = readAggregateAt v cycle stored inner next := by
  rw [readAggregateAt, dif_pos hs.lt_stop, bind_of_ok hs.read]
  dsimp only
  rw [hs.tag, if_pos ho, bind_of_ok hpair]
  dsimp only
  rw [bind_of_ok (advance_eq hnext)]

end Turns

/-! ## Loops in place -/

/-- Reading in place from a position comes to a value and a log, and ends at a position where the bytes that are left
start. -/
def Lands {α : Type} (v : View) (position : Nat) (value : α) (log : Log) (left : Bytes)
    (result : Except Slip (α × Log × Nat)) : Prop :=
  ∃ next, result = .ok (value, log, next) ∧ position ≤ next ∧ next ≤ max position v.stop ∧ v.rest next = left

section Loops

variable {v : View} {position next : Nat} {log log' : Log} {bytes left : Bytes}

/-- What lands from a position on does so from one before it. -/
theorem Lands.from_before {α : Type} {value : α} {result : Except Slip (α × Log × Nat)}
    (h : Lands v next value log left result) (hle : position ≤ next) (hstop : next ≤ max position v.stop) :
    Lands v position value log left result := by
  obtain ⟨last, rfl, hafter, hinside, hrest⟩ := h
  exact ⟨last, rfl, by omega, by omega, hrest⟩

/-- Reading that is over lands where it is. -/
theorem lands_done {α : Type} (v : View) (position : Nat) (value : α) (log : Log) :
    Lands v position value log (v.rest position) (.ok (value, log, position)) :=
  ⟨position, rfl, Nat.le_refl _, Nat.le_max_left _ _, rfl⟩

/-- A group is read in place as it is from the bytes of the window, with a turn of the loop for each rule. -/
theorem GroupReads.lands {unclaimed : Unclaimed} {around : List Tag} {g g' : OpenGroup}
    (h : GroupReads unclaimed around g log bytes g' log' left) (hv : v.stop ≤ v.buffer.length)
    (hfirst : v.first ≤ position) (hbytes : v.rest position = bytes) :
    Lands v position g' log' left (readGroupAt v unclaimed around g log position) := by
  induction h generalizing position with
  | ended hover =>
    subst hbytes
    rw [readGroupAt_over hv hfirst hover]
    exact lands_done v position _ _
  | field hread ho hstore _ ih =>
    obtain ⟨s, hs⟩ := Span.locates hv hfirst (hbytes ▸ hread)
    rw [readGroupAt_owned hs ho (readPairAt_field hs hstore) hs.after]
    exact (ih (hs.first_le hfirst) hs.rest).from_before hs.le hs.le_max
  | group hread ho hstore _ _ ihinside ihafter =>
    obtain ⟨s, hs⟩ := Span.locates hv hfirst (hbytes ▸ hread)
    obtain ⟨next, hinside, hle, hstop, hrest⟩ := ihinside (hs.first_le hfirst) hs.rest
    have hafter := hs.after
    have hend := hs.inside
    rw [readGroupAt_owned hs ho (readPairAt_group hs hstore hinside) (by omega)]
    exact (ihafter (by omega) hrest).from_before (by omega) (by omega)
  | leftOut hread ho ha hunclaimed _ ih =>
    subst hunclaimed
    obtain ⟨s, hs⟩ := Span.locates hv hfirst (hbytes ▸ hread)
    rw [readGroupAt_leftOut hs ho ha]
    exact (ih (hs.first_le hfirst) hs.rest).from_before hs.le hs.le_max

/-- A pair is stored in place as it is from the bytes of the window. -/
theorem PairReads.lands {unclaimed : Unclaimed} {around : List Tag} {cycle : UInt32} {p : Pair}
    {cells stored : List Cell} {s : Span} (h : PairReads unclaimed around cycle p cells log bytes stored log' left)
    (hs : s.Locates v position p bytes) (hv : v.stop ≤ v.buffer.length) (hfirst : v.first ≤ position) :
    Lands v s.next stored log' left (readPairAt v unclaimed around cycle s cells log) := by
  cases h with
  | field hstore =>
    rw [readPairAt_field hs hstore]
    exact ⟨s.next, rfl, Nat.le_refl _, Nat.le_max_left _ _, hs.rest⟩
  | group hstore inside =>
    obtain ⟨next, hinside, hle, hstop, hrest⟩ := inside.lands hv (hs.first_le hfirst) hs.rest
    rw [readPairAt_group hs hstore hinside]
    exact ⟨next, rfl, hle, hstop, hrest⟩

/-- A message is read in place as it is from the bytes of the window. -/
theorem PartsReads.lands {legal : List Tag} {summed : Bool} {ps ps' : Parts}
    (h : PartsReads legal summed ps log bytes ps' log' left) (hv : v.stop ≤ v.buffer.length)
    (hfirst : v.first ≤ position) (hbytes : v.rest position = bytes) :
    Lands v position ps' log' left (readPartsAt v legal summed ps log position) := by
  induction h generalizing position with
  | ended hover =>
    subst hbytes
    rw [readPartsAt_over hv hfirst hover]
    exact lands_done v position _ _
  | owned hread hsum ho pair _ ih =>
    obtain ⟨s, hs⟩ := Span.locates hv hfirst (hbytes ▸ hread)
    obtain ⟨next, hpair, hle, hstop, hrest⟩ := pair.lands hs hv hfirst
    have hafter := hs.after
    have hend := hs.inside
    rw [readPartsAt_owned hs hsum ho hpair (by omega)]
    exact (ih (by omega) hrest).from_before (by omega) (by omega)
  | leftOut hread hsum ho _ ih =>
    obtain ⟨s, hs⟩ := Span.locates hv hfirst (hbytes ▸ hread)
    rw [readPartsAt_leftOut hs hsum ho]
    exact (ih (hs.first_le hfirst) hs.rest).from_before hs.le hs.le_max

/-- An aggregate on its own is read in place as it is from the bytes of the window. -/
theorem AggregateReads.lands {cycle : UInt32} {cells cells' : List Cell}
    (h : AggregateReads cycle cells log bytes cells' log' left) (hv : v.stop ≤ v.buffer.length)
    (hfirst : v.first ≤ position) (hbytes : v.rest position = bytes) :
    Lands v position cells' log' left (readAggregateAt v cycle cells log position) := by
  induction h generalizing position with
  | ended hover =>
    subst hbytes
    rw [readAggregateAt_over hv hfirst hover]
    exact lands_done v position _ _
  | owned hread ho pair _ ih =>
    obtain ⟨s, hs⟩ := Span.locates hv hfirst (hbytes ▸ hread)
    obtain ⟨next, hpair, hle, hstop, hrest⟩ := pair.lands hs hv hfirst
    have hafter := hs.after
    have hend := hs.inside
    rw [readAggregateAt_owned hs ho hpair (by omega)]
    exact (ih (by omega) hrest).from_before (by omega) (by omega)

end Loops

section Values

variable {v : View}

/-- A value is looked up in place as it is in the bytes of the window. -/
theorem valueOfAt?_eq (hv : v.stop ≤ v.buffer.length) (tag : Tag) (position : Nat) (hfirst : v.first ≤ position) :
    valueOfAt? v tag position = .ok (Pair.valueOf? tag (v.rest position)) := by
  rw [valueOfAt?, Pair.valueOf?]
  by_cases hp : position < v.stop
  · rw [dif_pos hp]
    cases hread : Pair.read? (v.rest position) with
    | none =>
      rw [Pair.all_of_read?_eq_none hread, bind_of_ok (Span.read?_eq_none hv hfirst hp hread)]
      rfl
    | some found =>
      obtain ⟨p, rest⟩ := found
      obtain ⟨s, hs⟩ := Span.locates hv hfirst hread
      obtain rfl := hs.rest
      have hafter := hs.after
      rw [bind_of_ok hs.read, Pair.all_of_read?_eq_some hread, List.find?_cons]
      dsimp only
      rw [hs.tag]
      cases hsame : p.tag == tag with
      | true => rw [if_pos rfl, bind_of_ok hs.value]; rfl
      | false =>
        rw [if_neg (by decide), bind_of_ok (advance_eq hs.after)]
        exact valueOfAt?_eq hv tag s.next (by omega)
  · rw [dif_neg hp, Pair.all_of_read?_eq_none (View.read?_rest hp)]
    rfl
termination_by v.stop - position
decreasing_by omega

end Values

end Decoder

/-! ## Windows and their copies -/

namespace View

/-- A window ends inside its buffer. -/
theorem stop_cut_le (buffer : Bytes) (offset length : Nat) :
    (cut buffer offset length).stop ≤ (cut buffer offset length).buffer.length :=
  Nat.min_le_right _ _

/-- What is read in place are the bytes of the window. -/
theorem rest_cut (buffer : Bytes) (offset length : Nat) :
    (cut buffer offset length).rest offset = buffer.window offset length := by
  rw [rest, cut, Bytes.slice, Bytes.window, Bytes.window, List.take_eq_take_iff, List.length_drop]
  dsimp only
  omega

/-- A buffer is the window of all its bytes. -/
theorem window_zero (bytes : Bytes) : bytes.window 0 bytes.length = bytes := by
  simp [Bytes.window]

end View

/-- The number of bytes between the position that reading in place starts at and the one that it ends at. -/
theorem Decoder.Lands.sub_eq {α : Type} {v : View} {position : Nat} {value : α} {log : Log} {left : Bytes}
    {result : Except Slip (α × Log × Nat)} (h : Lands v position value log left result)
    (hv : v.stop ≤ v.buffer.length) :
    ∃ next, result = .ok (value, log, next) ∧ next - position = (v.rest position).length - left.length := by
  obtain ⟨next, hresult, hafter, hinside, hrest⟩ := h
  refine ⟨next, hresult, ?_⟩
  rw [← hrest, View.length_rest hv, View.length_rest hv]
  omega

/-- Decoding in place never slips, and comes to what decoding the bytes of the window does. -/
theorem MessageDecoder.decodeAt_eq (d : MessageDecoder) (buffer : Bytes) (offset length : Nat) :
    d.decodeAt buffer offset length = .ok (d.decode (buffer.window offset length)) := by
  have hv := View.stop_cut_le buffer offset length
  have hfirst : (View.cut buffer offset length).first ≤ offset := Nat.le_refl offset
  have hreads := reads_readParts d.legal false d.parts.nextCycle (.empty d.log.enabled)
    ((View.cut buffer offset length).rest offset)
  obtain ⟨next, hread, hlength⟩ := (hreads.lands hv hfirst rfl).sub_eq hv
  rw [decodeAt, decode, ← View.rest_cut, hread, ← hlength]
  rfl

/-- So does decoding an aggregate on its own. -/
theorem AggregateDecoder.decodeAt_eq (d : AggregateDecoder) (buffer : Bytes) (offset length : Nat) :
    d.decodeAt buffer offset length = .ok (d.decode (buffer.window offset length)) := by
  have hv := View.stop_cut_le buffer offset length
  have hfirst : (View.cut buffer offset length).first ≤ offset := Nat.le_refl offset
  have hreads := reads_readAggregate d.root.nextCycle.stamp d.root.nextCycle.cells (.empty d.log.enabled)
    ((View.cut buffer offset length).rest offset)
  obtain ⟨next, hread, hlength⟩ := (hreads.lands hv hfirst rfl).sub_eq hv
  rw [decodeAt, decode, ← View.rest_cut]
  dsimp only
  rw [hread, ← hlength]
  rfl

/-- So does a registry. -/
theorem Registry.decodeAt_eq (r : Registry) (buffer : Bytes) (offset length : Nat) :
    r.decodeAt buffer offset length = .ok (r.decode (buffer.window offset length)) := by
  have htype := valueOfAt?_eq (View.stop_cut_le buffer offset length) r.typeTag offset (Nat.le_refl _)
  rw [decodeAt, decode, htype, View.rest_cut]
  simp only [bind, Except.bind, Option.bind]
  cases Pair.valueOf? r.typeTag (buffer.window offset length) with
  | none => rfl
  | some type =>
    dsimp only
    cases r.decoder? type with
    | none => rfl
    | some d =>
      dsimp only
      rw [MessageDecoder.decodeAt_eq]
      rfl

/-- Decoding depends only on the window. With any buffer, any offset and any length, also where they reach past the end
of the buffer, and in any state, decoding in place reads no byte outside the window, moves the position on in every turn
of its loops, and comes to the same state and the same number of bytes as decoding the bytes of the window does, be it
from a copy of them or as such; and that number is at most the length of the window. So does a registry, which finds the
same decoder. -/
theorem decodeAt_eq_decode (buffer : Bytes) (offset length : Nat) :
    let window := buffer.window offset length
    (∀ d : MessageDecoder, d.decodeAt buffer offset length = .ok (d.decode window) ∧
      d.decodeAt window 0 window.length = .ok (d.decode window) ∧ (d.decode window).2 ≤ window.length) ∧
    (∀ d : AggregateDecoder, d.decodeAt buffer offset length = .ok (d.decode window) ∧
      d.decodeAt window 0 window.length = .ok (d.decode window) ∧ (d.decode window).2 ≤ window.length) ∧
    ∀ r : Registry, r.decodeAt buffer offset length = .ok (r.decode window) ∧
      r.decodeAt window 0 window.length = .ok (r.decode window) := by
  intro window
  have hcopy : window.window 0 window.length = window := View.window_zero window
  refine ⟨fun d => ⟨d.decodeAt_eq .., ?_, Nat.sub_le _ _⟩, fun d => ⟨d.decodeAt_eq .., ?_, Nat.sub_le _ _⟩,
    fun r => ⟨r.decodeAt_eq .., ?_⟩⟩
  · rw [d.decodeAt_eq, hcopy]
  · rw [d.decodeAt_eq, hcopy]
  · rw [r.decodeAt_eq, hcopy]

end FixWire
