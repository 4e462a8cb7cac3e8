import FixWire.Proofs.Decoder.Positions
import FixWire.Proofs.RoundTrip.Stream

/-!
# Pairs and segments

The ends of fields cut a window into segments. The reader of pairs does not cut it so : it looks for the next equals
sign, and for the end of a field only behind that. A segment with an equals sign still gives one pair, with the bytes
behind its first equals sign as the value. A segment without one gives no pair, but it is not left out either : it
stands in front of the tag of the next pair, with the end of its field (`Pair.map_said_all`).

So the pairs are what the segments say if all segments without an equals sign come last, and only then
(`Pair.read_eq_said_iff`). Elsewhere such a segment spoils the tag of the field that follows it (`Pair.read_ne_said`).
-/

namespace FixWire

namespace Bytes

/-! ## Segments -/

/-- The segments of a window : what stands between the ends of its fields, and in front of the first and behind the last
of them. -/
def segments (window : Bytes) : List Bytes :=
  window.splitOn soh

theorem forall_bne_of_notMem {byte : UInt8} {bytes : Bytes} (h : byte ∉ bytes) : ∀ b ∈ bytes, (b != byte) = true :=
  fun b hb => by simpa using fun heq : b = byte => h (heq ▸ hb)

theorem splitOn_of_notMem {byte : UInt8} : ∀ {bytes : Bytes}, byte ∉ bytes → splitOn byte bytes = [bytes]
  | [], _ => rfl
  | b :: rest, h => by
    obtain ⟨hb, hrest⟩ := not_or.1 (mt List.mem_cons.2 h)
    rw [splitOn, if_neg (Ne.symm hb), splitOn_of_notMem hrest]

theorem splitOn_append {byte : UInt8} : ∀ {token : Bytes}, byte ∉ token → ∀ rest : Bytes,
    splitOn byte (token ++ byte :: rest) = token :: splitOn byte rest
  | [], _, rest => by rw [List.nil_append, splitOn, if_pos rfl]
  | b :: token, h, rest => by
    obtain ⟨hb, htoken⟩ := not_or.1 (mt List.mem_cons.2 h)
    rw [List.cons_append, splitOn, if_neg (Ne.symm hb), splitOn_append htoken rest]

end Bytes

namespace Pair

/-- The text of a tag and a value. -/
def said (p : Pair) : Bytes × Bytes :=
  (p.text, p.value)

/-- What a segment says : the bytes in front of its first equals sign and those behind it; nothing if it has none. -/
def said? (segment : Bytes) : Option (Bytes × Bytes) :=
  if equalsSign ∈ segment then
    some (segment.takeWhile (· != equalsSign), (segment.dropWhile (· != equalsSign)).tail)
  else none

/-- What is read from some segments. `lead` has been passed since the last pair, and a segment without an equals sign is
passed with the end of its field. -/
def readings (lead : Bytes) : List Bytes → List (Bytes × Bytes)
  | [] => []
  | segment :: rest =>
    match said? segment with
    | none => readings (lead ++ segment ++ [soh]) rest
    | some (text, value) => (lead ++ text, value) :: readings [] rest

theorem said?_of_notMem {segment : Bytes} (h : equalsSign ∉ segment) : said? segment = none :=
  if_neg h

theorem said?_field {text : Bytes} (h : equalsSign ∉ text) (value : Bytes) :
    said? (text ++ equalsSign :: value) = some (text, value) := by
  have htext := Bytes.forall_bne_of_notMem h
  rw [said?, if_pos (by simp), List.takeWhile_append_of_pos htext, List.dropWhile_append_of_pos htext,
    List.takeWhile_cons_of_neg (by simp), List.dropWhile_cons_of_neg (by simp), List.append_nil, List.tail_cons]

/-- A segment says something if it has an equals sign. -/
theorem isSome_said? (segment : Bytes) : (said? segment).isSome = true ↔ equalsSign ∈ segment := by
  unfold said?
  split_ifs with h <;> simp [h]

/-! ## What is read from the segments -/

/-- The last field of a window may lack its end. -/
theorem read?_unended {text value : Bytes} (ht : equalsSign ∉ text) (hv : soh ∉ value) :
    read? (text ++ equalsSign :: value) = some (⟨text, value, false⟩, []) := by
  have htext := Bytes.forall_bne_of_notMem ht
  have hvalue : value.takeWhile (· != soh) = value := List.takeWhile_eq_self_iff.2 (Bytes.forall_bne_of_notMem hv)
  rw [read?, List.takeWhile_append_of_pos htext, List.takeWhile_cons_of_neg (by simp), List.append_nil, List.drop_left]
  dsimp only
  rw [hvalue, List.drop_length]

/-- The pairs of a window behind bytes without an equals sign. The induction is along the segments of the window. -/
theorem map_said_all (lead window : Bytes) (h : equalsSign ∉ lead) :
    (all (lead ++ window)).map said = readings lead window.segments := by
  by_cases hsoh : soh ∈ window
  · obtain ⟨segment, rest, rfl, hsegment⟩ := List.eq_append_cons_of_mem hsoh
    rw [Bytes.segments, Bytes.splitOn_append hsegment, readings]
    by_cases heq : equalsSign ∈ segment
    · -- The segment gives a pair, and nothing has been passed behind it.
      obtain ⟨text, value, rfl, htext⟩ := List.eq_append_cons_of_mem heq
      have hvalue : soh ∉ value := fun hmem => hsegment (by simp [hmem])
      have hsplit : lead ++ (text ++ equalsSign :: value ++ soh :: rest) =
          lead ++ text ++ equalsSign :: value ++ [soh] ++ rest := by
        simp
      have hlead : equalsSign ∉ lead ++ text := by simp [h, htext]
      rw [hsplit, all_of_read?_eq_some (read?_field hlead hvalue rest), said?_field htext, List.map_cons]
      exact congrArg _ (map_said_all [] rest (by simp))
    · -- The segment and its end are passed.
      have hsplit : lead ++ (segment ++ soh :: rest) = lead ++ segment ++ [soh] ++ rest := by simp
      have hsep : equalsSign ≠ soh := by decide
      have hlead : equalsSign ∉ lead ++ segment ++ [soh] := by simp [h, heq, hsep]
      rw [said?_of_notMem heq, hsplit]
      exact map_said_all _ rest hlead
  · rw [Bytes.segments, Bytes.splitOn_of_notMem hsoh, readings]
    by_cases heq : equalsSign ∈ window
    · obtain ⟨text, value, rfl, htext⟩ := List.eq_append_cons_of_mem heq
      have hvalue : soh ∉ value := fun hmem => hsoh (by simp [hmem])
      have hlead : equalsSign ∉ lead ++ text := by simp [h, htext]
      rw [said?_field htext, ← List.append_assoc, all_of_read?_eq_some (read?_unended hlead hvalue),
        all_of_read?_eq_none rfl]
      rfl
    · rw [said?_of_notMem heq, all_of_read?_eq_none (read?_eq_none (by simp [h, heq]))]
      rfl
termination_by window.length

/-- The values that are read are those of the segments, whatever has been passed. -/
theorem map_snd_readings : ∀ (lead : Bytes) (segments : List Bytes),
    (readings lead segments).map Prod.snd = (segments.filterMap said?).map Prod.snd
  | _, [] => rfl
  | lead, segment :: rest => by
    rw [readings, List.filterMap_cons]
    cases said? segment with
    | none => exact map_snd_readings _ rest
    | some pair => exact congrArg (pair.2 :: ·) (map_snd_readings [] rest)

/-! ## Where segments are left out -/

/-- Where something has been passed, nothing right is read any more if something is read. -/
theorem readings_eq_iff_of_ne_nil : ∀ (lead : Bytes) (segments : List Bytes), lead ≠ [] →
    (readings lead segments = segments.filterMap said? ↔ ∀ segment ∈ segments, equalsSign ∉ segment)
  | _, [], _ => by simp [readings]
  | lead, segment :: rest, h => by
    rw [readings, List.filterMap_cons, List.forall_mem_cons, ← isSome_said?]
    cases said? segment with
    | none => simpa using readings_eq_iff_of_ne_nil (lead ++ segment ++ [soh]) rest (by simp)
    | some pair =>
      obtain ⟨text, value⟩ := pair
      simp [h]

/-- What is read is what the segments say if none with an equals sign comes after one without, and only then. -/
theorem readings_eq_iff : ∀ {segments : List Bytes}, readings [] segments = segments.filterMap said? ↔
    segments.Pairwise fun earlier later => equalsSign ∈ later → equalsSign ∈ earlier
  | [] => by simp [readings]
  | segment :: rest => by
    rw [readings, List.filterMap_cons, List.pairwise_cons, ← isSome_said? segment]
    cases said? segment with
    | none =>
      dsimp only
      rw [readings_eq_iff_of_ne_nil _ rest (by simp)]
      simp only [Option.isSome_none, Bool.false_eq_true, imp_false]
      exact ⟨fun h => ⟨h, List.pairwise_of_forall_mem_list fun _ _ later hl he => absurd he (h later hl)⟩, And.left⟩
    | some pair => simpa using readings_eq_iff

end Pair

/-! ## Reading in place -/

/-- The pairs that are read from a position on, each where the last one ends, until there is no further one. -/
inductive Span.Reads (v : View) : Nat → List Pair → Prop
  | stop {position : Nat} (h : Span.read? v position = .ok none) : Reads v position []
  | next {position : Nat} {s : Span} {value : Bytes} {ps : List Pair} (h : Span.read? v position = .ok (some s))
    (hvalue : v.slice s.first s.stop = .ok value) (hrest : Reads v s.next ps) : Reads v position (s.pair value :: ps)

theorem Span.Reads.unique {v : View} {position : Nat} {ps ps' : List Pair} (h : Reads v position ps)
    (h' : Reads v position ps') : ps = ps' := by
  induction h generalizing ps' with
  | stop h =>
    cases h' with
    | stop => rfl
    | next h' => cases h.symm.trans h'
  | next h hvalue _ ih =>
    cases h' with
    | stop h' => cases h.symm.trans h'
    | next h' hvalue' hrest =>
      cases h.symm.trans h'
      cases hvalue.symm.trans hvalue'
      rw [ih hrest]

/-- At the end of the window there is no pair. -/
theorem Span.read?_stop {v : View} (hv : v.stop ≤ v.buffer.length) (hfirst : v.first ≤ v.stop) :
    Span.read? v v.stop = .ok none := by
  have hhas : v.Has v.stop v.stop := ⟨hfirst, Nat.le_refl _, Nat.le_refl _, hv⟩
  simp [read?, View.scan_eq hhas, View.rest_eq_nil (Nat.le_refl _), bind, Except.bind, pure, Except.pure]

/-- The pairs that are read in place are those of the bytes that are left of the window. -/
theorem Span.reads_all {v : View} (hv : v.stop ≤ v.buffer.length) (position : Nat) (hfirst : v.first ≤ position)
    (hle : position ≤ v.stop) : Reads v position (Pair.all (v.rest position)) := by
  rcases Nat.eq_or_lt_of_le hle with rfl | hlt
  · rw [Pair.all_of_read?_eq_none (View.read?_rest (Nat.lt_irrefl _))]
    exact .stop (read?_stop hv hfirst)
  · cases hread : Pair.read? (v.rest position) with
    | none =>
      rw [Pair.all_of_read?_eq_none hread]
      exact .stop (Span.read?_eq_none hv hfirst hlt hread)
    | some found =>
      obtain ⟨p, rest⟩ := found
      obtain ⟨s, hs⟩ := Span.locates hv hfirst hread
      obtain rfl := hs.rest
      have hafter := hs.after
      rw [Pair.all_of_read?_eq_some hread, ← hs.pair]
      exact .next hs.read hs.value (reads_all hv s.next (by omega) hs.inside)
termination_by v.stop - position
decreasing_by omega

namespace Pair

/-! ## Pairs and segments -/

/-- The pairs that are read from a window of a buffer, one after the other, until there is none. There is one for each
segment with an equals sign, with the value that the segment says; the text of its tag has in front of it the segments
without an equals sign that have been passed. The pairs are what the segments say, tags included, if no segment with an
equals sign comes after one without, and only then. -/
theorem read_eq_said_iff (buffer : Bytes) {offset : Nat} (length : Nat) (h : offset ≤ buffer.length) :
    let segments := (buffer.window offset length).segments
    ∃ ps, (∀ ps', Span.Reads (.cut buffer offset length) offset ps' ↔ ps' = ps) ∧
      ps.map said = readings [] segments ∧ ps.map value = (segments.filterMap said?).map Prod.snd ∧
      (ps.map said = segments.filterMap said? ↔
        segments.Pairwise fun earlier later => equalsSign ∈ later → equalsSign ∈ earlier) := by
  intro segments
  have hreads := Span.reads_all (View.stop_cut_le buffer offset length) offset (Nat.le_refl _)
    (Nat.le_min.2 ⟨Nat.le_add_right _ _, h⟩)
  rw [View.rest_cut] at hreads
  have hsaid : (all (buffer.window offset length)).map said = readings [] segments := map_said_all [] _ (by simp)
  refine ⟨_, fun ps' => ⟨fun h' => h'.unique hreads, fun h' => h' ▸ hreads⟩, hsaid, ?_, ?_⟩
  · have hsnd : (all (buffer.window offset length)).map value = (readings [] segments).map Prod.snd := by
      rw [← hsaid, List.map_map]
      rfl
    rw [hsnd, map_snd_readings]
  · rw [hsaid, readings_eq_iff]

/-- A segment without an equals sign at the end of a window does no harm. -/
theorem read_eq_said_trailing :
    let buffer := Sample.bytes "8=FIX.4.4|9=5|35=S|55=a=b|junk|"
    0 ≤ buffer.length ∧ ∃ ps, Span.Reads (.cut buffer 0 buffer.length) 0 ps ∧
      ps.map said = [("8", "FIX.4.4"), ("9", "5"), ("35", "S"), ("55", "a=b")].map fun (text, value) =>
        (Bytes.ofString text, Bytes.ofString value) := by
  intro buffer
  obtain ⟨ps, hreads, -, -, hsaid⟩ := read_eq_said_iff buffer buffer.length (Nat.zero_le _)
  refine ⟨Nat.zero_le _, ps, (hreads ps).2 rfl, (hsaid.2 ?_).trans ?_⟩
  · decide +kernel
  · decide +kernel

/-- A segment without an equals sign costs the field that follows it its tag : what is read is a pair without a number
for a tag, where the segments say that the tag 55 has a value. -/
theorem read_ne_said :
    let buffer := Sample.bytes "junk|55=E|"
    buffer.segments.filterMap said? = [(Bytes.ofString "55", Bytes.ofString "E")] ∧
      ∃ p, Span.Reads (.cut buffer 0 buffer.length) 0 [p] ∧ p.said = (Sample.bytes "junk|55", Bytes.ofString "E") ∧
        p.tag = 0 ∧ [p].map said ≠ buffer.segments.filterMap said? := by
  intro buffer
  have hreads := Span.reads_all (View.stop_cut_le buffer 0 buffer.length) 0 (Nat.le_refl _) (Nat.zero_le _)
  rw [View.rest_cut, View.window_zero] at hreads
  have hall : all buffer = [⟨Sample.bytes "junk|55", Bytes.ofString "E", true⟩] := by decide +kernel
  rw [hall] at hreads
  exact ⟨by decide +kernel, _, hreads, rfl, by decide +kernel, by decide +kernel⟩

end Pair

end FixWire
