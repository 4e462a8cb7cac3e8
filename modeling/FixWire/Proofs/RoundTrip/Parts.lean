import FixWire.Proofs.Encoder.Framing
import FixWire.Proofs.RoundTrip.Groups

/-!
# Parts read back

A message is read part by part as it was written : each cell belongs to its own part and to no other one, and what
follows a group is of the parts, so that the group ends there. Up to the end of its cells the part is then as
they say (`readParts_cells`), and after the checksum only the trailer goes on.
-/

namespace FixWire

open Decoder (Fault Log Parts Reading Unclaimed readPair readParts)

namespace Decoder

section Owned

variable {legal : List Tag} {summed : Bool} {ps : Parts} {part : Part} {log log' : Log} {bytes rest rest' : Bytes}
  {p : Pair} {tag : Tag} {cells : List Cell}

/-- One pair of a part is read, and the parts go on after it. -/
theorem result_readParts_owned (h : Pair.read? bytes = some (p, rest)) (ht : p.tag = tag)
    (hs : ¬(summed && !ps.trailer.owns tag)) (ho : ps.owner? tag = some part)
    (hi : (readPair (.skip legal) ps.tags (ps.get part).stamp p (ps.get part).cells (log.see tag) rest).result =
      (cells, log', rest')) :
    (readParts legal summed ps log bytes).result =
      (readParts legal (summed || ps.isSum part tag) (ps.setCells part cells) log' rest').result := by
  subst ht
  obtain ⟨rfl, rfl, rfl⟩ := Reading.result_eq_iff.1 hi
  rw [readParts_owned h hs ho rfl]
  rfl

theorem Parts.setCells_get (ps : Parts) (part : Part) : ps.setCells part (ps.get part).cells = ps := by
  cases part <;> rfl

/-- The tag of a derived checksum in the trailer, and no other, ends the parts. -/
theorem Parts.isSum_eq {c : Cell} (h : find? (ps.get part).cells tag = some c) :
    ps.isSum part tag = (part = .trailer && c.isDerived .checkSum) := by
  cases part with
  | trailer => exact congrArg (fun found => true && Option.any (Cell.isDerived .checkSum) found) h
  | header => rfl
  | body => rfl

end Owned

/-- Logs some tags that are handled outside groups. -/
def Log.seeAll (log : Log) (tags : List Tag) : Log :=
  { log with seen := log.seen ++ tags }

@[simp] theorem Log.seeAll_nil (log : Log) : log.seeAll [] = log := by
  simp [Log.seeAll]

theorem Log.see_eq_seeAll (log : Log) (tag : Tag) : log.see tag = log.seeAll [tag] :=
  rfl

@[simp] theorem Log.seeAll_seeAll (log : Log) (a b : List Tag) : (log.seeAll a).seeAll b = log.seeAll (a ++ b) := by
  simp [Log.seeAll]

@[simp] theorem Log.seeAll_add (log : Log) (faults : List Fault) (tags : List Tag) :
    (log.add faults).seeAll tags = (log.seeAll tags).add faults := by
  unfold Log.add Log.seeAll
  dsimp only
  split_ifs <;> rfl

end Decoder

namespace Encoder

/-- The tags of the cells for which anything is written. -/
def tagsWritten (cells : List Cell) : List Tag :=
  (cells.filter Cell.isWritten).map Cell.tag

/-- Whether the checksum is among the cells, written, if they are those of a trailer. -/
def holdsSum (part : Part) (cells : List Cell) : Bool :=
  part = .trailer && cells.any fun c => c.isWritten && c.isDerived .checkSum

theorem holdsSum_cons (part : Part) (c : Cell) (rest : List Cell) :
    holdsSum part (c :: rest) = (holdsSum part [c] || holdsSum part rest) := by
  simp [holdsSum, Bool.and_or_distrib_left]

theorem eq_trailer_of_holdsSum {part : Part} {cells : List Cell} (h : holdsSum part cells = true) :
    part = .trailer :=
  of_decide_eq_true (Bool.and_eq_true_iff.1 h).1

theorem tagsWritten_cons (c : Cell) (rest : List Cell) :
    tagsWritten (c :: rest) = tagsWritten [c] ++ tagsWritten rest := by
  cases hw : c.isWritten <;> simp [tagsWritten, hw]

theorem Cell.isDerived_blank (d : Derived) (c : Cell) : (Decoder.Cell.blank c.member).isDerived d = c.isDerived d := by
  cases c <;> rfl

section Cells

variable {legal : List Tag} {part : Part} {summed : Bool} {ps : Parts} {c : Cell}
  {done : List Decoder.Cell} {rest : List Cell} {after : Bytes}

/-- Reading one more cell of a part leaves all tags in place. -/
theorem sameTags_next (hcells : (ps.get part).cells = done ++ unread (c :: rest)) (cycle : UInt32) :
    (ps.setCells part (done ++ c.decoded cycle :: unread rest)).SameTags ps := by
  refine Parts.sameTags_setCells ?_
  rw [Decoder.Aggregate.tags, hcells]
  simp [unread, Cell.tag_blank]

/-- The next cell of a part. -/
theorem readParts_cell (log : Log) (hlegible : c.Legible) (howner : ps.owner? c.tag = some part)
    (hreads : c.ReadsBack ps.tags) (hcells : (ps.get part).cells = done ++ unread (c :: rest)) (hstamp : (ps.get part).stamp ≠ 0)
    (hnew : c.tag ∉ done.map Decoder.Cell.tag) (hsummed : summed = true → part = .trailer)
    (hfollows : Follows (.skip legal) ps.tags ps.tags after) :
    (readParts legal summed ps log (c.written ++ after)).result =
      (readParts legal (summed || holdsSum part [c])
        (ps.setCells part (done ++ c.decoded (ps.get part).stamp :: unread rest))
        ((log.seeAll (tagsWritten [c])).add c.faults) after).result := by
  cases hw : c.isWritten with
  | false =>
    have hkeep : ps.setCells part (done ++ c.decoded (ps.get part).stamp :: unread rest) = ps := by
      rw [c.decoded_of_not hw, show _ :: unread rest = unread (c :: rest) from rfl, ← hcells, Parts.setCells_get]
    rw [hkeep, c.written_eq_nil hw, c.faults_of_not hw]
    simp [holdsSum, tagsWritten, hw]
  | true =>
    have hput : Decoder.put (c.decoded (ps.get part).stamp) (ps.get part).cells =
        done ++ c.decoded (ps.get part).stamp :: unread rest := by
      rw [hcells, put_unread done hnew]
    have hfind : Decoder.find? (ps.get part).cells c.tag = some (.blank c.member) := by
      rw [hcells, find?_unread done hnew]
    -- After the checksum the trailer goes on, and the cell is of the trailer.
    have hopen : ¬(summed && !ps.trailer.owns c.tag) := by
      intro hclosed
      obtain ⟨hs, hnot⟩ := Bool.and_eq_true_iff.1 hclosed
      obtain rfl := hsummed hs
      rw [show ps.trailer.owns c.tag = true from Parts.owns_of_owner? howner] at hnot
      exact Bool.noConfusion hnot
    have hinner := hreads (.skip legal) ps.tags (ps.get part).stamp (ps.get part).cells (log.see c.tag) after hstamp
      hw hfind hfollows
    rw [hput] at hinner
    have hread := Decoder.result_readParts_owned (Pair.read?_fieldBytes hlegible.value c.tag _)
      (Pair.tag_written hlegible.tag c.value) hopen howner hinner
    rw [Parts.isSum_eq hfind, c.isDerived_blank] at hread
    rw [c.written_of_isWritten hw, List.append_assoc, hread, Log.see_eq_seeAll]
    simp [holdsSum, tagsWritten, hw]

/-- The cells of a part after those that have been read. -/
theorem readParts_cells (tail : Bytes) : ∀ (cells : List Cell) (done : List Decoder.Cell) (summed : Bool) (ps : Parts)
    (log : Log),
    (ps.get part).cells = done ++ unread cells → (ps.get part).stamp ≠ 0 →
      (∀ c ∈ cells, c.Legible ∧ ps.owner? c.tag = some part ∧ c.ReadsBack ps.tags) →
        (done.map Decoder.Cell.tag ++ cells.map Cell.tag).Nodup → (summed = true → part = .trailer) →
          Follows (.skip legal) ps.tags ps.tags tail →
            (readParts legal summed ps log (written cells ++ tail)).result =
              (readParts legal (summed || holdsSum part cells)
                (ps.setCells part (done ++ decoded (ps.get part).stamp cells))
                ((log.seeAll (tagsWritten cells)).add (faults cells)) tail).result
  | [], done, summed, ps, log, hcells, _, _, _, _, _ => by
    have hkeep : ps.setCells part (done ++ decoded (ps.get part).stamp []) = ps := by
      rw [decoded, show [] = unread [] from rfl, ← hcells, Parts.setCells_get]
    have hsum : holdsSum part [] = false := by simp [holdsSum]
    rw [hkeep, hsum, faults, Log.add_nil, tagsWritten, List.filter_nil, List.map_nil, Log.seeAll_nil, Bool.or_false]
    rfl
  | c :: rest, done, summed, ps, log, hcells, hstamp, hall, hnodup, hsummed, hfollows => by
    have hmem : ∀ c ∈ rest, c.Legible ∧ c.tag ∈ ps.tags := fun c hc => by
      obtain ⟨hlegible, howner, -⟩ := hall c (List.mem_cons_of_mem _ hc)
      refine ⟨hlegible, List.contains_iff_mem.1 ?_⟩
      rw [← Parts.isSome_owner?, howner]
      rfl
    rw [List.forall_mem_cons] at hall
    obtain ⟨⟨hlegible, howner, hreads⟩, hrest⟩ := hall
    have hnext : Follows (.skip legal) ps.tags ps.tags (written rest ++ tail) :=
      follows_written (fun c hc => ⟨(hmem c hc).1, (hmem c hc).2, (hmem c hc).2⟩) hfollows
    have hcell := readParts_cell log hlegible howner hreads hcells hstamp (notMem_of_nodup hnodup) hsummed hnext
    have hsame := sameTags_next hcells (ps.get part).stamp
    have hget := Parts.get_setCells ps part (done ++ c.decoded (ps.get part).stamp :: unread rest)
    have ih := readParts_cells tail rest (done ++ [c.decoded (ps.get part).stamp]) (summed || holdsSum part [c])
      (ps.setCells part (done ++ c.decoded (ps.get part).stamp :: unread rest))
      ((log.seeAll (tagsWritten [c])).add c.faults) ?_ ?_ ?_ ?_ ?_ ?_
    · rw [written, List.append_assoc, hcell, ih, hget, Parts.setCells_setCells, List.append_assoc, Log.seeAll_add,
        Log.seeAll_seeAll, Log.add_add, Bool.or_assoc, ← holdsSum_cons, ← tagsWritten_cons]
      rfl
    · rw [hget, List.append_assoc]
      rfl
    · rwa [hget]
    · intro c hc
      rw [hsame.tags, hsame.owner?]
      exact hrest c hc
    · simpa using hnodup
    · rw [Bool.or_eq_true]
      rintro (hs | hs)
      · exact hsummed hs
      · exact eq_trailer_of_holdsSum hs
    · rwa [hsame.tags]

end Cells

end Encoder

/-! ## All parts -/

namespace Decoder

/-- A tag that only one part has belongs to that part. -/
theorem Parts.owner?_of_owns {ps : Parts} {part : Part} {tag : Tag} (h : (ps.get part).owns tag = true)
    (hothers : ∀ part', part' ≠ part → (ps.get part').owns tag = false) : ps.owner? tag = some part := by
  have hheader := hothers .header
  have hbody := hothers .body
  cases part with
  | header => rw [owner?, List.find?_cons, h]
  | body => rw [owner?, List.find?_cons, hheader nofun, List.find?_cons, h]
  | trailer => rw [owner?, List.find?_cons, hheader nofun, List.find?_cons, hbody nofun, List.find?_cons, h]

end Decoder

namespace MessageEncoder

open Encoder

/-- The tags for which anything is written, outside groups, in order. -/
def tagsWritten (e : MessageEncoder) : List Tag :=
  Encoder.tagsWritten e.header ++ (Encoder.tagsWritten e.body ++ Encoder.tagsWritten e.trailer)

/-- The faults that are logged while what is written is read. -/
def faults (e : MessageEncoder) : List Fault :=
  Encoder.faults e.header ++ (Encoder.faults e.body ++ Encoder.faults e.trailer)

/-- The parts of a decoder after reading what is written. -/
def readInto (e : MessageEncoder) (ps : Parts) : Parts :=
  ((ps.setCells .header (decoded ps.header.stamp e.header)).setCells .body (decoded ps.body.stamp e.body)).setCells
    .trailer (decoded ps.trailer.stamp e.trailer)

/-- Parts of which nothing has been read can take what is written. -/
structure Suitable (e : MessageEncoder) (ps : Parts) : Prop where
  cells : ∀ part, (ps.get part).cells = unread (e.part part)
  stamp : ∀ part, (ps.get part).stamp ≠ 0
  nodup : ∀ part, ((e.part part).map Cell.tag).Nodup
  owner : ∀ part, ∀ c ∈ e.part part, ps.owner? c.tag = some part
  readable : ∀ part, ∀ c ∈ e.part part, c.Readable ps.tags

namespace Suitable

variable {e : MessageEncoder} {ps qs : Parts} {legal : List Tag} {tail : Bytes}

/-- The fields of a part may follow what is read before them. -/
theorem follows (h : e.Suitable ps) (hfollows : Follows (.skip legal) ps.tags ps.tags tail) (part : Part) :
    Follows (.skip legal) ps.tags ps.tags (written (e.part part) ++ tail) := by
  refine follows_written (fun c hc => ?_) hfollows
  have hmem : c.tag ∈ ps.tags := by
    rw [← List.contains_iff_mem, ← Parts.isSome_owner?, h.owner part c hc]
    rfl
  exact ⟨(h.readable part c hc).legible, hmem, hmem⟩

/-- One part is read, whatever has been read of the others. -/
theorem readParts_part (h : e.Suitable ps) (part : Part) (summed : Bool) (log : Log) (hsame : qs.SameTags ps)
    (hget : qs.get part = ps.get part) (hsummed : summed = true → part = .trailer)
    (hfollows : Follows (.skip legal) ps.tags ps.tags tail) :
    (readParts legal summed qs log (written (e.part part) ++ tail)).result =
      (readParts legal (summed || holdsSum part (e.part part))
        (qs.setCells part (decoded (ps.get part).stamp (e.part part)))
        ((log.seeAll (Encoder.tagsWritten (e.part part))).add (Encoder.faults (e.part part))) tail).result := by
  have hfollows' : Follows (.skip legal) qs.tags qs.tags tail := by
    rwa [hsame.tags]
  have hread := readParts_cells tail (e.part part) [] summed qs log
    (by rw [hget, List.nil_append]; exact h.cells part) (by rw [hget]; exact h.stamp part)
    (fun c hc => ?_) (by simpa using h.nodup part) hsummed hfollows'
  · rw [hget] at hread
    exact hread
  · rw [hsame.owner?, hsame.tags]
    exact ⟨(h.readable part c hc).legible, h.owner part c hc, (h.readable part c hc).readsBack⟩

/-- Reading a whole part leaves all tags in place. -/
theorem sameTags_decoded (h : e.Suitable ps) (hsame : qs.SameTags ps) (part : Part) :
    (qs.setCells part (decoded (ps.get part).stamp (e.part part))).SameTags ps := by
  have htags : (decoded (ps.get part).stamp (e.part part)).map Decoder.Cell.tag = (qs.get part).tags := by
    rw [hsame part, Decoder.Aggregate.tags, h.cells part, decoded_eq_map, unread, List.map_map, List.map_map]
    refine List.map_congr_left fun c _ => ?_
    simp [c.tag_blank]
  intro part'
  rw [← hsame part']
  exact Parts.sameTags_setCells htags part'

/-- What is written for the parts is read into them. -/
theorem readParts_written (h : e.Suitable ps) (log : Log) (hfollows : Follows (.skip legal) ps.tags ps.tags tail) :
    (readParts legal false ps log (written e.header ++ (written e.body ++ (written e.trailer ++ tail)))).result =
      (readParts legal (holdsSum .trailer e.trailer) (e.readInto ps)
        ((log.seeAll e.tagsWritten).add e.faults) tail).result := by
  have hheader := h.sameTags_decoded (.refl ps) .header
  have hbody := h.sameTags_decoded hheader .body
  have htrailer := h.follows hfollows .trailer
  refine (h.readParts_part .header false log (.refl ps) rfl (fun hs => by cases hs) (h.follows htrailer .body)).trans ?_
  refine (h.readParts_part .body _ _ hheader rfl (fun hs => by simp [holdsSum] at hs) htrailer).trans ?_
  refine (h.readParts_part .trailer _ _ hbody rfl (fun _ => rfl) hfollows).trans ?_
  have hsum : (false || holdsSum .header (e.part .header) || holdsSum .body (e.part .body)) = false := rfl
  rw [hsum, Bool.false_or, Log.seeAll_add, Log.seeAll_seeAll, Log.add_add, Log.seeAll_add, Log.seeAll_seeAll,
    Log.add_add]
  rfl

end Suitable

end MessageEncoder

end FixWire
