import FixWire.Proofs.RoundTrip.Cells

/-!
# Groups read back

Groups have no marks at their ends, so the bytes of a cell can be read back only if what follows them shows that
the cell is over (`Follows`). Reading a group stops at the first tag of something around it; that is where the group
was written to end, if its entries have no tag of anything around it, and an entry is where it was if it starts with
the delimiter.

`Cell.Readable` collects what it takes. The bytes of a readable cell, followed by anything that belongs around it,
are read into a blank cell such that it holds just what was written (`Readable.readsBack`). The proof is by
induction over the cells inside the cell; within a group it goes along the cells of an entry
(`readGroup_cells`) and along the entries (`readGroup_entries`).
-/

namespace FixWire

open Decoder (Fault Log OpenGroup Reading Unclaimed readGroup readPair repetitionCycle)

/-! ## Readings and logs -/

namespace Decoder

@[simp] theorem Log.add_nil (log : Log) : log.add [] = log := by
  unfold Log.add
  split_ifs <;> simp

@[simp] theorem Log.add_add (log : Log) (a b : List Fault) : (log.add a).add b = log.add (a ++ b) := by
  unfold Log.add
  split_ifs <;> simp

variable {c new : Cell}

theorem put_put (h : new.tag = c.tag) : ∀ cells : List Cell, put new (put c cells) = put new cells
  | [] => rfl
  | d :: rest => by
    rw [put]
    split_ifs with hd
    · rw [put, put, if_pos h.symm, if_pos (hd.trans h.symm)]
    · rw [put, put, if_neg (fun hn => hd (hn.trans h)), if_neg (fun hn => hd (hn.trans h)), put_put h rest]

end Decoder

/-! ## What follows -/

/-- What follows begins with the tag of something in scope, at which the reading stops, or with no tag. -/
def Follows (unclaimed : Unclaimed) (around scope : List Tag) (tail : Bytes) : Prop :=
  ∀ p rest, Pair.read? tail = some (p, rest) → p.tag ∈ scope ∧ (p.tag ∈ around ∨ unclaimed = .stop)

section Follows

variable {unclaimed : Unclaimed} {around scope : List Tag} {tail : Bytes}

theorem follows_nil : Follows unclaimed around scope [] := by
  intro p rest h
  simp [Pair.read?_nil] at h

/-- What follows something also follows what is inside it. -/
theorem Follows.inside (h : Follows unclaimed around scope tail) (tags : List Tag) :
    Follows unclaimed (tags ++ around) (tags ++ scope) tail := fun p rest hp =>
  ⟨List.mem_append_right _ (h p rest hp).1, (h p rest hp).2.imp_left (List.mem_append_right _)⟩

/-- A group is over where something follows. -/
theorem Follows.over {g : OpenGroup} (h : Follows unclaimed around scope tail) (hg : ∀ tag ∈ g.tags, tag ∉ scope) :
    g.Over unclaimed around tail := by
  intro p rest hp
  obtain ⟨hscope, haround⟩ := h p rest hp
  have hnot : ¬g.owns p.tag := by
    rw [← OpenGroup.contains_tags]
    simpa using fun hin => hg _ hin hscope
  exact ⟨hnot, haround.imp_left List.contains_iff_mem.2⟩

/-- A group stops before what may follow it. -/
theorem readGroup_of_follows {g : OpenGroup} {log : Log} (h : Follows unclaimed around scope tail)
    (hg : ∀ tag ∈ g.tags, tag ∉ scope) : (readGroup unclaimed around g log tail).result = (g, log, tail) :=
  congrArg Reading.result (Decoder.readGroup_over (h.over hg))

end Follows

namespace Encoder

section Follows

variable {unclaimed : Unclaimed} {around scope : List Tag} {tail : Bytes} {cells : List Cell}

/-- A cell may follow what is read before it if its tag is known around there. -/
theorem Cell.follows {c : Cell} (hc : c.Legible) (ha : c.tag ∈ around) (hs : c.tag ∈ scope)
    (h : Follows unclaimed around scope tail) : Follows unclaimed around scope (c.written ++ tail) := by
  intro p rest hp
  cases hw : c.isWritten with
  | false =>
    rw [c.written_eq_nil hw] at hp
    exact h p rest hp
  | true =>
    rw [c.written_of_isWritten hw, List.append_assoc, Pair.read?_fieldBytes hc.value] at hp
    obtain ⟨rfl, -⟩ := Option.some.inj hp
    rw [Pair.tag_written hc.tag]
    exact ⟨hs, .inl ha⟩

/-- Cells may follow what is read before them if their tags are known around there. -/
theorem follows_written (hc : ∀ c ∈ cells, c.Legible ∧ c.tag ∈ around ∧ c.tag ∈ scope)
    (h : Follows unclaimed around scope tail) : Follows unclaimed around scope (written cells ++ tail) := by
  induction cells with
  | nil => exact h
  | cons c rest ih =>
    rw [List.forall_mem_cons] at hc
    rw [written, List.append_assoc]
    exact Cell.follows hc.1.1 hc.1.2.1 hc.1.2.2 (ih hc.2)

/-- Repetitions may follow what is read before them if the tags of their cells are known around there. -/
theorem follows_entries {entries : List (List Cell)}
    (hc : ∀ cells ∈ entries, ∀ c ∈ cells, c.Legible ∧ c.tag ∈ around ∧ c.tag ∈ scope)
    (h : Follows unclaimed around scope tail) : Follows unclaimed around scope (entriesWritten entries ++ tail) := by
  induction entries with
  | nil => exact h
  | cons cells rest ih =>
    rw [List.forall_mem_cons] at hc
    rw [entriesWritten, List.append_assoc]
    exact follows_written hc.1 (ih hc.2)

end Follows

end Encoder

/-! ## Open groups -/

namespace Decoder

section Open

variable {unclaimed : Unclaimed} {around : List Tag} {g g' : OpenGroup} {log log' : Log} {bytes rest rest' : Bytes}
  {p : Pair} {tag : Tag} {cells cells' : List Cell}

/-- The group after one more repetition. -/
def OpenGroup.addEntry (g : OpenGroup) (cells : List Cell) : OpenGroup :=
  { g with finished := g.current.toList ++ g.finished, current := some cells, delimited := true }

/-- The group after more repetitions. -/
def OpenGroup.addEntries (g : OpenGroup) (entries : List (List Cell)) : OpenGroup :=
  entries.foldl OpenGroup.addEntry g

/-- A group of which only the counter has been read. -/
def OpenGroup.ofCounter (slot : GroupSlot) (body : List Member) (counter : Counter) : OpenGroup :=
  ⟨slot, body, counter, [], none, false, []⟩

/-- Entries are added behind the repetitions that the group has. -/
theorem OpenGroup.toCell_addEntries (g : OpenGroup) (entries : List (List Cell)) :
    (g.addEntries entries).toCell = .group g.slot g.body g.counter (g.repetitions ++ entries) g.spare := by
  induction entries generalizing g with
  | nil =>
    rw [List.append_nil]
    rfl
  | cons cells rest ih =>
    refine (ih (g.addEntry cells)).trans ?_
    simp [addEntry, repetitions]

section Counter

variable {slot : GroupSlot} {body : List Member} {counter : Counter} {entries : List (List Cell)}

theorem OpenGroup.toCell_ofCounter :
    ((ofCounter slot body counter).addEntries entries).toCell = .group slot body counter entries [] :=
  toCell_addEntries (ofCounter slot body counter) entries

/-- A group with as many entries as its counter tells has no fault. -/
theorem OpenGroup.countFaults_ofCounter (h : counter.declared = some entries.length) :
    ((ofCounter slot body counter).addEntries entries).countFaults = [] := by
  have hcell : ((ofCounter slot body counter).addEntries entries).toCell = .group slot body counter entries [] :=
    toCell_ofCounter
  obtain ⟨-, -, hcounter, hrepetitions, -⟩ := Cell.group.inj hcell
  rw [countFaults, hcounter, h, hrepetitions]
  exact if_pos rfl

end Counter

/-- Inside a repetition another tag than the delimiter begins nothing. -/
theorem OpenGroup.advance_inside (hc : g.current.isSome = true) (hd : g.delimited = true)
    (ht : tag ≠ g.slot.delimiter) : g.advance tag = g := by
  obtain ⟨slot, body, counter, finished, current, delimited, spare⟩ := g
  obtain ⟨cells, rfl⟩ := Option.isSome_iff_exists.1 hc
  obtain rfl : delimited = true := hd
  simp [advance, beq_eq_false_iff_ne.2 ht]

/-- The delimiter begins a repetition, if there is none yet that waits for it. -/
theorem OpenGroup.advance_delimiter (hc : g.current.isSome = true → g.delimited = true) (hs : g.spare = []) :
    g.advance g.slot.delimiter = g.addEntry (g.body.map Cell.blank) := by
  obtain ⟨slot, body, counter, finished, current, delimited, spare⟩ := g
  obtain rfl : spare = [] := hs
  cases current with
  | none => simp [advance, next, addEntry]
  | some cells =>
    obtain rfl : delimited = true := hc rfl
    simp [advance, next, addEntry]

theorem result_readGroup_owned (h : Pair.read? bytes = some (p, rest)) (ht : p.tag = tag)
    (hg : g.advance tag = g') (ho : tag ∈ g.tags)
    (hi : (readPair unclaimed (g'.tags ++ around) repetitionCycle p (g'.current.getD []) log rest).result =
      (cells, log', rest')) :
    (readGroup unclaimed around g log bytes).result =
      (readGroup unclaimed around { g' with current := some cells } log' rest').result := by
  subst ht hg
  have howns : g.owns p.tag = true := by
    rw [← OpenGroup.contains_tags]
    exact List.contains_iff_mem.2 ho
  obtain ⟨rfl, rfl, rfl⟩ := Reading.result_eq_iff.1 hi
  rw [readGroup_owned h howns rfl]
  rfl

/-- A counter is stored, and the group that it opens is put in its place once it is over. -/
theorem result_readPair_group {cycle : UInt32} {faults : List Fault}
    (h : store cycle p cells = (cells', some g, faults))
    (hg : (readGroup unclaimed around g (log.add faults) bytes).result = (g', log', rest')) :
    (readPair unclaimed around cycle p cells log bytes).result =
      (put g'.toCell cells', log'.add g'.countFaults, rest') := by
  obtain ⟨rfl, rfl, rfl⟩ := Reading.result_eq_iff.1 hg
  rw [readPair_group h]
  rfl

end Open

end Decoder

/-! ## Reading back -/

namespace Encoder

/-- Whatever is written for the cell is read into a blank cell, up to what follows. -/
def Cell.ReadsBack (scope : List Tag) (c : Cell) : Prop :=
  ∀ (unclaimed : Unclaimed) (around : List Tag) (cycle : UInt32) (cells : List Decoder.Cell) (log : Log) (tail : Bytes),
    cycle ≠ 0 → c.isWritten = true → Decoder.find? cells c.tag = some (.blank c.member) →
      Follows unclaimed around scope tail →
        (readPair unclaimed around cycle (.written c.tag c.value) cells log (c.entries ++ tail)).result =
          (Decoder.put (c.decoded cycle) cells, log.add c.faults, tail)

/-- The cells are those of the members of an entry, of which the first one, the delimiter, is written. -/
structure IsEntry (slot : GroupSlot) (body : List Member) (cells : List Cell) : Prop where
  fit : cells.map Cell.member = body
  starts : ∃ first rest, cells = first :: rest ∧ first.tag = slot.delimiter ∧ first.isWritten = true

/-- What it takes to read back what is written for a cell. `scope` are the tags of everything around it. -/
inductive Cell.Readable : List Tag → Cell → Prop
  | field {scope : List Tag} {slot : FieldSlot} {value : Option Bytes} (h : Legible (.field slot value)) :
    Readable scope (.field slot value)
  | group {scope : List Tag} {slot : GroupSlot} {body : List Member} {live spare : List (List Cell)}
    (h : Legible (.group slot body live spare)) (count : live.length < Integer.limit)
    (apart : ∀ tag ∈ body.map Member.tag, tag ∉ scope) (nodup : (body.map Member.tag).Nodup)
    (entries : ∀ cells ∈ live, IsEntry slot body cells)
    (inner : ∀ cells ∈ live, ∀ c ∈ cells, Readable (body.map Member.tag ++ scope) c) :
    Readable scope (.group slot body live spare)

/-- Cells that can be read back begin with fields that can be. -/
theorem Cell.Readable.legible {scope : List Tag} {c : Cell} (h : c.Readable scope) : c.Legible := by
  cases h with
  | field h => exact h
  | group h => exact h

theorem IsEntry.mem_tags {slot : GroupSlot} {body : List Member} {cells : List Cell} (h : IsEntry slot body cells)
    {c : Cell} (hc : c ∈ cells) : c.tag ∈ body.map Member.tag := by
  rw [← h.fit, List.map_map]
  exact List.mem_map.2 ⟨c, hc, c.tag_member⟩

theorem map_tag_eq {cells : List Cell} {body : List Member} (h : cells.map Cell.member = body) :
    cells.map Cell.tag = body.map Member.tag := by
  rw [← h, List.map_map]
  exact List.map_congr_left fun c _ => c.tag_member.symm

section Groups

variable {unclaimed : Unclaimed} {around scope : List Tag} {tail : Bytes}

/-- One cell of a group, at a tag after which the group stands as `g'` does, in the repetition that the cells are of. -/
theorem readGroup_cell {g : OpenGroup} (g' : OpenGroup) {c : Cell} (done : List Decoder.Cell) {rest : List Cell}
    (log : Log) {after : Bytes} (hw : c.isWritten = true) (hlegible : c.Legible) (hmem : c.tag ∈ g.tags)
    (hreads : c.ReadsBack (g'.tags ++ scope)) (hnew : c.tag ∉ done.map Decoder.Cell.tag)
    (hadvance : g.advance c.tag = { g' with current := some (done ++ unread (c :: rest)) })
    (hfollows : Follows unclaimed (g'.tags ++ around) (g'.tags ++ scope) after) :
    (readGroup unclaimed around g log (c.written ++ after)).result =
      (readGroup unclaimed around { g' with current := some (done ++ c.decoded repetitionCycle :: unread rest) }
        (log.add c.faults) after).result := by
  have hinner := hreads unclaimed (g'.tags ++ around) repetitionCycle (done ++ unread (c :: rest)) log after
    (by decide) hw (find?_unread done hnew rest) hfollows
  rw [put_unread done hnew] at hinner
  rw [c.written_of_isWritten hw, List.append_assoc]
  exact (Decoder.result_readGroup_owned (Pair.read?_fieldBytes hlegible.value c.tag _)
    (Pair.tag_written hlegible.tag c.value) hadvance hmem hinner :)

/-- The cells of an entry after those that have been read. -/
theorem readGroup_cells {g : OpenGroup} (hd : g.delimited = true)
    (hfollows : Follows unclaimed (g.tags ++ around) (g.tags ++ scope) tail) : ∀ (cells : List Cell)
    (done : List Decoder.Cell) (log : Log),
    (∀ c ∈ cells, c.Legible ∧ c.tag ∈ g.tags ∧ c.tag ≠ g.slot.delimiter ∧ c.ReadsBack (g.tags ++ scope)) →
      (done.map Decoder.Cell.tag ++ cells.map Cell.tag).Nodup →
        (readGroup unclaimed around { g with current := some (done ++ unread cells) } log
          (written cells ++ tail)).result =
          (readGroup unclaimed around { g with current := some (done ++ decoded repetitionCycle cells) }
            (log.add (faults cells)) tail).result
  | [], done, log, _, _ => by
    rw [faults, Log.add_nil]
    rfl
  | c :: rest, done, log, hcells, hnodup => by
    rw [List.forall_mem_cons] at hcells
    obtain ⟨⟨hlegible, hmem, hnot, hreads⟩, hrest⟩ := hcells
    have hnodup' : ((done ++ [c.decoded repetitionCycle]).map Decoder.Cell.tag ++ rest.map Cell.tag).Nodup := by
      simpa using hnodup
    have ih := readGroup_cells hd hfollows rest _ (log.add c.faults) hrest hnodup'
    rw [List.append_assoc, List.append_assoc] at ih
    rw [faults, ← Log.add_add, written, List.append_assoc]
    refine Eq.trans ?_ ih
    cases hw : c.isWritten with
    | false =>
      rw [c.written_eq_nil hw, c.decoded_of_not hw, c.faults_of_not hw, Log.add_nil]
      rfl
    | true =>
      have hnext : Follows unclaimed (g.tags ++ around) (g.tags ++ scope) (written rest ++ tail) :=
        follows_written (fun c hc => ⟨(hrest c hc).1, List.mem_append_left _ (hrest c hc).2.1,
          List.mem_append_left _ (hrest c hc).2.1⟩) hfollows
      exact readGroup_cell g done log hw hlegible hmem hreads (notMem_of_nodup hnodup)
        (OpenGroup.advance_inside rfl hd hnot) hnext

/-- The entries of a group, up to what follows it. -/
theorem readGroup_entries (hfollows : Follows unclaimed around scope tail) : ∀ (entries : List (List Cell))
    (g : OpenGroup) (log : Log),
    (∀ tag ∈ g.tags, tag ∉ scope) → g.tags.Nodup → g.spare = [] → (g.current.isSome = true → g.delimited = true) →
      (∀ cells ∈ entries, IsEntry g.slot g.body cells) →
        (∀ cells ∈ entries, ∀ c ∈ cells, c.Legible ∧ c.ReadsBack (g.tags ++ scope)) →
          (readGroup unclaimed around g log (entriesWritten entries ++ tail)).result =
            (g.addEntries (decodedEntries entries), log.add (entriesFaults entries), tail)
  | [], g, log, hapart, _, _, _, _, _ => by
    rw [entriesFaults, Log.add_nil]
    exact readGroup_of_follows hfollows hapart
  | cells :: rest, g, log, hapart, hnodup, hspare, hcurrent, hentries, hcells => by
    rw [List.forall_mem_cons] at hentries hcells
    obtain ⟨hentry, hentries⟩ := hentries
    obtain ⟨hcells, hmore⟩ := hcells
    have ih := readGroup_entries hfollows rest (g.addEntry (decoded repetitionCycle cells))
      (log.add (faults cells)) hapart hnodup hspare (fun _ => rfl) hentries hmore
    have hfollows' : Follows unclaimed (g.tags ++ around) (g.tags ++ scope) (entriesWritten rest ++ tail) := by
      refine follows_entries (fun cells hin c hc => ?_) (hfollows.inside g.tags)
      have hmem : c.tag ∈ g.tags := (hentries cells hin).mem_tags hc
      exact ⟨(hmore cells hin c hc).1, List.mem_append_left _ hmem, List.mem_append_left _ hmem⟩
    have htags : cells.map Cell.tag = g.tags := map_tag_eq hentry.fit
    have hunread : g.body.map Decoder.Cell.blank = unread cells := by
      rw [← hentry.fit, List.map_map]
      rfl
    obtain ⟨first, others, rfl, hdelimiter, hw⟩ := hentry.starts
    rw [List.forall_mem_cons] at hcells
    obtain ⟨⟨hlegible, hreads⟩, hothers⟩ := hcells
    rw [← htags, List.map_cons, List.nodup_cons] at hnodup
    have hmem : ∀ c ∈ others, c.tag ∈ g.tags := fun c hc => htags ▸ List.mem_map_of_mem (List.mem_cons_of_mem _ hc)
    have hfirst : first.tag ∈ g.tags := htags ▸ List.mem_cons_self
    -- The first cell begins the entry, and the others are read inside it.
    have hadvance : g.advance first.tag = g.addEntry (unread (first :: others)) := by
      rw [hdelimiter, OpenGroup.advance_delimiter hcurrent hspare, hunread]
    have hnext : Follows unclaimed (g.tags ++ around) (g.tags ++ scope)
        (written others ++ (entriesWritten rest ++ tail)) :=
      follows_written (fun c hc => ⟨(hothers c hc).1, List.mem_append_left _ (hmem c hc),
        List.mem_append_left _ (hmem c hc)⟩) hfollows'
    have hbegun := readGroup_cell (g.addEntry []) [] log hw hlegible hfirst hreads List.not_mem_nil hadvance
      hnext
    have hothers' := readGroup_cells (g := g.addEntry []) rfl hfollows' others [first.decoded repetitionCycle]
      (log.add first.faults) ?_ ?_
    · rw [faults, ← Log.add_add] at ih
      rw [entriesWritten, entriesFaults, ← Log.add_add, written, faults, ← Log.add_add, List.append_assoc,
        List.append_assoc]
      exact hbegun.trans (hothers'.trans ih)
    · refine fun c hc => ⟨(hothers c hc).1, hmem c hc, fun ht => hnodup.1 ?_, (hothers c hc).2⟩
      rw [hdelimiter, ← show c.tag = g.slot.delimiter from ht]
      exact List.mem_map_of_mem hc
    · simpa using hnodup

end Groups

/-- A readable cell is read back. -/
theorem Cell.Readable.readsBack {scope : List Tag} {c : Cell} (h : c.Readable scope) : c.ReadsBack scope := by
  induction h with
  | @field scope slot value h =>
    intro unclaimed around cycle cells log tail hcycle hw hfind _
    have hdecoded : (Cell.field slot value).decoded cycle = .field slot (.ofBytes slot.kind (value.getD [])) cycle :=
      if_pos hw
    have hfaults : (Cell.field slot value).faults = Decoder.valueFaults slot (value.getD []) := if_pos hw
    rw [← Pair.tag_written h.tag (value.getD [])] at hfind
    have hstore : Decoder.store cycle (.written slot.tag (value.getD [])) cells =
        (Decoder.put (.field slot (.ofBytes slot.kind (value.getD [])) cycle) cells, none,
          Decoder.valueFaults slot (value.getD [])) := by
      refine (Decoder.store_of_find? hfind).trans ?_
      simp [Cell.member, Decoder.Cell.blank, Decoder.Cell.store, hcycle.symm, Pair.written]
    rw [hdecoded, hfaults]
    exact congrArg Reading.result (Decoder.readPair_field hstore)
  | @group scope slot body live spare h count apart nodup entries inner ih =>
    intro unclaimed around cycle cells log tail hcycle hw hfind hfollows
    have hdecoded : (Cell.group slot body live spare).decoded cycle =
        .group slot body ⟨true, cycle, some live.length⟩ (decodedEntries live) [] := if_pos hw
    have hfaults : (Cell.group slot body live spare).faults = entriesFaults live := if_pos hw
    have hcount := Decoder.declaredCount?_digits count
    rw [← Pair.tag_written h.tag (Natural.digits live.length)] at hfind
    -- The cell of the group is empty in the cells until the group is closed.
    have hstore : Decoder.store cycle (.written slot.tag (Natural.digits live.length)) cells =
        (Decoder.put (.group slot body ⟨true, cycle, some live.length⟩ [] []) cells,
          some (.ofCounter slot body ⟨true, cycle, some live.length⟩), []) := by
      refine (Decoder.store_of_find? hfind).trans ?_
      simp [OpenGroup.ofCounter, Cell.member, Decoder.Cell.blank, Decoder.Cell.store, hcycle.symm, Pair.written,
        Decoder.counterFaults, hcount]
    have hgroup := readGroup_entries hfollows live
      (.ofCounter slot body ⟨true, cycle, some live.length⟩) (log.add []) apart nodup rfl (fun hc => by cases hc)
      entries (fun cells hcells c hc => ⟨(inner cells hcells c hc).legible, ih cells hcells c hc⟩)
    have hpair := Decoder.result_readPair_group hstore hgroup
    rw [hdecoded, hfaults]
    refine hpair.trans ?_
    have hput (new c : Decoder.Cell) (ht : new.tag = c.tag) :
        Decoder.put new (Decoder.put c cells) = Decoder.put new cells := Decoder.put_put ht cells
    rw [OpenGroup.toCell_ofCounter, OpenGroup.countFaults_ofCounter, Log.add_nil, Log.add_nil, hput]
    · rfl
    · rw [decodedEntries_eq_map]
      exact congrArg some (List.length_map _).symm

end Encoder

end FixWire
