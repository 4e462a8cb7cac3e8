import FixWire.Proofs.Decoder.Fresh
import FixWire.Proofs.Dictionary.Fields
import FixWire.Proofs.Encoder.Use
import FixWire.Proofs.RoundTrip.Parts
import Mathlib.Data.List.Forall2

/-!
# Messages read back

What an encoder writes, a new decoder of the same message type reads back (`MessageEncoder.decode_encode`), under
three conditions : the tags of the parts differ, and inside a group there is no tag of anything around it; no value
has the byte that ends fields; and every entry of a group is written with its delimiter. The decoder then takes up
all bytes and carries what the encoder holds (`Encoder.Carries`).

Everything else that reading back takes (`Cell.Readable`) comes from the dictionary, which has been checked, or
from the size of the buffer.
-/

namespace FixWire

/-! ## Layouts -/

/-- The tags inside the groups of the member are not among those of what is around them. -/
inductive Member.Apart : List Tag → Member → Prop
  | field {scope : List Tag} {slot : FieldSlot} : Apart scope (.field slot)
  | group {scope : List Tag} {slot : GroupSlot} {body : List Member}
    (h : ∀ tag ∈ body.map Member.tag, tag ∉ scope) (inner : ∀ m ∈ body, Apart (body.map Member.tag ++ scope) m) :
    Apart scope (.group slot body)

namespace Member

variable {scope : List Tag} {slot : GroupSlot} {body : List Member}

@[simp] theorem apart_field (slot : FieldSlot) : Apart scope (.field slot) ↔ True :=
  iff_true_intro .field

@[simp] theorem apart_group : Apart scope (.group slot body) ↔
    (∀ tag ∈ body.map Member.tag, tag ∉ scope) ∧ ∀ m ∈ body, m.Apart (body.map Member.tag ++ scope) := by
  refine ⟨fun h => ?_, fun ⟨h, inner⟩ => .group h inner⟩
  cases h with
  | group h inner => exact ⟨h, inner⟩

end Member

namespace MessageLayout

/-- The tags of the members of one part. -/
def tags (l : MessageLayout) (part : Part) : List Tag :=
  (l.part part).members.map Member.tag

/-- No tag belongs to two parts, and none to a group and to something around it. -/
structure Apart (l : MessageLayout) : Prop where
  parts : ∀ part part', part ≠ part' → ∀ tag ∈ l.tags part, tag ∉ l.tags part'
  groups : ∀ part, ∀ m ∈ (l.part part).members, m.Apart (l.tags .header ++ l.tags .body ++ l.tags .trailer)

end MessageLayout

namespace Encoder

/-! ## Cells -/

/-- The property holds of the cell, and of all cells of entries inside it. -/
inductive Cell.Everywhere (P : Cell → Prop) : Cell → Prop
  | field {slot : FieldSlot} {value : Option Bytes} (h : P (.field slot value)) : Everywhere P (.field slot value)
  | group {slot : GroupSlot} {body : List Member} {live spare : List (List Cell)}
    (h : P (.group slot body live spare)) (inner : ∀ cells ∈ live, ∀ c ∈ cells, Everywhere P c) :
    Everywhere P (.group slot body live spare)

@[simp] theorem Cell.everywhere_field {P : Cell → Prop} {slot : FieldSlot} {value : Option Bytes} :
    Cell.Everywhere P (.field slot value) ↔ P (.field slot value) := by
  refine ⟨fun h => ?_, .field⟩
  cases h with
  | field h => exact h

@[simp] theorem Cell.everywhere_group {P : Cell → Prop} {slot : GroupSlot} {body : List Member}
    {live spare : List (List Cell)} : Cell.Everywhere P (.group slot body live spare) ↔
      P (.group slot body live spare) ∧ ∀ cells ∈ live, ∀ c ∈ cells, c.Everywhere P := by
  refine ⟨fun h => ?_, fun ⟨h, inner⟩ => .group h inner⟩
  cases h with
  | group h inner => exact ⟨h, inner⟩

/-- No value that is written has the byte that ends fields. -/
def Cell.Plain (c : Cell) : Prop :=
  soh ∉ c.value

/-- Every entry is written with its delimiter. -/
def Cell.Delimited : Cell → Prop
  | .field _ _ => True
  | .group slot _ live _ => ∀ cells ∈ live, ∃ c ∈ cells, c.tag = slot.delimiter ∧ c.isWritten = true

/-- The cell of a decoder carries what that of an encoder holds. A field is there if it is set or required, with
its bytes; a group is there if it has entries or is required, with their number, and its repetitions carry the
entries. -/
inductive Carries : Cell → Decoder.Cell → Prop
  | field {slot : FieldSlot} {value : Option Bytes} {value' : Decoder.Value} {stamp : UInt32}
    (present : value'.isPresent = (value.isSome || slot.required)) (raw : value'.raw = value.getD []) :
    Carries (.field slot value) (.field slot value' stamp)
  | group {slot : GroupSlot} {body : List Member} {live spare : List (List Cell)} {counter : Decoder.Counter}
    {live' spare' : List (List Decoder.Cell)} (present : counter.present = (!live.isEmpty || slot.required))
    (declared : counter.present = true → counter.declared = some live.length)
    (repetitions : List.Forall₂ (List.Forall₂ Carries) live live') :
    Carries (.group slot body live spare) (.group slot body counter live' spare')

mutual

/-- What is decoded from a cell carries the values of the cell. -/
theorem Cell.carries_decoded (cycle : UInt32) : ∀ c : Cell, Carries c (c.decoded cycle)
  | .field slot value => by
    rw [Cell.decoded]
    split_ifs with h
    · exact .field h.symm rfl
    · rw [Bool.not_eq_true] at h
      refine .field h.symm ?_
      cases value with
      | none => rfl
      | some value => cases h
  | .group slot body live spare => by
    rw [Cell.decoded]
    split_ifs with h
    · exact .group h.symm (fun _ => rfl) (carries_decodedEntries live)
    · rw [Bool.not_eq_true] at h
      refine .group h.symm nofun ?_
      cases live with
      | nil => exact .nil
      | cons cells rest => cases h

/-- What is read back of cells carries what they hold. -/
theorem carries_decoded (cycle : UInt32) : ∀ cells : List Cell, List.Forall₂ Carries cells (decoded cycle cells)
  | [] => .nil
  | c :: rest => .cons (c.carries_decoded cycle) (carries_decoded cycle rest)

/-- What is decoded from entries carries their values. -/
theorem carries_decodedEntries : ∀ entries : List (List Cell),
    List.Forall₂ (List.Forall₂ Carries) entries (decodedEntries entries)
  | [] => .nil
  | cells :: rest => .cons (carries_decoded _ cells) (carries_decodedEntries rest)

end

/-! ## Lengths -/

/-- A cell takes up a part of the bytes of its list. -/
theorem length_written_le {c : Cell} {cells : List Cell} (h : c ∈ cells) :
    c.written.length ≤ (written cells).length := by
  obtain ⟨before, after, rfl⟩ := List.append_of_mem h
  rw [written_append, written_cons, List.length_append, List.length_append]
  omega

/-- An entry takes up a part of the bytes of its group. -/
theorem length_entry_le : ∀ {entries : List (List Cell)} {cells : List Cell}, cells ∈ entries →
    (written cells).length ≤ (entriesWritten entries).length
  | _ :: rest, cells, h => by
    rw [entriesWritten, List.length_append]
    rcases List.mem_cons.1 h with rfl | h
    · omega
    · have := length_entry_le h
      omega

/-- A cell that is written takes up some bytes. -/
theorem Cell.length_pos_of_isWritten {c : Cell} (h : c.isWritten = true) : 0 < c.written.length := by
  rw [c.written_of_isWritten h, List.length_append, length_fieldBytes, fieldLength]
  omega

/-- A group has no more entries than bytes, if something is written for each of them. -/
theorem length_le_entriesWritten : ∀ {entries : List (List Cell)},
    (∀ cells ∈ entries, ∃ c ∈ cells, c.isWritten = true) → entries.length ≤ (entriesWritten entries).length
  | [], _ => Nat.zero_le _
  | cells :: rest, h => by
    rw [List.forall_mem_cons] at h
    obtain ⟨⟨c, hc, hw⟩, hrest⟩ := h
    have := length_le_entriesWritten hrest
    have := length_written_le hc
    have := c.length_pos_of_isWritten hw
    rw [entriesWritten, List.length_append, List.length_cons]
    omega

/-! ## Readable cells -/

/-- A cell has one member that it fits. -/
theorem Cell.Fits.member_eq {m : Member} {c : Cell} (h : c.Fits m) : c.member = m := by
  cases h <;> rfl

/-- Cells have the members that they fit. -/
theorem Fit.map_member {members : List Member} {cells : List Cell} (h : Fit members cells) :
    cells.map Cell.member = members := by
  induction h with
  | nil => rfl
  | cons hc _ ih => rw [List.map_cons, hc.member_eq, ih]

/-- A cell among those of some members is one of them. -/
theorem Fit.exists_member {members : List Member} {cells : List Cell} (h : Fit members cells) {c : Cell}
    (hc : c ∈ cells) : ∃ m ∈ members, c.Fits m := by
  induction h with
  | nil => simp at hc
  | cons hd _ ih =>
    rcases List.mem_cons.1 hc with rfl | hc
    · exact ⟨_, List.mem_cons_self, hd⟩
    · obtain ⟨m, hm, hfits⟩ := ih hc
      exact ⟨m, List.mem_cons_of_mem _ hm, hfits⟩

/-- The delimiter is the first cell of an entry. -/
theorem isEntry_of_fit {slot : GroupSlot} {body : List Member} {cells : List Cell} (hfit : Fit body cells)
    (hnodup : (body.map Member.tag).Nodup) (hhead : (body.map Member.tag).head? = some slot.delimiter)
    (hwritten : ∃ c ∈ cells, c.tag = slot.delimiter ∧ c.isWritten = true) : IsEntry slot body cells := by
  have htags := map_tag_eq hfit.map_member
  rw [← htags] at hnodup hhead
  obtain ⟨c, hc, ht, hw⟩ := hwritten
  cases cells with
  | nil => simp at hc
  | cons first rest =>
    rw [List.map_cons, List.head?_cons, Option.some.injEq] at hhead
    refine ⟨hfit.map_member, first, rest, rfl, hhead, ?_⟩
    rcases List.mem_cons.1 hc with rfl | hc
    · exact hw
    · rw [List.map_cons, List.nodup_cons] at hnodup
      exact absurd (List.mem_map.2 ⟨c, hc, ht.trans hhead.symm⟩) hnodup.1

/-- A cell of a sound layout whose groups are apart from what is around them is readable, if its values and its
entries are fit for writing and its bytes are few enough to be counted. -/
theorem readable_of_plain {c : Cell} (hplain : c.Everywhere Cell.Plain) : ∀ {m : Member} {scope : List Tag},
    c.Everywhere Cell.Delimited → c.Fits m → m.Sound → m.Apart scope → c.written.length < Integer.limit →
      c.Readable scope := by
  induction hplain with
  | field h =>
    intro m scope _ hfits hsound _ _
    cases hfits
    cases hsound with
    | field htag => exact .field ⟨htag, h⟩
  | @group slot body live spare h _ ih =>
    intro m scope hdelimited hfits hsound hapart hlength
    cases hfits with
    | group hfits =>
    cases hsound with
    | group htag hnodup hhead hsound =>
    cases hapart with
    | group hdisjoint hapart =>
    cases hdelimited with
    | group hdelimited hinner =>
    have hlive : ∀ cells ∈ live, Fit body cells := fun cells hcells => hfits cells (List.mem_append_left _ hcells)
    have hentries : live ≠ [] → (entriesWritten live).length < Integer.limit := fun hne => by
      have hw : (Cell.group slot body live spare).isWritten = true := by
        simp [Cell.isWritten, hne]
      rw [Cell.written_of_isWritten hw, List.length_append, Cell.entries] at hlength
      omega
    have hbytes : ∀ cells ∈ live, (written cells).length < Integer.limit := fun cells hcells =>
      Nat.lt_of_le_of_lt (length_entry_le hcells) (hentries (List.ne_nil_of_mem hcells))
    refine .group ⟨htag, soh_notMem_digits _⟩ ?_ hdisjoint hnodup
      (fun cells hcells => isEntry_of_fit (hlive cells hcells) hnodup hhead (hdelimited cells hcells)) ?_
    · by_cases hne : live = []
      · rw [hne]
        exact Nat.pos_of_ne_zero (by decide)
      · exact Nat.lt_of_le_of_lt (length_le_entriesWritten fun cells hcells =>
          (hdelimited cells hcells).imp fun c hc => ⟨hc.1, hc.2.2⟩) (hentries hne)
    · intro cells hcells c hc
      obtain ⟨m, hm, hc'⟩ := (hlive cells hcells).exists_member hc
      exact ih cells hcells c hc (hinner cells hcells c hc) hc' (hsound m hm) (hapart m hm)
        (Nat.lt_of_le_of_lt (length_written_le hc) (hbytes cells hcells))

/-- Setting a field leaves the other cells as they are. -/
theorem mem_setFirst {p : Cell → Bool} {value : Bytes} {c : Cell} : ∀ {cells : List Cell},
    c ∈ setFirst p value cells → c ∈ cells ∨ ∃ slot, c = .field slot (some value)
  | [], h => .inl h
  | .group slot body live spare :: rest, h => by
    rcases List.mem_cons.1 h with rfl | h
    · exact .inl List.mem_cons_self
    · exact (mem_setFirst h).imp_left (List.mem_cons_of_mem _)
  | .field slot old :: rest, h => by
    rw [setFirst] at h
    split_ifs at h
    · rcases List.mem_cons.1 h with rfl | h
      · exact .inr ⟨slot, rfl⟩
      · exact .inl (List.mem_cons_of_mem _ h)
    · rcases List.mem_cons.1 h with rfl | h
      · exact .inl List.mem_cons_self
      · exact (mem_setFirst h).imp_left (List.mem_cons_of_mem _)

end Encoder

/-! ## Messages -/

namespace MessageEncoder

open Encoder

/-- The property holds of all cells of the encoder, those of entries included. -/
def Everywhere (P : Cell → Prop) (e : MessageEncoder) : Prop :=
  ∀ part, ∀ c ∈ e.part part, c.Everywhere P

variable {e e₀ : MessageEncoder} {l : MessageLayout}

/-- What holds of all cells and of the computed fields also holds after they have been computed. -/
theorem Everywhere.computed {P : Cell → Prop} (h : e.Everywhere P)
    (hlength : ∀ slot, P (.field slot (some (Natural.digits e.bodyLength))))
    (hsum : ∀ slot, P (.field slot (some (checksumText (checksum e.summed))))) : e.computed.Everywhere P := by
  intro part c hc
  cases part with
  | header =>
    rcases mem_setFirst hc with hc | ⟨slot, rfl⟩
    · exact h .header c hc
    · exact .field (hlength slot)
  | body => exact h .body c hc
  | trailer =>
    rcases mem_setFirst hc with hc | ⟨slot, rfl⟩
    · exact h .trailer c hc
    · exact .field (hsum slot)

/-- The parts of a new decoder can take what an encoder with the cells of the same layout writes. -/
theorem suitable {ps : Decoder.Parts} (hsound : l.Sound) (hapart : l.Apart)
    (hfit : ∀ part, Fit (l.part part).members (e.part part)) (hplain : e.Everywhere Cell.Plain)
    (hdelimited : e.Everywhere Cell.Delimited) (hlength : ∀ part, (written (e.part part)).length < Integer.limit)
    (hcells : ∀ part, (ps.get part).cells = (l.part part).members.map .blank)
    (hstamp : ∀ part, (ps.get part).stamp ≠ 0) : e.Suitable ps := by
  have htags : ∀ part, (ps.get part).tags = l.tags part := fun part => by
    rw [Decoder.Aggregate.tags, hcells, List.map_map]
    refine List.map_congr_left fun m _ => ?_
    cases m <;> rfl
  have hscope : ps.tags = l.tags .header ++ l.tags .body ++ l.tags .trailer := by
    rw [Decoder.Parts.tags, ← htags, ← htags, ← htags]
    rfl
  have hmem : ∀ part, ∀ c ∈ e.part part, c.tag ∈ l.tags part := fun part c hc => by
    rw [MessageLayout.tags, ← map_tag_eq (hfit part).map_member]
    exact List.mem_map_of_mem hc
  refine ⟨fun part => ?_, hstamp, fun part => ?_, fun part c hc => ?_, fun part c hc => ?_⟩
  · rw [hcells, ← (hfit part).map_member, unread, List.map_map]
    rfl
  · rw [map_tag_eq (hfit part).map_member]
    exact hsound.nodup part
  · refine Decoder.Parts.owner?_of_owns ?_ fun part' hp => ?_
    · rw [Decoder.Aggregate.owns_eq, htags]
      exact List.contains_iff_mem.2 (hmem part c hc)
    · rw [Decoder.Aggregate.owns_eq, htags, List.contains_eq_mem, decide_eq_false_iff_not]
      exact hapart.parts part part' hp.symm c.tag (hmem part c hc)
  · obtain ⟨m, hm, hc'⟩ := (hfit part).exists_member hc
    rw [hscope]
    exact readable_of_plain (hplain part c hc) (hdelimited part c hc) hc' (hsound.members part m hm)
      (hapart.groups part m hm) (Nat.lt_of_le_of_lt (length_written_le hc) (hlength part))

/-- A part takes up a part of the bytes of the message. -/
theorem length_part_le (e : MessageEncoder) (part : Part) :
    (written (e.computed.part part)).length ≤ e.wire.length := by
  rw [wire, List.length_append, List.length_append]
  cases part <;> (dsimp only [MessageEncoder.part]; omega)

/-- What is written for the parts, and nothing else, is decoded as a whole. -/
theorem Suitable.decode_eq {d : MessageDecoder} (h : e.Suitable d.parts.nextCycle) {window : Bytes}
    (hw : window = written e.header ++ written e.body ++ written e.trailer) :
    d.decode window = ({ d with
      parts := e.readInto d.parts.nextCycle
      log := ((Decoder.Log.empty d.log.enabled).seeAll e.tagsWritten).add e.faults }, window.length) := by
  have hend : Follows (.skip d.legal) d.parts.nextCycle.tags d.parts.nextCycle.tags [] := follows_nil
  have hread := h.readParts_written (.empty d.log.enabled) hend
  rw [List.append_nil, ← List.append_assoc, ← hw, Decoder.readParts_none Pair.read?_nil] at hread
  simp only [Decoder.Reading.result, Decoder.Reading.done, Prod.mk.injEq] at hread
  obtain ⟨hvalue, hlog, hrest⟩ := hread
  rw [MessageDecoder.decode, hvalue, hlog, hrest]
  rfl

/-- A message that suits its decoder is taken in as a whole, and each part holds what was written for it. -/
theorem Suitable.decode {d : MessageDecoder} (h : e.Suitable d.parts.nextCycle) {window : Bytes}
    (hw : window = written e.header ++ written e.body ++ written e.trailer) :
    (d.decode window).2 = window.length ∧
      ∀ part, ((d.decode window).1.part part).cells = decoded (d.parts.nextCycle.get part).stamp (e.part part) := by
  rw [h.decode_eq hw]
  refine ⟨rfl, fun part => ?_⟩
  cases part <;> rfl

/-- A new decoder of the message type reads back what an encoder writes. The encoder has been used in any way, and
the buffer has room for the message where it is written and is no larger than buffers are. Then the decoder takes
up all bytes that were written, and each part of it carries what the encoder holds afterwards, which is what it held
before with the computed fields set. -/
theorem decode_encode {text type : String} {validating : Bool} {c : Codecs} {d : MessageDecoder} {buffer : Bytes}
    {offset : Nat} (hc : Codecs.ofDocument text validating = .ok c) (he₀ : c.encoder type = .ok e₀)
    (hd : c.decoder type = .ok d) (hapart : e₀.layout.Apart) (hused : Used e₀ e) (hplain : e.Everywhere Cell.Plain)
    (hdelimited : e.Everywhere Cell.Delimited) (hroom : e.encodedLength ≤ buffer.length - offset)
    (hsize : buffer.length < Integer.limit) :
    ∃ n buffer', e.encode buffer offset = (.ok n, e.computed, buffer') ∧
      (d.decode (buffer'.window offset n)).2 = n ∧
      ∀ part, List.Forall₂ Carries (e.computed.part part) ((d.decode (buffer'.window offset n)).1.part part).cells := by
  obtain ⟨l, hl, rfl⟩ : ∃ l, c.require (Bytes.ofString type) = .ok l ∧ make l c.dictionary.beginString = e₀ := by
    rw [Codecs.encoder] at he₀
    cases hr : c.require (Bytes.ofString type) with
    | error cause => simp [hr, Except.map] at he₀
    | ok l => exact ⟨l, rfl, by simpa [hr, Except.map] using he₀⟩
  obtain rfl : c.newDecoder l = d := by
    rw [Codecs.decoder, hl] at hd
    exact Except.ok.inj hd
  have hsuits := (hused.suits (suits_make l c.dictionary.beginString)).computed
  have hlength : e.wire.length < Integer.limit := by
    rw [length_wire]
    omega
  have hsuitable : e.computed.Suitable (c.newDecoder l).parts.nextCycle := by
    refine suitable (Codecs.sound_of_require hc hl) hapart hsuits.fit
      (hplain.computed (fun _ => soh_notMem_digits _) fun _ => soh_notMem_checksumText _)
      (hdelimited.computed (fun _ => trivial) fun _ => trivial) (fun part => ?_) (fun part => ?_) fun part => ?_
    · exact Nat.lt_of_le_of_lt (e.length_part_le part) hlength
    · cases part <;> rfl
    · cases part <;> exact (by decide : (1 : UInt32) ≠ 0)
  have hwindow : (buffer.overwrite offset e.wire).window offset e.encodedLength = e.wire := by
    rw [← length_wire] at hroom ⊢
    exact Bytes.window_overwrite hroom
  have hwire : e.wire = written e.computed.header ++ written e.computed.body ++ written e.computed.trailer := rfl
  obtain ⟨hconsumed, hcells⟩ := hsuitable.decode hwire
  refine ⟨e.encodedLength, buffer.overwrite offset e.wire, encode_of_room hroom, ?_, fun part => ?_⟩
  · rw [hwindow, hconsumed, length_wire]
  · rw [hwindow, hcells]
    exact carries_decoded _ _

/-- No tag of the sample stands in two places. -/
theorem apart_layout : Sample.layout.Apart := by
  rw [Sample.layout_eq]
  refine ⟨fun part part' hne => ?_, fun part => ?_⟩
  · cases part <;> cases part' <;> first | exact absurd rfl hne | decide
  · cases part <;>
      simp only [MessageLayout.part, Sample.leg, Sample.altID, List.forall_mem_cons, Member.apart_group,
        Member.apart_field, List.not_mem_nil, false_implies, implies_true, and_true, true_and]
    decide

/-- A quote with two legs, one of which has another name. -/
def quote : MessageEncoder where
  layout := Sample.layout
  beginString := "FIX.4.4"
  header := [.field ⟨Sample.field 8 "BeginString", true⟩ (some (Bytes.ofString "FIX.4.4")),
    .field ⟨Sample.length, true⟩ none, .field ⟨Sample.field 35 "MsgType", true⟩ (some (Bytes.ofString "S"))]
  body := [.group Sample.legs Sample.leg
      [[.field ⟨Sample.field 600 "LegSymbol", false⟩ (some (Bytes.ofString "A")),
        .field ⟨Sample.field 602 "LegSecurityID", true⟩ none,
        .group Sample.altIDs Sample.altID
          [[.field ⟨Sample.field 605 "LegAltID", false⟩ (some (Bytes.ofString "X"))]] []],
      [.field ⟨Sample.field 600 "LegSymbol", false⟩ (some (Bytes.ofString "B")),
        .field ⟨Sample.field 602 "LegSecurityID", true⟩ none, .group Sample.altIDs Sample.altID [] []]] [],
    .field ⟨Sample.field 55 "Symbol", true⟩ (some (Bytes.ofString "E"))]
  trailer := [.field ⟨Sample.field 10 "CheckSum", true⟩ none]

/-- The sample encoder is one in use. -/
theorem used_quote : Used (make Sample.layout "FIX.4.4") quote := by
  have h₀ : Used (make Sample.layout "FIX.4.4") (make Sample.layout "FIX.4.4") := .new
  have h₁ := h₀.change .body [] (.nextEntry 555) rfl rfl
  have h₂ := h₁.change .body [] (.nextEntry 555) rfl rfl
  have h₃ := h₂.change .body [(555, 0)] (.text 600 "A") rfl rfl
  have h₄ := h₃.change .body [(555, 0)] (.nextEntry 604) rfl rfl
  have h₅ := h₄.change .body [(555, 0), (604, 0)] (.text 605 "X") rfl rfl
  have h₆ := h₅.change .body [(555, 1)] (.text 600 "B") rfl rfl
  exact h₆.change .body [] (.text 55 "E") rfl rfl

/-- The values of the sample are plain. -/
theorem plain_quote : quote.Everywhere Cell.Plain := by
  intro part
  cases part <;>
    simp only [MessageEncoder.part, quote, List.forall_mem_cons, Cell.everywhere_field, Cell.everywhere_group,
      Cell.Plain, List.not_mem_nil, false_implies, implies_true, and_true] <;>
    decide +kernel

/-- The entries of the sample begin with their delimiters. -/
theorem delimited_quote : quote.Everywhere Cell.Delimited := by
  intro part
  cases part <;>
    simp only [MessageEncoder.part, quote, List.forall_mem_cons, Cell.everywhere_field, Cell.everywhere_group,
      Cell.Delimited, List.not_mem_nil, false_implies, implies_true, and_true, true_and]
  exact ⟨⟨⟨_, List.mem_cons_self, rfl, rfl⟩, _, List.mem_cons_self, rfl, rfl⟩, _, List.mem_cons_self, rfl, rfl⟩

/-- The quote, written at an offset and read back. -/
theorem decode_encode_quote :
    let d := Sample.codecs.newDecoder Sample.layout
    Codecs.ofDocument Sample.document true = .ok Sample.codecs ∧ Used (make Sample.layout "FIX.4.4") quote ∧
      ∃ n buffer', quote.encode (List.replicate 100 0) 7 = (.ok n, quote.computed, buffer') ∧
        (d.decode (buffer'.window 7 n)).2 = n ∧
        ∀ part, List.Forall₂ Carries (quote.computed.part part)
          ((d.decode (buffer'.window 7 n)).1.part part).cells := by
  intro d
  have hversion : Sample.codecs.dictionary.beginString = "FIX.4.4" := by decide +kernel
  have hencoder : Sample.codecs.encoder "S" = .ok (make Sample.layout "FIX.4.4") := by
    rw [Codecs.encoder, Sample.require_layout, ← hversion]
    rfl
  have hdecoder : Sample.codecs.decoder "S" = .ok d := by
    rw [Codecs.decoder, Sample.require_layout]
    rfl
  refine ⟨Sample.ofDocument_document, used_quote, ?_⟩
  exact decode_encode Sample.ofDocument_document hencoder hdecoder apart_layout used_quote plain_quote delimited_quote
    (by decide +kernel) (by decide)

end MessageEncoder

end FixWire
