import FixWire.Proofs.Decoder.Judging
import FixWire.Proofs.RoundTrip.Stream

/-!
# Messages read part by part

A message can be decoded as a whole or part by part, with a decoder for the header, one for the body and one for the
trailer, each of which goes on where the one before it has stopped. The two ways differ in how a group inside the parts
comes to its end. In a message it ends at a tag of anything around it, and unknown tags are left out. On its own, an
aggregate ends at the first tag that it does not have, and so does every group inside.

For what an encoder has written this makes no difference (`MessageEncoder.decode_parts`). What is written for a cell is
read into the cells of a decoder in one way only (`Encoder.Cell.takenIn`), whether a group stops at what follows because
that belongs to something around it or because it belongs to nothing in it.
-/

namespace FixWire

open Decoder (Log Reading readPair readAggregate)

namespace Decoder

variable {cycle : UInt32} {cells cells' : List Cell} {log log' : Log} {bytes rest rest' : Bytes} {p : Pair} {tag : Tag}

/-- One pair of an aggregate on its own. -/
theorem result_readAggregate_owned (h : Pair.read? bytes = some (p, rest)) (ht : p.tag = tag)
    (ho : (find? cells tag).isSome)
    (hi : (readPair .stop (cells.map Cell.tag) cycle p cells log rest).result = (cells', log', rest')) :
    (readAggregate cycle cells log bytes).result = (readAggregate cycle cells' log' rest').result := by
  subst ht
  obtain ⟨rfl, rfl, rfl⟩ := Reading.result_eq_iff.1 hi
  rw [readAggregate_owned h ho rfl]
  rfl

/-- An aggregate on its own is over where a tag follows that it does not have. -/
theorem result_readAggregate_stop (h : ∀ p rest, Pair.read? bytes = some (p, rest) → (find? cells p.tag).isSome = false) :
    (readAggregate cycle cells log bytes).result = (cells, log, bytes) :=
  congrArg Reading.result (readAggregate_over fun p rest hp => Bool.eq_false_iff.1 (h p rest hp))

end Decoder

/-- Where the reading stops at whatever it does not have, it does not matter what is around. -/
theorem Follows.around {around scope : List Tag} {tail : Bytes} (h : Follows .stop around scope tail)
    (around' : List Tag) : Follows .stop around' scope tail :=
  fun p rest hp => ⟨(h p rest hp).1, .inr rfl⟩

/-- What begins with a tag of other parts does not begin with one of the part. -/
theorem MessageLayout.Apart.tag_of_follows {l : MessageLayout} (hapart : l.Apart) (part : Part) {tags : List Tag}
    {tail : Bytes} (h : Follows .stop tags tags tail) (hothers : ∀ tag ∈ tags, ∃ part', part' ≠ part ∧ tag ∈ l.tags part') :
    ∀ p rest, Pair.read? tail = some (p, rest) → p.tag ∈ l.allMemberTags ∧ p.tag ∉ l.tags part := by
  intro p rest hp
  obtain ⟨part', hne, htag⟩ := hothers p.tag (h p rest hp).1
  exact ⟨mem_allMemberTags htag, hapart.parts part' part hne p.tag htag⟩

namespace Encoder

variable {l : MessageLayout} {part : Part}

/-! ## One part -/

/-- One cell of a part that is read on its own. -/
theorem readAggregate_alone_cell (cycle : UInt32) {c : Cell} {held : List Decoder.Cell} (log : Log)
    (hfit : Decoder.Fit (l.part part).members held) (hlegible : c.Legible)
    (hmem : memberOf? (l.part part).members c.tag = some c.member) (hreads : c.ReadsAlone l.allMemberTags) :
    ∃ log', ∀ after, Follows .stop l.allMemberTags l.allMemberTags after →
      (readAggregate cycle held log (c.written ++ after)).result =
        (readAggregate cycle (c.takenIn cycle held) log' after).result := by
  cases hw : c.isWritten with
  | false =>
    refine ⟨log, fun after _ => ?_⟩
    rw [c.written_eq_nil hw, Cell.takenIn, hw, if_neg (by decide)]
    rfl
  | true =>
    obtain ⟨-, hread⟩ := hreads.takenIn hw cycle hfit hmem
    obtain ⟨log', hread⟩ := hread .stop (held.map Decoder.Cell.tag) log
    refine ⟨log', fun after hfollows => ?_⟩
    have howns : (Decoder.find? held c.tag).isSome := by
      obtain ⟨c', hfind, -⟩ := hfit.find?_some hmem
      rw [hfind]
      rfl
    rw [c.written_of_isWritten hw, List.append_assoc]
    exact Decoder.result_readAggregate_owned (Pair.read?_fieldBytes hlegible.value c.tag _)
      (Pair.tag_written hlegible.tag c.value) howns (hread after (hfollows.around _))

/-- The cells of a part that is read on its own. -/
theorem readAggregate_alone (cycle : UInt32) : ∀ (cells : List Cell) {held : List Decoder.Cell} (log : Log),
    PartReadsAlone l part cells → Decoder.Fit (l.part part).members held →
      ∃ log', ∀ after, Follows .stop l.allMemberTags l.allMemberTags after →
        (readAggregate cycle held log (written cells ++ after)).result =
          (readAggregate cycle (takenIn cycle held cells) log' after).result
  | [], _, log, _, _ => ⟨log, fun _ _ => rfl⟩
  | c :: rest, held, log, hcells, hfit => by
    have hrest : PartReadsAlone l part rest := fun c hc => hcells c (List.mem_cons_of_mem _ hc)
    obtain ⟨hlegible, hmem, hreads⟩ := hcells c List.mem_cons_self
    obtain ⟨log₁, hread₁⟩ := readAggregate_alone_cell cycle log hfit hlegible hmem hreads
    obtain ⟨log₂, hread₂⟩ := readAggregate_alone cycle rest log₁ hrest (hreads.fit_takenIn cycle hfit hmem)
    refine ⟨log₂, fun after hfollows => ?_⟩
    have hfollows' := hrest.follows (fun _ => MessageLayout.mem_allMemberTags) hfollows
    rw [written, List.append_assoc, hread₁ _ hfollows', hread₂ after hfollows]
    rfl

/-- A decoder of a part on its own takes up what is written for the part. What follows begins with a tag of another
part, if it begins with any. -/
theorem decode_alone {cells : List Cell} (d : AggregateDecoder) (after : Bytes) (hcells : PartReadsAlone l part cells)
    (hfit : Decoder.Fit (l.part part).members d.root.cells)
    (hafter : ∀ p rest, Pair.read? after = some (p, rest) → p.tag ∈ l.allMemberTags ∧ p.tag ∉ l.tags part) :
    (d.decode (written cells ++ after)).2 = (written cells).length ∧
      (d.decode (written cells ++ after)).1.root =
        { d.root.nextCycle with cells := takenIn d.root.nextCycle.stamp d.root.cells cells } := by
  have hstop : ∀ p rest, Pair.read? after = some (p, rest) →
      (Decoder.find? (takenIn d.root.nextCycle.stamp d.root.cells cells) p.tag).isSome = false := by
    intro p rest hp
    rw [← (hcells.fit_takenIn _ hfit).owns_eq, Bool.eq_false_iff, owns, ne_eq, List.any_eq_true]
    rintro ⟨m, hm, htag⟩
    exact (hafter p rest hp).2 (List.mem_map.2 ⟨m, hm, beq_iff_eq.1 htag⟩)
  obtain ⟨log', hread⟩ := readAggregate_alone d.root.nextCycle.stamp cells (.empty d.log.enabled) hcells hfit
  have hresult := (hread after fun p rest hp => ⟨(hafter p rest hp).1, .inr rfl⟩).trans
    (Decoder.result_readAggregate_stop hstop)
  obtain ⟨hvalue, -, hrest⟩ := Reading.result_eq_iff.1 hresult
  have hroot : d.root.nextCycle.cells = d.root.cells := rfl
  rw [AggregateDecoder.decode]
  dsimp only
  rw [hroot, hvalue, hrest, List.length_append, Nat.add_sub_cancel]
  exact ⟨rfl, rfl⟩

end Encoder

/-! ## All parts -/

namespace MessageEncoder

open Encoder

variable {e e₀ : MessageEncoder} {l : MessageLayout}

/-- The decoder of a message holds what is written for the parts. -/
theorem decode_alone (d : MessageDecoder) (hapart : l.Apart) (halone : ∀ part, PartReadsAlone l part (e.part part))
    (hfit : d.parts.Fit l) :
    let m := written e.header ++ (written e.body ++ written e.trailer)
    (d.decode m).2 = m.length ∧ (d.decode m).1.parts = e.takenIn d.parts.nextCycle := by
  intro m
  obtain ⟨log', hread⟩ := readParts_all_alone d.legal (.empty d.log.enabled) hapart halone hfit.nextCycle
  have hresult := hread [] follows_nil
  rw [List.append_nil, Decoder.readParts_none Pair.read?_nil] at hresult
  obtain ⟨hvalue, -, hrest⟩ := Reading.result_eq_iff.1 hresult
  rw [MessageDecoder.decode]
  dsimp only
  rw [hvalue, hrest]
  exact ⟨Nat.sub_zero _, rfl⟩

/-- What is written for the parts, decoded part by part and as a whole. -/
theorem decode_parts_alone (hapart : l.Apart) (halone : ∀ part, PartReadsAlone l part (e.part part)) (capacity : Nat)
    (legal order : List Tag) (validating judging : Bool) :
    let m := written e.header ++ (written e.body ++ written e.trailer)
    let whole := (MessageDecoder.stocked capacity l legal order validating).decode m
    let header := (AggregateDecoder.stocked capacity l.header judging).decode m
    let body := (AggregateDecoder.stocked capacity l.body judging).decode (m.drop header.2)
    let trailer := (AggregateDecoder.stocked capacity l.trailer judging).decode (m.drop (header.2 + body.2))
    whole.2 = m.length ∧ header.2 + body.2 + trailer.2 = m.length ∧ header.1.root = whole.1.part .header ∧
      body.1.root = whole.1.part .body ∧ trailer.1.root = whole.1.part .trailer := by
  have headerAlone : PartReadsAlone l .header e.header := halone .header
  have bodyAlone : PartReadsAlone l .body e.body := halone .body
  have trailerAlone : PartReadsAlone l .trailer e.trailer := halone .trailer
  -- What follows a part begins with a tag of a later one.
  have htrailer : Follows .stop (l.tags .trailer) (l.tags .trailer) (written e.trailer ++ []) :=
    trailerAlone.follows (fun _ => id) follows_nil
  have hbody : Follows .stop (l.tags .body ++ l.tags .trailer) (l.tags .body ++ l.tags .trailer)
      (written e.body ++ (written e.trailer ++ [])) :=
    bodyAlone.follows (fun _ => List.mem_append_left _)
      (trailerAlone.follows (fun _ => List.mem_append_right _) follows_nil)
  have hafterHeader := hapart.tag_of_follows .header hbody fun tag htag => by
    rcases List.mem_append.1 htag with htag | htag
    · exact ⟨.body, nofun, htag⟩
    · exact ⟨.trailer, nofun, htag⟩
  have hafterBody := hapart.tag_of_follows .body htrailer fun tag htag => ⟨.trailer, nofun, htag⟩
  obtain ⟨hwhole, hparts⟩ := decode_alone (.stocked capacity l legal order validating) hapart halone
    (MessageDecoder.fit_stocked capacity l legal order validating)
  obtain ⟨hheader, hheaderRoot⟩ := Encoder.decode_alone (.stocked capacity l.header judging) _ headerAlone
    (Decoder.fit_stock capacity _) hafterHeader
  obtain ⟨hbody, hbodyRoot⟩ := Encoder.decode_alone (.stocked capacity l.body judging) _ bodyAlone
    (Decoder.fit_stock capacity _) hafterBody
  obtain ⟨htrailer, htrailerRoot⟩ := Encoder.decode_alone (.stocked capacity l.trailer judging) [] trailerAlone
    (Decoder.fit_stock capacity _) nofun
  rw [List.append_nil] at hheader hheaderRoot hbody hbodyRoot htrailer htrailerRoot
  have hpart (part : Part) := (congrArg (Decoder.Parts.get · part) hparts).trans (get_takenIn ..)
  dsimp only
  rw [hheader, List.drop_left, hbody, ← List.drop_drop, List.drop_left, List.drop_left, htrailer, hheaderRoot, hbodyRoot,
    htrailerRoot]
  refine ⟨hwhole, ?_, (hpart .header).symm, (hpart .body).symm, (hpart .trailer).symm⟩
  rw [List.length_append, List.length_append, Nat.add_assoc]

/-- A message that has been written stands in the buffer. -/
theorem window_of_encode {buffer buffer' : Bytes} {offset n : Nat} {e' : MessageEncoder}
    (h : e.encode buffer offset = (.ok n, e', buffer')) : buffer'.window offset n = e.wire := by
  have hroom : e.encodedLength ≤ buffer.length - offset := by
    by_contra hroom
    rw [encode_of_no_room (Nat.lt_of_not_le hroom)] at h
    cases (Prod.mk.inj h).1
  rw [encode_of_room hroom] at h
  obtain ⟨hn, hrest⟩ := Prod.mk.inj h
  obtain ⟨-, rfl⟩ := Prod.mk.inj hrest
  obtain rfl := Except.ok.inj hn
  rw [← length_wire] at hroom ⊢
  exact Bytes.window_overwrite hroom

/-- Decoding a message part by part comes to the same as decoding it as a whole. The message has been written by an
encoder that has been used in any way; no value has the byte that ends fields, and the tags of the layout are apart.
Then new decoders for the header, the body and the trailer, each of which starts where the one before it has stopped,
take up all of the message between them, and hold exactly what the parts of a new decoder for the message hold. -/
theorem decode_parts {text type : String} {validating : Bool} {c : Codecs} {buffer buffer' : Bytes} {offset n : Nat}
    {e' : MessageEncoder} (hc : Codecs.ofDocument text validating = .ok c) (he₀ : c.encoder type = .ok e₀)
    (hapart : e₀.layout.Apart) (hused : Used e₀ e) (hplain : e.Everywhere Cell.Plain)
    (hencode : e.encode buffer offset = (.ok n, e', buffer')) (capacity : Nat) (judging : Bool) :
    let m := buffer'.window offset n
    let whole := (c.stockedDecoder capacity e₀.layout).decode m
    let header := (AggregateDecoder.stocked capacity e₀.layout.header judging).decode m
    let body := (AggregateDecoder.stocked capacity e₀.layout.body judging).decode (m.drop header.2)
    let trailer := (AggregateDecoder.stocked capacity e₀.layout.trailer judging).decode (m.drop (header.2 + body.2))
    whole.2 = m.length ∧ header.2 + body.2 + trailer.2 = m.length ∧ header.1.root = whole.1.part .header ∧
      body.1.root = whole.1.part .body ∧ trailer.1.root = whole.1.part .trailer := by
  obtain ⟨l, hl, rfl⟩ := Codecs.encoder_eq_ok_iff.1 he₀
  have hsuits := hused.suits (suits_make l c.dictionary.beginString)
  have halone := partReadsAlone (Codecs.sound_of_require hc hl) hapart hsuits.computed.fit
    (hplain.computed (fun _ => soh_notMem_digits _) fun _ => soh_notMem_checksumText _)
  have hwire : e.wire = written e.computed.header ++ (written e.computed.body ++ written e.computed.trailer) :=
    List.append_assoc ..
  rw [window_of_encode hencode, hwire]
  exact decode_parts_alone hapart halone capacity _ _ _ judging

/-- A quote with two legs, read by decoders with one spare repetition for each group. Those for its parts do not
judge. -/
theorem decode_parts_quote :
    Codecs.ofDocument Sample.document true = .ok Sample.codecs ∧ Used (make Sample.layout "FIX.4.4") quote ∧
      ∃ buffer', quote.encode (List.replicate 100 0) 7 = (.ok 72, quote.computed, buffer') ∧
        let m := buffer'.window 7 72
        let whole := (Sample.codecs.stockedDecoder 1 Sample.layout).decode m
        let header := (AggregateDecoder.stocked 1 Sample.layout.header false).decode m
        let body := (AggregateDecoder.stocked 1 Sample.layout.body false).decode (m.drop header.2)
        let trailer := (AggregateDecoder.stocked 1 Sample.layout.trailer false).decode (m.drop (header.2 + body.2))
        whole.2 = m.length ∧ header.2 + body.2 + trailer.2 = m.length ∧ header.1.root = whole.1.part .header ∧
          body.1.root = whole.1.part .body ∧ trailer.1.root = whole.1.part .trailer := by
  have hversion : Sample.codecs.dictionary.beginString = "FIX.4.4" := by decide +kernel
  have hencoder : Sample.codecs.encoder "S" = .ok (make Sample.layout "FIX.4.4") :=
    Codecs.encoder_eq_ok_iff.2 ⟨Sample.layout, Sample.require_layout, hversion ▸ rfl⟩
  have hencode : quote.encode (List.replicate 100 0) 7 = _ := encode_of_room (by decide +kernel)
  have hlength : quote.encodedLength = 72 := by decide +kernel
  rw [hlength] at hencode
  exact ⟨Sample.ofDocument_document, used_quote, _, hencode,
    decode_parts Sample.ofDocument_document hencoder apart_layout used_quote plain_quote hencode 1 false⟩

end MessageEncoder

end FixWire
