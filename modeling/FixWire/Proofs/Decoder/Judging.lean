import FixWire.Proofs.Decoder.Reset

/-!
# Decoders that do not judge

Codecs may be made without the judging of messages. Their decoders log no faults, and find every message valid. This
is the only difference : whatever is asked of such a decoder, it responds as one that judges, but for verdicts
(`Codecs.responses_unjudged`).

The reason is that the log is only ever written. What is read from some bytes, and what is left of them, is the same
with every log (`GroupReads.with_log`, `PartsReads.with_log`, `AggregateReads.with_log`), so two decoders that hold the
same and differ in their logs go on holding the same.
-/

namespace FixWire

open Decoder

namespace Decoder

/-! ## Reading with another log -/

section Logs

variable {unclaimed : Unclaimed} {around legal : List Tag} {cycle : UInt32} {log log' : Log} {bytes left : Bytes}

/-- A group is read in the same way with any log. -/
theorem GroupReads.with_log {g g' : OpenGroup} (h : GroupReads unclaimed around g log bytes g' log' left) (log₂ : Log) :
    ∃ log₂', GroupReads unclaimed around g log₂ bytes g' log₂' left := by
  induction h generalizing log₂ with
  | ended hover => exact ⟨log₂, .ended hover⟩
  | field hread ho hstore _ ih =>
    obtain ⟨log₂', hafter⟩ := ih (log₂.add _)
    exact ⟨log₂', .field hread ho hstore hafter⟩
  | group hread ho hstore _ _ ihinside ihafter =>
    obtain ⟨inner, hinside⟩ := ihinside (log₂.add _)
    obtain ⟨log₂', hafter⟩ := ihafter (inner.add _)
    exact ⟨log₂', .group hread ho hstore hinside hafter⟩
  | leftOut hread ho ha hunclaimed _ ih =>
    obtain ⟨log₂', hafter⟩ := ih (log₂.add _)
    exact ⟨log₂', .leftOut hread ho ha hunclaimed hafter⟩

/-- Whatever the log is before a pair is read, the same is stored and the same bytes are left. -/
theorem PairReads.with_log {p : Pair} {cells stored : List Cell}
    (h : PairReads unclaimed around cycle p cells log bytes stored log' left) (log₂ : Log) :
    ∃ log₂', PairReads unclaimed around cycle p cells log₂ bytes stored log₂' left := by
  cases h with
  | field hstore => exact ⟨_, .field hstore⟩
  | group hstore inside =>
    obtain ⟨inner, hinside⟩ := inside.with_log (log₂.add _)
    exact ⟨_, .group hstore hinside⟩

/-- A message is read in the same way with any log. -/
theorem PartsReads.with_log {summed : Bool} {ps ps' : Parts} (h : PartsReads legal summed ps log bytes ps' log' left)
    (log₂ : Log) : ∃ log₂', PartsReads legal summed ps log₂ bytes ps' log₂' left := by
  induction h generalizing log₂ with
  | ended hover => exact ⟨log₂, .ended hover⟩
  | owned hread hsum ho pair _ ih =>
    obtain ⟨inner, hpair⟩ := pair.with_log (log₂.see _)
    obtain ⟨log₂', hafter⟩ := ih inner
    exact ⟨log₂', .owned hread hsum ho hpair hafter⟩
  | leftOut hread hsum ho _ ih =>
    obtain ⟨log₂', hafter⟩ := ih ((log₂.see _).add _)
    exact ⟨log₂', .leftOut hread hsum ho hafter⟩

/-- An aggregate on its own is read in the same way with any log. -/
theorem AggregateReads.with_log {cells cells' : List Cell} (h : AggregateReads cycle cells log bytes cells' log' left)
    (log₂ : Log) : ∃ log₂', AggregateReads cycle cells log₂ bytes cells' log₂' left := by
  induction h generalizing log₂ with
  | ended hover => exact ⟨log₂, .ended hover⟩
  | owned hread ho pair _ ih =>
    obtain ⟨inner, hpair⟩ := pair.with_log log₂
    obtain ⟨log₂', hafter⟩ := ih inner
    exact ⟨log₂', .owned hread ho hpair hafter⟩

end Logs

/-! ## Responses without verdicts -/

/-- The response of a decoder that does not judge where one that judges gives this response : it finds every message
valid, and has no tag and no reason to reject one. -/
def Response.unjudged : Response → Response
  | .decoded length => .decoded length
  | .validated _ => .validated true
  | .reset => .reset
  | .verdict _ _ _ => .verdict true Outcome.noError none
  | .text shown => .text shown
  | .answer found => .answer found

/-- Nothing is found in a log that is not written. -/
theorem Log.judge_of_not_enabled {log : Log} (h : log.enabled = false) (order : List Tag) (missing : Option Tag) :
    log.judge order missing = .valid := by
  rw [judge, h]
  rfl

end Decoder

namespace MessageDecoder

/-- A decoder that does not judge and holds what one that judges does. -/
structure Unjudged (judging plain : MessageDecoder) : Prop where
  layout : plain.layout = judging.layout
  legal : plain.legal = judging.legal
  parts : plain.parts = judging.parts
  enabled : plain.log.enabled = false
  outcome : plain.outcome = .valid

variable {judging plain : MessageDecoder}

/-- A message decoded by both leaves them alike but for the log, and is consumed as far by both. -/
theorem Unjudged.decode (h : judging.Unjudged plain) (window : Bytes) :
    (judging.decode window).1.Unjudged (plain.decode window).1 ∧
      (plain.decode window).2 = (judging.decode window).2 := by
  obtain ⟨log, hreads⟩ := (reads_readParts judging.legal false judging.parts.nextCycle (.empty judging.log.enabled)
    window).with_log (.empty plain.log.enabled)
  obtain ⟨hvalue, -, hrest⟩ := Reading.result_eq_iff.1 hreads.result_eq
  have henabled : (plain.decode window).1.log.enabled = false := (plain.enabled_decode window).trans h.enabled
  rw [MessageDecoder.decode, h.legal, h.parts] at henabled
  rw [MessageDecoder.decode, MessageDecoder.decode, h.legal, h.parts]
  exact ⟨⟨h.layout, rfl, hvalue, henabled, h.outcome⟩, congrArg (window.length - ·.length) hrest⟩

/-- The two respond to any request in the same way, but for verdicts, and still hold the same. -/
theorem Unjudged.handle (r : Request Part) (h : judging.Unjudged plain) :
    (judging.handle r).1.Unjudged (plain.handle r).1 ∧ (plain.handle r).2 = (judging.handle r).2.unjudged := by
  have hvalid : plain.validate.outcome = .valid := Log.judge_of_not_enabled h.enabled _ _
  cases r with
  | decode window => exact ⟨(h.decode window).1, congrArg Response.decoded (h.decode window).2⟩
  | validate =>
    exact ⟨⟨h.layout, h.legal, h.parts, h.enabled, hvalid⟩,
      congrArg (fun o : Outcome => Response.validated o.isValid) hvalid⟩
  | reset => exact ⟨⟨h.layout, h.legal, congrArg Parts.clear h.parts, h.enabled, rfl⟩, rfl⟩
  | verdict => exact ⟨h, congrArg Outcome.response h.outcome⟩
  | text =>
    refine ⟨h, congrArg Response.text ?_⟩
    rw [render, render, h.layout, h.parts]
  | ask place path query =>
    exact ⟨h, congrArg (fun ps : Parts => Response.answer ((ps.get place).askAt path query)) h.parts⟩

end MessageDecoder

namespace AggregateDecoder

/-- A decoder that does not judge and holds what one that judges does. -/
structure Unjudged (judging plain : AggregateDecoder) : Prop where
  root : plain.root = judging.root
  enabled : plain.log.enabled = false
  outcome : plain.outcome = .valid

variable {judging plain : AggregateDecoder}

/-- A message decoded by both leaves them alike but for the log, and is consumed as far by both. -/
theorem Unjudged.decode (h : judging.Unjudged plain) (window : Bytes) :
    (judging.decode window).1.Unjudged (plain.decode window).1 ∧
      (plain.decode window).2 = (judging.decode window).2 := by
  obtain ⟨log, hreads⟩ := (reads_readAggregate judging.root.nextCycle.stamp judging.root.nextCycle.cells
    (.empty judging.log.enabled) window).with_log (.empty plain.log.enabled)
  obtain ⟨hvalue, -, hrest⟩ := Reading.result_eq_iff.1 hreads.result_eq
  have henabled : (plain.decode window).1.log.enabled = false := (plain.enabled_decode window).trans h.enabled
  rw [AggregateDecoder.decode, h.root] at henabled
  rw [AggregateDecoder.decode, AggregateDecoder.decode, h.root]
  exact ⟨⟨congrArg (fun cells => { judging.root.nextCycle with cells }) hvalue, henabled, h.outcome⟩,
    congrArg (window.length - ·.length) hrest⟩

/-- The two respond to any request in the same way, but for verdicts, and still hold the same. -/
theorem Unjudged.handle (r : Request Unit) (h : judging.Unjudged plain) :
    (judging.handle r).1.Unjudged (plain.handle r).1 ∧ (plain.handle r).2 = (judging.handle r).2.unjudged := by
  have hvalid : plain.validate.outcome = .valid := Log.judge_of_not_enabled h.enabled _ _
  cases r with
  | decode window => exact ⟨(h.decode window).1, congrArg Response.decoded (h.decode window).2⟩
  | validate =>
    exact ⟨⟨h.root, h.enabled, hvalid⟩, congrArg (fun o : Outcome => Response.validated o.isValid) hvalid⟩
  | reset => exact ⟨⟨congrArg Aggregate.clear h.root, h.enabled, rfl⟩, rfl⟩
  | verdict => exact ⟨h, congrArg Outcome.response h.outcome⟩
  | text => exact ⟨h, congrArg (fun a : Aggregate => Response.text a.render) h.root⟩
  | ask _ path query => exact ⟨h, congrArg (fun a : Aggregate => Response.answer (a.askAt path query)) h.root⟩

end AggregateDecoder

/-! ## Codecs that do not judge -/

namespace Codecs

/-- A new decoder for a message with a number of spare repetitions for each group. -/
def stockedDecoder (c : Codecs) (capacity : Nat) (m : MessageLayout) : MessageDecoder :=
  .stocked capacity m c.legalTags c.order c.validating

/-- Decoders without spare repetitions in stock are the new ones. -/
theorem stockedDecoder_zero (c : Codecs) (m : MessageLayout) : c.stockedDecoder 0 m = c.newDecoder m :=
  MessageDecoder.stocked_zero m c.legalTags c.order c.validating

/-- A dictionary has codecs that do not judge if it has codecs that do, and they differ in nothing else. -/
theorem ofDictionary_unjudged (d : Dictionary) :
    ofDictionary d false = (ofDictionary d true).map fun c => { c with validating := false } := by
  rw [ofDictionary, ofDictionary]
  cases d.fault? with
  | some cause => rfl
  | none => rcases keyClash? [] d.messageLayouts with _ | ⟨first, second⟩ <;> rfl

variable {d : Dictionary} {c : Codecs} {type : Bytes} {l : MessageLayout}

/-- Judging makes no difference but for verdicts. Where the codecs of a dictionary that judge have a layout for a
message type, those that do not judge have the same, and whatever is asked of their new decoders, for the message or for
one of its parts on its own, these give the responses of the decoders that judge, with `valid` in the place of every
verdict. -/
theorem responses_unjudged (hc : ofDictionary d true = .ok c) (hl : c.require type = .ok l) (capacity : Nat) :
    ∃ c', ofDictionary d false = .ok c' ∧ c'.require type = .ok l ∧
      (∀ requests : List (Request Part),
        responses MessageDecoder.handle (c'.stockedDecoder capacity l) requests =
          (responses MessageDecoder.handle (c.stockedDecoder capacity l) requests).map Response.unjudged) ∧
      ∀ (part : Part) (requests : List (Request Unit)),
        responses AggregateDecoder.handle (.stocked capacity (l.part part) c'.validating) requests =
          (responses AggregateDecoder.handle (.stocked capacity (l.part part) c.validating) requests).map
            Response.unjudged := by
  refine ⟨{ c with validating := false }, by rw [ofDictionary_unjudged, hc]; rfl, hl, ?_, ?_⟩
  · exact fun requests => responses_map (R := MessageDecoder.Unjudged) MessageDecoder.Unjudged.handle requests
      ⟨rfl, rfl, rfl, rfl, rfl⟩
  · exact fun part requests => responses_map (R := AggregateDecoder.Unjudged) AggregateDecoder.Unjudged.handle requests
      ⟨rfl, rfl, rfl⟩

/-- Decoders that are given nothing, which the one that judges rejects, and then a message without its body. -/
theorem responses_unjudged_sample :
    let judging := Sample.codecs.stockedDecoder 1 Sample.layout
    let window := Sample.bytes "8=FIX.4.4|9=5|35=S|10=000|"
    let requests := [.decode [], .validate, .verdict, .decode window, .validate, .text, .ask .trailer [] (.string 10)]
    let alone := [.decode (window.drop 19), .validate, .verdict, .reset]
    (judging.decode []).1.validate.outcome.reason? = some .requiredTagMissing ∧
      ∃ c', ofDictionary Sample.dictionary false = .ok c' ∧
        responses MessageDecoder.handle (c'.stockedDecoder 1 Sample.layout) requests =
          (responses MessageDecoder.handle judging requests).map Response.unjudged ∧
        responses AggregateDecoder.handle (.stocked 1 Sample.layout.body c'.validating) alone =
          (responses AggregateDecoder.handle (.stocked 1 Sample.layout.body true) alone).map Response.unjudged := by
  intro judging window requests alone
  have hc : ofDictionary Sample.dictionary true = .ok Sample.codecs :=
    ofDictionary_eq_ok_iff.2 ⟨by decide +kernel, by decide +kernel, rfl⟩
  have hrejected : (judging.decode []).1.validate.outcome.reason? = some .requiredTagMissing := by
    rw [MessageDecoder.decode, readParts_none rfl]
    decide +kernel
  obtain ⟨c', hc', -, hmessage, hpart⟩ := responses_unjudged hc Sample.require_layout 1
  exact ⟨hrejected, c', hc', hmessage requests, hpart .body alone⟩

end Codecs

end FixWire
