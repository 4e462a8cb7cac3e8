import FixWire.Proofs.Decoder.Cycles
import FixWire.Proofs.Time.WireFormat

/-!
# Timestamps that are read

The reader of timestamps takes more than their format : blanks, signs and short numbers. A text in the format is always
read, and a value that is not read is always reported (`MessageDecoder.Used.reported`). So a text is read and reported
as its format says if it has no spelling of an instant but a plain one, and only then
(`Timestamp.keepsFormat_iff`).
-/

namespace FixWire

open Decoder

namespace Decoder

/-! ## Findings on events -/

/-- What a check finds that does not look at the events before is the same after any of them. -/
theorem firstOf_incorrect (past events : List Event) : firstOf incorrect past events = firstOf incorrect [] events := by
  induction events generalizing past with
  | nil => rfl
  | cons e rest ih => rw [firstOf, firstOf, ih, ih ([] ++ [e])]; rfl

theorem firstOf_append {α : Type} (check : List Event → Event → Option α) (past events events' : List Event) :
    firstOf check past (events ++ events') = (firstOf check past events).or (firstOf check (past ++ events) events') := by
  induction events generalizing past with
  | nil => rw [List.nil_append, List.append_nil, firstOf, Option.none_or]
  | cons e rest ih => rw [List.cons_append, firstOf, firstOf, ih, Option.or_assoc, List.append_assoc]; rfl

/-- The reasons of the checks that come before the one of formats. -/
def earlierReasons : List RejectReason :=
  [.tagSpecifiedOutOfRequiredOrder, .invalidTagNumber, .tagNotDefinedForThisMessageType, .tagSpecifiedWithoutAValue,
    .tagAppearsMoreThanOnce]

/-- The message is rejected for the format of a tag that comes after some events, unless an earlier check finds
something, or the same check something before it. -/
def Reported (before : List Event) (tag : Tag) (o : Outcome) : Prop :=
  ∃ found, o.failure = some found ∧ (found.2 ∈ earlierReasons ∨
    some found = (firstOf incorrect [] before).or (some (tag, .incorrectDataFormatForValue)))

theorem firstOf_reason {check : List Event → Event → Option (Tag × RejectReason)} {reason : RejectReason}
    (hcheck : ∀ before e found, check before e = some found → found.2 = reason) (past events : List Event)
    (found : Tag × RejectReason) (h : firstOf check past events = some found) : found.2 = reason := by
  induction events generalizing past with
  | nil => cases h
  | cons e rest ih =>
    rcases Option.or_eq_some_iff.1 h with h | ⟨-, h⟩
    · exact hcheck past e found h
    · exact ih _ h

section Reasons

variable (legal : List Tag) (before : List Event) (e : Event) (found : Tag × RejectReason)

theorem invalidTag_reason (h : invalidTag legal before e = some found) : found.2 = .invalidTagNumber := by
  unfold invalidTag at h
  split at h
  · split_ifs at h
    cases h
    rfl
  · cases h

theorem undefinedTag_reason (h : undefinedTag legal before e = some found) :
    found.2 = .tagNotDefinedForThisMessageType := by
  unfold undefinedTag at h
  split at h
  · split_ifs at h
    cases h
    rfl
  · cases h

theorem emptyValue_reason (h : emptyValue before e = some found) : found.2 = .tagSpecifiedWithoutAValue := by
  unfold emptyValue at h
  split at h
  · split_ifs at h
    cases h
    rfl
  · split_ifs at h
    cases h
    rfl
  · cases h

theorem repeatedTag_reason (h : repeatedTag before e = some found) : found.2 = .tagAppearsMoreThanOnce := by
  unfold repeatedTag at h
  split at h
  · split_ifs at h
    cases h
    rfl
  · cases h

end Reasons

theorem mem_earlier_or {first rest : Option (Tag × RejectReason)} (reason : RejectReason)
    (hreason : reason ∈ earlierReasons) (hfirst : ∀ found, first = some found → found.2 = reason)
    (hrest : ∀ found, rest = some found → found.2 ∈ earlierReasons) (found : Tag × RejectReason)
    (h : first.or rest = some found) : found.2 ∈ earlierReasons := by
  rcases Option.or_eq_some_iff.1 h with h | ⟨-, h⟩
  · rw [hfirst found h]
    exact hreason
  · exact hrest found h

/-- The log says what one of the earlier checks finds, or else what the check of formats and counts finds. Among the
earlier checks is that of empty values. -/
theorem Log.Follows.exists_failure? {legal : List Tag} {past events : List Event} {log : Log}
    (h : log.Follows legal past events) (order : List Tag) :
    ∃ first, (∀ found, first = some found → found.2 ∈ earlierReasons) ∧
      ((firstOf emptyValue past events).isSome → first.isSome) ∧
      log.failure? order = first.or (firstOf incorrect [] events) := by
  have hfailure : log.failure? order =
      ((Log.misplaced? order log.seen).map (·, RejectReason.tagSpecifiedOutOfRequiredOrder)).or
        ((firstOf (invalidTag legal) past events).or ((firstOf (undefinedTag legal) past events).or
          ((firstOf emptyValue past events).or ((firstOf repeatedTag past events).or (firstOf incorrect past events))))) := by
    rw [Log.failure?, h.faults]
    exact congrArg₂ Option.or rfl <|
      congrArg₂ Option.or (findSome?_faultsOf (findSome?_invalidTag legal) past events) <|
      congrArg₂ Option.or (findSome?_faultsOf (findSome?_undefinedTag legal) past events) <|
      congrArg₂ Option.or (findSome?_faultsOf (findSome?_emptyValue legal) past events) <|
      congrArg₂ Option.or (findSome?_faultsOf (findSome?_repeatedTag legal) past events) <|
      findSome?_faultsOf (findSome?_incorrect legal) past events
  refine ⟨((Log.misplaced? order log.seen).map (·, RejectReason.tagSpecifiedOutOfRequiredOrder)).or
    ((firstOf (invalidTag legal) past events).or ((firstOf (undefinedTag legal) past events).or
      ((firstOf emptyValue past events).or (firstOf repeatedTag past events)))), ?_, fun hempty => ?_, ?_⟩
  · refine mem_earlier_or .tagSpecifiedOutOfRequiredOrder (by decide) (fun found hfound => ?_) <|
      mem_earlier_or _ (by decide) (firstOf_reason (invalidTag_reason legal) past events) <|
      mem_earlier_or _ (by decide) (firstOf_reason (undefinedTag_reason legal) past events) <|
      mem_earlier_or _ (by decide) (firstOf_reason emptyValue_reason past events) fun found hfound => ?_
    · obtain ⟨tag, -, rfl⟩ := Option.map_eq_some_iff.1 hfound
      rfl
    · rw [firstOf_reason repeatedTag_reason past events found hfound]
      decide
  · simp [Option.isSome_or, hempty]
  · rw [hfailure, firstOf_incorrect past]
    simp only [Option.or_assoc]

theorem Content.ofBytes_timestamp {value : Bytes} (hne : value ≠ []) :
    ofBytes .timestamp value = .malformed ↔ (Timestamp.parse value).isOk = false := by
  rw [ofBytes, if_neg hne, ofBytes?]
  cases Timestamp.parse value <;> simp [Except.toOption, Except.isOk, Except.toBool]

end Decoder

namespace MessageDecoder

/-- A decoder that judges messages, whatever it has been used for, rejects one for what an earlier check finds, or else
for what the check of formats and counts finds, or else for a required member that is missing. -/
theorem Used.exists_failure {c : Codecs} {l : MessageLayout} {d : MessageDecoder} (hu : Used (c.newDecoder l) d)
    (hv : c.validating = true) (window : Bytes) :
    ∃ first last : Option (Tag × RejectReason),
      (∀ found, first = some found → found.2 ∈ earlierReasons) ∧
      ((firstOf emptyValue d.parts.nextCycle.carried (flatly l window).events).isSome → first.isSome) ∧
      (∀ found, last = some found → found.2 = .requiredTagMissing) ∧
      (d.decode window).1.validate.outcome.failure =
        (first.or (firstOf incorrect [] (flatly l window).events)).or last := by
  have hrun := hu.tracks_carried hv window
  have hlog : ((flatly l window).above fun part => nodes (d.parts.get part).cells).events = (flatly l window).events :=
    rfl
  obtain ⟨first, hearlier, hempty, hfailure⟩ := hrun.log.exists_failure? d.order
  rw [hlog] at hempty hfailure
  refine ⟨first, (d.decode window).1.parts.missing?.map (·, .requiredTagMissing), hearlier, hempty, fun found h => ?_, ?_⟩
  · obtain ⟨tag, -, rfl⟩ := Option.map_eq_some_iff.1 h
    rfl
  · rw [decode_eq_run]
    dsimp only [MessageDecoder.validate]
    rw [Log.judge, if_pos hrun.log.enabled, hfailure]

/-- A decoder that judges messages, whatever it has been used for, reports the value of a timestamp field if it is not
read. -/
theorem Used.reported {c : Codecs} {l : MessageLayout} {d : MessageDecoder} (hu : Used (c.newDecoder l) d)
    (hv : c.validating = true) {window value : Bytes} {before after : List Event} {owner : Instance} {slot : FieldSlot}
    (hevents : (flatly l window).events = before ++ .field owner slot value :: after)
    (hkind : slot.kind = .timestamp) (hvalue : (Timestamp.parse value).isOk = false) :
    Reported before slot.tag (d.decode window).1.validate.outcome := by
  obtain ⟨first, last, hearlier, hempty, -, houtcome⟩ := hu.exists_failure hv window
  rw [hevents, firstOf_append, firstOf] at houtcome hempty
  cases hfirst : first with
  | some found =>
    rw [hfirst] at houtcome
    exact ⟨found, houtcome, .inl (hearlier found hfirst)⟩
  | none =>
    by_cases hne : value = []
    · -- An empty value has been found by an earlier check.
      have hfound : emptyValue (d.parts.nextCycle.carried ++ before) (.field owner slot value) =
          some (slot.tag, .tagSpecifiedWithoutAValue) := by
        rw [emptyValue, if_pos hne]
      rw [hfound, hfirst, Option.isSome_or] at hempty
      exact absurd (hempty (by simp)) Bool.false_ne_true
    · have hfound : incorrect ([] ++ before) (.field owner slot value) = some (slot.tag, .incorrectDataFormatForValue) := by
        rw [incorrect, if_neg hne, hkind, if_pos ((Content.ofBytes_timestamp hne).2 hvalue)]
      rw [hfound, hfirst, Option.none_or, Option.some_or] at houtcome
      obtain ⟨found, hbefore⟩ : ∃ found, (firstOf incorrect [] before).or
          (some (slot.tag, .incorrectDataFormatForValue)) = some found :=
        Option.isSome_iff_exists.1 (by simp)
      rw [hbefore, Option.some_or] at houtcome
      exact ⟨found, houtcome, .inr hbefore.symm⟩

end MessageDecoder

namespace Timestamp

/-- What the format of timestamps asks of a text : it is read if it is in the format, and only then, and decoders that
judge messages, whatever they have been used for, report a timestamp field that has another text. -/
structure KeepsFormat (text : Bytes) : Prop where
  read : (parse text).isOk = true ↔ WireFormat text
  reported {c : Codecs} {l : MessageLayout} {d : MessageDecoder} {window : Bytes} {before after : List Event}
    {owner : Instance} {slot : FieldSlot} : ¬ WireFormat text → c.validating = true →
      MessageDecoder.Used (c.newDecoder l) d → (flatly l window).events = before ++ .field owner slot text :: after →
      slot.kind = .timestamp → Reported before slot.tag (d.decode window).1.validate.outcome

theorem isOk_parse_iff {text : Bytes} :
    (parse text).isOk = true ↔ ∃ s : Spelling, Utf8.decode? text = some s.chars ∧ s.instant?.isSome = true := by
  have hok : (parse text).isOk = true ↔ ∃ millis, parse text = .ok millis := by
    cases parse text <;> simp [Except.isOk, Except.toBool]
  simp only [hok, parse_eq_ok_iff, Option.isSome_iff_exists]
  exact ⟨fun ⟨millis, s, htext, h⟩ => ⟨s, htext, millis, h⟩, fun ⟨s, htext, millis, h⟩ => ⟨millis, s, htext, h⟩⟩

theorem WireFormat.isOk_parse {text : Bytes} (h : WireFormat text) : (parse text).isOk = true := by
  obtain ⟨stamp, rfl⟩ := h
  rw [stamp.parse_text]
  rfl

/-- All that is in the format of timestamps is read. What is read are the spellings of instants, and a text keeps to the
format if it has no other spelling of an instant than a plain one, without blanks and without a sign, with four digits
of the year and two of everything else; and only then. -/
theorem keepsFormat_iff (text : Bytes) :
    (WireFormat text → (parse text).isOk = true) ∧
    ((parse text).isOk = true ↔
      ∃ s : Spelling, Utf8.decode? text = some s.chars ∧ s.instant?.isSome = true) ∧
    (KeepsFormat text ↔
      ∀ s : Spelling, Utf8.decode? text = some s.chars → s.instant?.isSome = true → s.Plain) := by
  refine ⟨WireFormat.isOk_parse, isOk_parse_iff, fun h s htext hs => ?_, fun h => ?_⟩
  · obtain ⟨millis, hmillis⟩ := Option.isSome_iff_exists.1 hs
    exact (wireFormat_iff htext hmillis).1 (h.read.1 (isOk_parse_iff.2 ⟨s, htext, hs⟩))
  · have hread : (parse text).isOk = true ↔ WireFormat text := by
      refine ⟨fun hok => ?_, WireFormat.isOk_parse⟩
      obtain ⟨s, htext, hs⟩ := isOk_parse_iff.1 hok
      obtain ⟨millis, hmillis⟩ := Option.isSome_iff_exists.1 hs
      exact (wireFormat_iff htext hmillis).2 (h s htext hs)
    refine ⟨hread, fun hformat hv hu hevents hkind => hu.reported hv hevents hkind ?_⟩
    rw [← hread] at hformat
    exact Bool.eq_false_iff.2 hformat

end Timestamp

namespace Sample

/-- A field for a time. -/
def time : Field :=
  ⟨60, "TransactTime", .utcTimestamp, []⟩

/-- A dictionary with one message, which has a time. -/
def timed : Dictionary where
  major := 4
  minor := 4
  fields := [field 8 "BeginString", length, field 10 "CheckSum", field 35 "MsgType", time]
  groups := []
  components := []
  spliced := []
  messages := [⟨"Quote", "S", .app, [⟨true, .field time⟩]⟩]
  header := [⟨true, .field (field 8 "BeginString")⟩, ⟨true, .field length⟩, ⟨true, .field (field 35 "MsgType")⟩]
  trailer := [⟨true, .field (field 10 "CheckSum")⟩]

/-- The layout of the message. -/
def timedLayout : MessageLayout :=
  ⟨"Quote", "S", .app, timed.layoutOf .header, timed.layoutOf (.message 0), timed.layoutOf .trailer⟩

end Sample

namespace Timestamp

/-- A date with blanks in the place of zeros is read as the start of 1970, and a message that has it is accepted. -/
theorem not_keepsFormat_blanks :
    let text := Bytes.ofString "1970 1 1-0:0:0"
    let c : Codecs := ⟨Sample.timed, Sample.timed.messageLayouts, true⟩
    let window := Sample.bytes "8=F|9=5|35=S|60=1970 1 1-0:0:0|10=000|"
    parse text = .ok 0 ∧ ¬ WireFormat text ∧ ¬ KeepsFormat text ∧
      Codecs.ofDictionary Sample.timed true = .ok c ∧ c.require (Bytes.ofString "S") = .ok Sample.timedLayout ∧
      .field (.part .body) ⟨Sample.time, true⟩ text ∈ (flatly Sample.timedLayout window).events ∧
      ((c.newDecoder Sample.timedLayout).decode window).1.validate.outcome.isValid = true := by
  intro text c window
  have hread : parse text = .ok 0 := by decide +kernel
  have hformat : ¬ WireFormat text := by
    rintro ⟨stamp, hstamp⟩
    have hlength := congrArg List.length hstamp
    rw [stamp.length_text, show text.length = 14 by decide +kernel] at hlength
    omega
  refine ⟨hread, hformat, fun h => hformat (h.read.1 (by rw [hread]; rfl)), ?_, ?_, by decide +kernel, ?_⟩
  · exact Codecs.ofDictionary_eq_ok_iff.2 ⟨by decide +kernel, by decide +kernel, rfl⟩
  · have hkey : (Sample.timedLayout.key == MsgType.key (Bytes.ofString "S")) = true := by decide +kernel
    exact Codecs.require_eq_ok_iff.2 ⟨List.find?_cons_of_pos hkey, rfl⟩
  · rw [MessageDecoder.outcome_decode_new rfl]
    decide +kernel

end Timestamp

end FixWire
