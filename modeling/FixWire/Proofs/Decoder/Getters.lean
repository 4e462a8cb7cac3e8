import FixWire.Decoder.Register
import FixWire.Proofs.Decoder.Throughout

/-!
# What the getters of a decoder return

Every field of a decoder in use is answered for by a register in which values have been stored and which has been reset,
in some order (`Decoder.Register.Reached`). However often that has been done, the register keeps what its bytes are read
as and nothing of earlier ones (`Decoder.Register.Reached.eq_keep`). So what a typed getter returns depends on whether
the field is there and on its bytes alone (`getters_exact`).
-/

namespace FixWire

open Decoder

namespace Decoder

/-! ## What bytes say -/

namespace Content

/-- The integer or the instant that a value says, or what stands for a missing one. -/
def asInt : Content → Int
  | .int n => n
  | _ => Integer.missing

/-- The decimal. -/
def asDecimal : Content → Decimal
  | .decimal d => d
  | _ => Decimal.missing

/-- The character. -/
def asChar : Content → UInt8
  | .char b => b
  | _ => 0

/-- The flag. -/
def asFlag : Content → Bool
  | .flag b => b
  | _ => false

/-- The byte, if it is a single one. -/
def single? : Bytes → Option UInt8
  | [b] => some b
  | _ => none

/-- The flag that some bytes stand for. -/
def flag? (bytes : Bytes) : Option Bool :=
  if bytes = yes then some true else if bytes = no then some false else none

variable {α : Type} {kind : ValueKind}

/-- Nothing says nothing, but for text. -/
theorem ofBytes?_nil (kind : ValueKind) : ofBytes? kind [] = none ∨ ofBytes? kind [] = some .text := by
  cases kind <;> decide +kernel

/-- What bytes say is not malformed. -/
theorem ne_malformed {bytes : Bytes} {c : Content} (h : ofBytes? kind bytes = some c) : c ≠ .malformed := by
  rintro rfl
  cases kind with
  | int => exact absurd h (by rw [ofBytes?]; cases Integer.parse bytes <;> nofun)
  | decimal => exact absurd h (by rw [ofBytes?]; cases Decimal.parse bytes <;> nofun)
  | timestamp => exact absurd h (by rw [ofBytes?]; cases Timestamp.parse bytes <;> nofun)
  | char => rcases bytes with _ | ⟨b, _ | ⟨b', rest⟩⟩ <;> cases h
  | bool => exact absurd h (by rw [ofBytes?]; split_ifs <;> nofun)
  | string => cases h
  | data => cases h

/-- What non-empty bytes are read as by `parse` is what they say as a value of the kind, of which `say` takes what is
asked for. -/
def Parses (kind : ValueKind) (say : Content → α) (parse : Bytes → Option α) : Prop :=
  ∀ bytes ≠ [], parse bytes = if ofBytes kind bytes = .malformed then none else some (say (ofBytes kind bytes))

/-- Integers are parsed. -/
theorem parses_int : Parses .int asInt Integer.parse := by
  intro bytes hne
  rw [ofBytes, if_neg hne, ofBytes?]
  cases Integer.parse bytes <;> rfl

/-- Decimals are parsed. -/
theorem parses_decimal : Parses .decimal asDecimal Decimal.parse := by
  intro bytes hne
  rw [ofBytes, if_neg hne, ofBytes?]
  cases Decimal.parse bytes <;> rfl

/-- Timestamps are parsed. -/
theorem parses_timestamp : Parses .timestamp asInt fun bytes => (Timestamp.parse bytes).toOption := by
  intro bytes hne
  dsimp only
  rw [ofBytes, if_neg hne, ofBytes?]
  cases Timestamp.parse bytes <;> rfl

/-- Characters are parsed : they have one byte. -/
theorem parses_char : Parses .char asChar single? := by
  intro bytes hne
  rw [ofBytes, if_neg hne]
  rcases bytes with _ | ⟨b, _ | ⟨b', rest⟩⟩
  · exact absurd rfl hne
  · rfl
  · rfl

/-- Flags are parsed : they are `Y` or `N`. -/
theorem parses_flag : Parses .bool asFlag flag? := by
  intro bytes hne
  rw [ofBytes, if_neg hne, ofBytes?, flag?]
  by_cases hyes : bytes = yes
  · rw [if_pos hyes, if_pos hyes]
    rfl
  · rw [if_neg hyes, if_neg hyes]
    by_cases hno : bytes = no
    · rw [if_pos hno, if_pos hno]
      rfl
    · rw [if_neg hno, if_neg hno]
      rfl

/-- The first byte of a character is the character. -/
theorem head?_of_char {bytes : Bytes} (h : ofBytes .char bytes ≠ .malformed) :
    bytes.head?.getD 0 = (ofBytes .char bytes).asChar := by
  rcases bytes with _ | ⟨b, _ | ⟨b', rest⟩⟩
  · rfl
  · rfl
  · exact absurd rfl h

/-- A flag is set if it is `Y`. -/
theorem eq_yes_of_bool {bytes : Bytes} (h : ofBytes .bool bytes ≠ .malformed) :
    (bytes == yes) = (ofBytes .bool bytes).asFlag := by
  by_cases hyes : bytes = yes
  · subst hyes
    rfl
  · rw [beq_false_of_ne hyes]
    rw [ofBytes, ofBytes?, if_neg hyes] at h ⊢
    split_ifs at h ⊢ <;> rfl

end Content

/-! ## Registers in use -/

namespace Register

/-- The registers of a field of the kind, whatever they have been used for. -/
inductive Reached (kind : ValueKind) : Register → Prop
  | new : Reached kind .new
  | reset {r : Register} (h : Reached kind r) : Reached kind r.reset
  | decode {r : Register} (h : Reached kind r) (cycle : UInt32) (bytes : Bytes) :
    Reached kind ((r.mark cycle).decode kind bytes).1

/-- A register that keeps some bytes and what they say. -/
def keep (kind : ValueKind) (bytes : Bytes) (cycle : UInt32) : Register where
  raw := bytes
  present := true
  malformed := Content.ofBytes kind bytes == .malformed
  stamp := cycle
  int := (Content.ofBytes kind bytes).asInt
  decimal := (Content.ofBytes kind bytes).asDecimal

/-- What is kept where some bytes are read. -/
theorem read_eq {r : Register} (hint : r.int = Integer.missing) (hdecimal : r.decimal = Decimal.missing)
    (kind : ValueKind) (bytes : Bytes) :
    r.read kind bytes =
      ({ r with
          int := ((Content.ofBytes? kind bytes).map Content.asInt).getD Integer.missing
          decimal := ((Content.ofBytes? kind bytes).map Content.asDecimal).getD Decimal.missing },
        (Content.ofBytes? kind bytes).isSome) := by
  obtain ⟨raw, present, malformed, stamp, int, decimal⟩ := r
  subst hint hdecimal
  cases kind with
  | int =>
    rw [read, Content.ofBytes?]
    cases Integer.parse bytes <;> rfl
  | decimal =>
    rw [read, Content.ofBytes?]
    cases Decimal.parse bytes <;> rfl
  | timestamp =>
    rw [read, Content.ofBytes?]
    cases Timestamp.parse bytes <;> rfl
  | string => rfl
  | data => rfl
  | char => rcases bytes with _ | ⟨b, _ | ⟨b', rest⟩⟩ <;> rfl
  | bool =>
    rw [read, Content.ofBytes?]
    by_cases hyes : bytes = Content.yes
    · subst hyes
      rfl
    · by_cases hno : bytes = Content.no
      · subst hno
        rfl
      · rw [if_neg hyes, if_neg hno, beq_false_of_ne hyes, beq_false_of_ne hno]
        rfl

/-- Nothing of what a register kept before is left when a value has been stored in it. -/
theorem decode_mark (r : Register) (kind : ValueKind) (cycle : UInt32) (bytes : Bytes) :
    (r.mark cycle).decode kind bytes = (keep kind bytes cycle, !(keep kind bytes cycle).malformed) := by
  rw [decode, read_eq rfl rfl, keep, mark, Content.ofBytes]
  by_cases hempty : bytes = []
  · -- Empty bytes are no number of any kind, so nothing is noted, but they do not count as malformed either.
    subst hempty
    rcases Content.ofBytes?_nil kind with hc | hc <;> simp [hc, Content.asInt, Content.asDecimal]
  · have hisEmpty : bytes.isEmpty = false := List.isEmpty_eq_false_iff.2 hempty
    rw [if_neg hempty]
    cases hc : Content.ofBytes? kind bytes with
    | none => simp [hisEmpty, Content.asInt, Content.asDecimal]
    | some c =>
      have hne : (c == .malformed) = false := beq_false_of_ne (Content.ne_malformed hc)
      simp [hne]

/-- A register in use is as it was made, or it keeps bytes. -/
theorem Reached.eq_keep {kind : ValueKind} {r : Register} (h : Reached kind r) :
    r = .new ∨ ∃ bytes cycle, r = keep kind bytes cycle := by
  cases h with
  | new => exact .inl rfl
  | reset => exact .inl rfl
  | decode _ cycle bytes => exact .inr ⟨bytes, cycle, by rw [decode_mark]⟩

/-- A register answers for a field with the value and the stamp. -/
structure Holds (r : Register) (slot : FieldSlot) (value : Value) (cycle : UInt32) : Prop where
  reached : Reached slot.kind r
  stamp : r.stamp = cycle
  value : value = if r.present then .ofBytes slot.kind r.raw else .absent

/-- A register that answers for a field is as it was made while the field is absent, and keeps the bytes of the field
otherwise. -/
theorem Holds.absent_or_keep {r : Register} {slot : FieldSlot} {value : Value} {cycle : UInt32}
    (h : r.Holds slot value cycle) :
    (r = .new ∧ value = .absent) ∨ ∃ bytes, r = keep slot.kind bytes cycle ∧ value = .ofBytes slot.kind bytes := by
  obtain ⟨hreached, rfl, rfl⟩ := h
  rcases hreached.eq_keep with rfl | ⟨bytes, cycle, rfl⟩
  · exact .inl ⟨rfl, rfl⟩
  · exact .inr ⟨bytes, rfl, rfl⟩

/-- Whatever is done with the cell of a field can be done with the register that answers for it. -/
theorem kept_holds : Kept fun slot value cycle => ∃ r : Register, r.Holds slot value cycle where
  blank _ := ⟨.new, .new, rfl, rfl⟩
  clear := fun ⟨r, h⟩ => ⟨r.reset, h.reached.reset, rfl, rfl⟩
  store := fun ⟨_, h⟩ cycle bytes => ⟨_, h.reached.decode cycle bytes, by rw [decode_mark]; rfl, by rw [decode_mark]; rfl⟩

end Register

/-! ## Getters -/

/-- What a typed getter returns for a field, by whether it is there and by its bytes. `parse` tells the value of bytes
that are not empty, and `missing` stands for a missing value. -/
structure Tells {α : Type} (tag : Tag) (slot : FieldSlot) (present : Bool) (raw : Bytes) (parse : Bytes → Option α)
    (missing : α) (result : Except FieldError α) : Prop where
  notSet : result = .error (.notSet tag) ↔ slot.required = false ∧ present = false
  absent : slot.required = true → present = false → result = .ok missing
  empty : present = true → raw = [] → result = .ok missing
  invalid : result = .error (.invalidValue slot.kind.name 0) ↔ present = true ∧ raw ≠ [] ∧ parse raw = none
  literal {v : α} : present = true → raw ≠ [] → parse raw = some v → result = .ok v

variable {α : Type} {a : Aggregate} {tag : Tag} {slot : FieldSlot} {value : Value} {cycle : UInt32} {r : Register}

/-- A field that an aggregate has is the cell with its tag. -/
theorem Aggregate.find?_of_field (hfield : a.field tag = .ok (slot, value)) :
    ∃ cycle, find? a.cells tag = some (.field slot value cycle) := by
  rw [Aggregate.field] at hfield
  split at hfield
  next cycle hfind =>
    cases hfield
    exact ⟨cycle, hfind⟩
  next => cases hfield

/-- A field is there if its value is present. -/
theorem Aggregate.has_of_field (hfield : a.field tag = .ok (slot, value)) : a.has tag = value.isPresent := by
  obtain ⟨cycle, hfind⟩ := find?_of_field hfield
  rw [has, hfind]
  rfl

/-- The length of a field is that of its bytes. -/
theorem Aggregate.length_of_field (hfield : a.field tag = .ok (slot, value)) : a.length tag = value.raw.length := by
  obtain ⟨cycle, hfind⟩ := find?_of_field hfield
  rw [length, hfind]
  rfl

/-- The bytes of a field are refused only if it is optional and absent. -/
theorem Aggregate.getBytes_of_field (hfield : a.field tag = .ok (slot, value)) :
    a.getBytes tag = if !value.isPresent && !slot.required then .error (.notSet tag) else .ok value.raw := by
  rw [getBytes, hfield]
  simp [bind, Except.bind, throw, throwThe, MonadExceptOf.throw, pure, Except.pure]

/-- A getter of another kind is refused. -/
theorem Aggregate.typed_of_ne (hfield : a.field tag = .ok (slot, value)) {kind : ValueKind} (hkind : slot.kind ≠ kind) :
    a.typed tag kind = .error (.typeMismatch tag kind.name slot.kind.name) := by
  rw [typed, hfield]
  simp [bind, Except.bind, hkind, throw, throwThe, MonadExceptOf.throw]

/-- An absent field has no value if it is required, and is refused otherwise. -/
theorem Aggregate.typed_absent (hfield : a.field tag = .ok (slot, .absent)) :
    a.typed tag slot.kind = if slot.required then .ok none else .error (.notSet tag) := by
  rw [typed, hfield]
  simp [bind, Except.bind, throw, throwThe, MonadExceptOf.throw, pure, Except.pure]

/-- A field gives what its bytes say, or is refused if they are malformed. -/
theorem Aggregate.typed_stored {bytes : Bytes} (hfield : a.field tag = .ok (slot, .ofBytes slot.kind bytes)) :
    a.typed tag slot.kind =
      if Content.ofBytes slot.kind bytes = .malformed then .error (.invalidValue slot.kind.name 0)
      else .ok (some (Content.ofBytes slot.kind bytes)) := by
  rw [typed, hfield, Value.ofBytes]
  cases hc : Content.ofBytes slot.kind bytes <;>
    simp [bind, Except.bind, throw, throwThe, MonadExceptOf.throw, pure, Except.pure]

/-- A getter of an aggregate returns what the register returns that answers for the field, if the register keeps what is
asked for. -/
theorem Register.Holds.map_typed (h : r.Holds slot value cycle) (hfield : a.field tag = .ok (slot, value))
    {kind : ValueKind} {ask : Register → α} {say : Content → α} (missing : α)
    (hask : ∀ bytes cycle, Content.ofBytes kind bytes ≠ .malformed →
      ask (keep kind bytes cycle) = say (Content.ofBytes kind bytes)) :
    (r.typed slot tag kind).map (fun found => (found.map ask).getD missing) =
      (a.typed tag kind).map fun found => (found.map say).getD missing := by
  by_cases hkind : slot.kind = kind
  · subst hkind
    rw [Register.typed, if_neg (not_not.2 rfl)]
    rcases h.absent_or_keep with ⟨rfl, rfl⟩ | ⟨bytes, rfl, rfl⟩
    · rw [Aggregate.typed_absent hfield]
      cases slot.required <;> rfl
    · rw [Aggregate.typed_stored hfield]
      by_cases hc : Content.ofBytes slot.kind bytes = .malformed
      · simp [keep, hc, Except.map]
      · have hkeep : (keep slot.kind bytes cycle).malformed = false := beq_false_of_ne hc
        rw [hkeep, if_neg hc]
        exact congrArg Except.ok (hask bytes cycle hc)
  · rw [Register.typed, if_pos hkind, Aggregate.typed_of_ne hfield hkind]
    rfl

/-- What a typed getter returns for a field of its kind. -/
theorem Register.Holds.tells (h : r.Holds slot value cycle) (hfield : a.field tag = .ok (slot, value))
    {say : Content → α} {parse : Bytes → Option α} {missing : α} (hparse : Content.Parses slot.kind say parse)
    (hempty : say .empty = missing) :
    Tells tag slot (a.has tag) r.raw parse missing
      ((a.typed tag slot.kind).map fun found => (found.map say).getD missing) := by
  rw [Aggregate.has_of_field hfield]
  -- The field is absent, or its bytes are empty, malformed or a literal. Each case decides every field of `Tells`.
  rcases h.absent_or_keep with ⟨rfl, rfl⟩ | ⟨bytes, rfl, rfl⟩
  · rw [Aggregate.typed_absent hfield]
    constructor <;> cases slot.required <;> simp [Except.map, Value.isPresent]
  · rw [Aggregate.typed_stored hfield]
    by_cases hb : bytes = []
    · subst hb
      constructor <;> simp [keep, Content.ofBytes, Except.map, Value.ofBytes, Value.isPresent, hempty]
    · have hvalue := hparse bytes hb
      by_cases hc : Content.ofBytes slot.kind bytes = .malformed
      · rw [if_pos hc] at hvalue ⊢
        constructor <;> simp [keep, Except.map, Value.ofBytes, Value.isPresent, hb, hvalue]
      · rw [if_neg hc] at hvalue ⊢
        constructor <;> simp [keep, Except.map, Value.ofBytes, Value.isPresent, hb, hvalue]

/-! ### By kind -/

namespace Aggregate

/-- The getter for integers, by what it reads. -/
theorem getInt_eq (a : Aggregate) (tag : Tag) :
    a.getInt tag = (a.typed tag .int).map fun found => (found.map Content.asInt).getD Integer.missing :=
  congrArg (Except.map · _) (funext fun found => by rcases found with _ | _ | _ <;> rfl)

/-- The getter for decimals, by what it reads. -/
theorem getDecimal_eq (a : Aggregate) (tag : Tag) :
    a.getDecimal tag = (a.typed tag .decimal).map fun found => (found.map Content.asDecimal).getD Decimal.missing :=
  congrArg (Except.map · _) (funext fun found => by rcases found with _ | _ | _ <;> rfl)

/-- The getter for characters, by what it reads. -/
theorem getChar_eq (a : Aggregate) (tag : Tag) :
    a.getChar tag = (a.typed tag .char).map fun found => (found.map Content.asChar).getD 0 :=
  congrArg (Except.map · _) (funext fun found => by rcases found with _ | _ | _ <;> rfl)

/-- The getter for flags, by what it reads. -/
theorem getBool_eq (a : Aggregate) (tag : Tag) :
    a.getBool tag = (a.typed tag .bool).map fun found => (found.map Content.asFlag).getD false :=
  congrArg (Except.map · _) (funext fun found => by rcases found with _ | _ | _ <;> rfl)

/-- The getter for timestamps, by what it reads. -/
theorem getTimestamp_eq (a : Aggregate) (tag : Tag) :
    a.getTimestamp tag = (a.typed tag .timestamp).map fun found => (found.map Content.asInt).getD Integer.missing :=
  congrArg (Except.map · _) (funext fun found => by rcases found with _ | _ | _ <;> rfl)

/-- What is returned for a field of an aggregate is a function of whether the field is there and of its bytes. -/
structure Exact (a : Aggregate) (tag : Tag) (slot : FieldSlot) (raw : Bytes) : Prop where
  bytes : a.getBytes tag = if !a.has tag && !slot.required then .error (.notSet tag) else .ok raw
  absent : a.has tag = false → raw = []
  length : a.length tag = raw.length
  int : slot.kind = .int → Tells tag slot (a.has tag) raw Integer.parse Integer.missing (a.getInt tag)
  decimal : slot.kind = .decimal → Tells tag slot (a.has tag) raw Decimal.parse Decimal.missing (a.getDecimal tag)
  char : slot.kind = .char → Tells tag slot (a.has tag) raw Content.single? 0 (a.getChar tag)
  bool : slot.kind = .bool → Tells tag slot (a.has tag) raw Content.flag? false (a.getBool tag)
  timestamp : slot.kind = .timestamp →
    Tells tag slot (a.has tag) raw (fun bytes => (Timestamp.parse bytes).toOption) Integer.missing (a.getTimestamp tag)

/-- The bytes of a field are those that its getters are exact for. -/
theorem Exact.eq_of_getBytes {raw bytes : Bytes} (h : a.Exact tag slot raw) (hbytes : a.getBytes tag = .ok bytes) :
    raw = bytes := by
  have hraw := h.bytes.symm.trans hbytes
  split_ifs at hraw
  exact Except.ok.inj hraw

end Aggregate

/-- A register answers for a field of an aggregate. -/
structure Register.Answers (r : Register) (a : Aggregate) (tag : Tag) (slot : FieldSlot) : Prop where
  reached : r.Reached slot.kind
  present : r.present = a.has tag
  length : r.raw.length = a.length tag
  bytes : r.getBytes slot tag = a.getBytes tag
  int : r.getInt slot tag = a.getInt tag
  decimal : r.getDecimal slot tag = a.getDecimal tag
  char : r.getChar slot tag = a.getChar tag
  bool : r.getBool slot tag = a.getBool tag
  timestamp : r.getTimestamp slot tag = a.getTimestamp tag

/-- A register and its field are present together. -/
theorem Register.Holds.present (h : r.Holds slot value cycle) : r.present = value.isPresent := by
  rcases h.absent_or_keep with ⟨rfl, rfl⟩ | ⟨bytes, rfl, rfl⟩ <;> rfl

/-- A register has the bytes of its field. -/
theorem Register.Holds.raw (h : r.Holds slot value cycle) : r.raw = value.raw := by
  rcases h.absent_or_keep with ⟨rfl, rfl⟩ | ⟨bytes, rfl, rfl⟩ <;> rfl

/-- The getters of an aggregate answer as the register of the field does. -/
theorem Register.Holds.answers (h : r.Holds slot value cycle) (hfield : a.field tag = .ok (slot, value)) :
    r.Answers a tag slot where
  reached := h.reached
  present := h.present.trans (Aggregate.has_of_field hfield).symm
  length := by rw [h.raw, Aggregate.length_of_field hfield]
  bytes := by rw [getBytes, h.present, h.raw, Aggregate.getBytes_of_field hfield]
  int := by
    rw [Aggregate.getInt_eq]
    exact h.map_typed hfield _ fun _ _ _ => rfl
  decimal := by
    rw [Aggregate.getDecimal_eq]
    exact h.map_typed hfield _ fun _ _ _ => rfl
  timestamp := by
    rw [Aggregate.getTimestamp_eq]
    exact h.map_typed hfield _ fun _ _ _ => rfl
  char := by
    have hask (found : Option Register) :
        (found.bind fun r => r.raw.head?).getD 0 = (found.map fun r => r.raw.head?.getD 0).getD 0 := by
      cases found <;> rfl
    rw [Aggregate.getChar_eq, getChar, funext hask]
    exact h.map_typed hfield _ fun bytes _ hc => Content.head?_of_char hc
  bool := by
    have hask (found : Option Register) :
        (found.any fun r => r.raw == Content.yes) = (found.map fun r => r.raw == Content.yes).getD false := by
      cases found <;> rfl
    rw [Aggregate.getBool_eq, getBool, funext hask]
    exact h.map_typed hfield _ fun bytes _ hc => Content.eq_yes_of_bool hc

/-- The getters of an aggregate are exact for the bytes of the register. -/
theorem Register.Holds.exact (h : r.Holds slot value cycle) (hfield : a.field tag = .ok (slot, value)) :
    a.Exact tag slot r.raw where
  bytes := by rw [Aggregate.getBytes_of_field hfield, Aggregate.has_of_field hfield, h.raw]
  absent habsent := by
    rw [Aggregate.has_of_field hfield] at habsent
    rw [h.raw]
    cases value with
    | absent => rfl
    | stored => cases habsent
  length := by rw [Aggregate.length_of_field hfield, h.raw]
  int hkind := by
    rw [Aggregate.getInt_eq, ← hkind]
    exact h.tells hfield (hkind ▸ Content.parses_int) rfl
  decimal hkind := by
    rw [Aggregate.getDecimal_eq, ← hkind]
    exact h.tells hfield (hkind ▸ Content.parses_decimal) rfl
  char hkind := by
    rw [Aggregate.getChar_eq, ← hkind]
    exact h.tells hfield (hkind ▸ Content.parses_char) rfl
  bool hkind := by
    rw [Aggregate.getBool_eq, ← hkind]
    exact h.tells hfield (hkind ▸ Content.parses_flag) rfl
  timestamp hkind := by
    rw [Aggregate.getTimestamp_eq, ← hkind]
    exact h.tells hfield (hkind ▸ Content.parses_timestamp) rfl

/-- What the getters return for a field is a function of whether the field is there and of its bytes, for every field of
an aggregate and of the repetitions in it; and there is a register that returns the same. -/
def Aggregate.AllExact (top : Aggregate) : Prop :=
  ∀ (path : List (Tag × Nat)) (a : Aggregate) (tag : Tag) (slot : FieldSlot) (value : Value),
    top.at? path = some a → a.field tag = .ok (slot, value) → ∃ r : Register, r.Answers a tag slot ∧ a.Exact tag slot r.raw

/-- The getters of all repetitions are exact if every field has a register. -/
theorem All.allExact {top : Aggregate}
    (h : All (fun slot value cycle => ∃ r : Register, r.Holds slot value cycle) top.cells) : top.AllExact := by
  intro path a tag slot value hat hfield
  obtain ⟨cycle, hfind⟩ := Aggregate.find?_of_field hfield
  obtain ⟨r, hr⟩ := (h.at? hat).field hfind
  exact ⟨r, hr.answers hfield, hr.exact hfield⟩

end Decoder

/-! ## Decoders in use -/

/-- The getters of every part of a decoder return what the bytes of a field are read as, whatever the decoder has been
used for, and so do those of a decoder of an aggregate on its own. -/
theorem getters_exact :
    (∀ (capacity : Nat) (layout : MessageLayout) (legal order : List Tag) (validating : Bool) (d : MessageDecoder),
      MessageDecoder.Used (.stocked capacity layout legal order validating) d → ∀ part, (d.part part).AllExact) ∧
    ∀ (capacity : Nat) (layout : Layout) (validating : Bool) (d : AggregateDecoder),
      AggregateDecoder.Used (.stocked capacity layout validating) d → d.root.AllExact :=
  ⟨fun _ _ _ _ _ _ hused part => (Register.kept_holds.used hused part).allExact,
    fun _ _ _ _ hused => (Register.kept_holds.used_aggregate hused).allExact⟩

/-- The length of the body has been a number in one message and is none in the next one, which has a leg; and a decoder
of the header on its own has been reset. -/
theorem getters_exact_reused :
    let d₀ := MessageDecoder.stocked 1 Sample.layout Sample.codecs.legalTags Sample.codecs.order true
    let d := (d₀.decode (Sample.bytes "8=F|9=5|35=S|55=E|")).1.validate
    let d' := (d.decode (Sample.bytes "8=F|9=x|35=S|555=1|600=A|602=B|55=E|")).1
    let h₀ := AggregateDecoder.stocked 1 Sample.layout.header true
    MessageDecoder.Used d₀ d' ∧ AggregateDecoder.Used h₀ h₀.reset ∧
      (d.part .header).getInt 9 = .ok 5 ∧ (d'.part .header).getBytes 9 = .ok (Bytes.ofString "x") ∧
      (d'.part .header).getInt 9 = .error (.invalidValue "int" 0) ∧
      (∃ leg, (d'.part .body).at? [(555, 0)] = some leg ∧ leg.getBytes 600 = .ok (Bytes.ofString "A") ∧
        leg.length 600 = 1) ∧
      h₀.reset.root.getInt 9 = .ok Integer.missing := by
  intro d₀ d d' h₀
  have hd : MessageDecoder.Used d₀ d := .validate (.decode .new _)
  have hd' : MessageDecoder.Used d₀ d' := .decode hd _
  have hh : AggregateDecoder.Used h₀ h₀.reset := .reset .new
  obtain ⟨hmessage, haggregate⟩ := getters_exact
  have hfive : (d.part .header).field 9 = .ok (⟨Sample.length, true⟩, .stored (Bytes.ofString "5") (.int 5)) := by
    change ((d₀.decode _).1.part .header).field 9 = _
    rw [MessageDecoder.decode_eq_run]
    decide +kernel
  have hnone : (d'.part .header).field 9 = .ok (⟨Sample.length, true⟩, .stored (Bytes.ofString "x") .malformed) := by
    change (((d₀.decode _).1.validate.decode _).1.part .header).field 9 = _
    rw [MessageDecoder.decode_eq_run, MessageDecoder.decode_eq_run]
    decide +kernel
  have hleg : ((d'.part .body).at? [(555, 0)]).map (fun leg => leg.field 600) =
      some (.ok (⟨Sample.field 600 "LegSymbol", false⟩, .stored (Bytes.ofString "A") .text)) := by
    change ((((d₀.decode _).1.validate.decode _).1.part .body).at? _).map _ = _
    rw [MessageDecoder.decode_eq_run, MessageDecoder.decode_eq_run]
    decide +kernel
  obtain ⟨leg, hat, hleg⟩ := Option.map_eq_some_iff.1 hleg
  have hbytes := Aggregate.getBytes_of_field hnone
  have hlegBytes := Aggregate.getBytes_of_field hleg
  refine ⟨hd', hh, ?_, hbytes, ?_, ⟨leg, hat, hlegBytes, ?_⟩, ?_⟩
  · obtain ⟨r, -, hexact⟩ := hmessage _ _ _ _ _ d hd .header [] _ _ _ _ rfl hfive
    have hint := hexact.eq_of_getBytes (Aggregate.getBytes_of_field hfive) ▸ hexact.int (by decide +kernel)
    exact hint.literal (Aggregate.has_of_field hfive) (by decide) (by decide +kernel)
  · obtain ⟨r, -, hexact⟩ := hmessage _ _ _ _ _ d' hd' .header [] _ _ _ _ rfl hnone
    have hint := hexact.eq_of_getBytes hbytes ▸ hexact.int (by decide +kernel)
    exact hint.invalid.2 ⟨Aggregate.has_of_field hnone, by decide, by decide +kernel⟩
  · obtain ⟨r, -, hexact⟩ := hmessage _ _ _ _ _ d' hd' .body _ leg _ _ _ hat hleg
    rw [hexact.length, hexact.eq_of_getBytes hlegBytes]
    decide
  · obtain ⟨r, -, hexact⟩ := haggregate _ _ _ _ hh [] _ 9 ⟨Sample.length, true⟩ .absent rfl (by decide +kernel)
    exact (hexact.int (by decide +kernel)).absent rfl (by decide +kernel)

end FixWire
