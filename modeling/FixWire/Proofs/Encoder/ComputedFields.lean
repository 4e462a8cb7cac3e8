import FixWire.Proofs.Dictionary.Documents
import FixWire.Proofs.Encoder.Use

/-!
# The computed fields of a message

`framed` is what a message with a body length and a checksum looks like, as a function of the bytes before, between and
after these two fields. Encoders whose header has the one and whose trailer has the other write messages of this form,
whatever they have been used for (`MessageEncoder.encode_framed`) : values that have been set on the two fields, or
computed for them before, do not matter.
-/

namespace FixWire

open Encoder

/-! ## The form of a message -/

/-- The sum of the bytes. -/
def total (bytes : Bytes) : Nat :=
  bytes.foldl (fun n b => n + b.toNat) 0

/-- The bytes of a message before its checksum : `counted` is what its length counts. -/
def lengthFramed (lengthTag : Tag) (before counted : Bytes) : Bytes :=
  before ++ fieldBytes lengthTag (Natural.digits counted.length) ++ counted

/-- A message with the number of bytes between its computed fields, and with the sum, modulo 256 and in three digits, of
the bytes before the second one. -/
def framed (lengthTag sumTag : Tag) (before counted after : Bytes) : Bytes :=
  lengthFramed lengthTag before counted ++
    fieldBytes sumTag (Natural.padded 3 (total (lengthFramed lengthTag before counted) % 256)) ++ after

theorem toNat_checksum (bytes : Bytes) : (checksum bytes).toNat = total bytes % 256 := by
  have hfold : ∀ (bytes : Bytes) (sum : UInt8) (n : Nat), sum.toNat = n % 256 →
      (bytes.foldl (· + ·) sum).toNat = bytes.foldl (fun n b => n + b.toNat) n % 256 := by
    intro bytes
    induction bytes with
    | nil => exact fun _ _ h => h
    | cons b rest ih =>
      intro sum n h
      rw [List.foldl_cons, List.foldl_cons]
      refine ih _ _ ?_
      rw [UInt8.toNat_add, h, Nat.mod_add_mod]
  exact hfold bytes 0 0 rfl

/-! ## The place of a computed field -/

namespace MessageEncoder

section Place

variable {d : Derived} {before : List Cell} {slot : FieldSlot}

theorem split_place (hbefore : ∀ c ∈ before, c.isDerived d = false) (hslot : slot.derived? = some d)
    (value : Option Bytes) (after : List Cell) :
    split d (before ++ .field slot value :: after) = (before, some slot.tag, after) := by
  induction before with
  | nil => exact split_of_derived (by simp [Cell.isDerived, hslot]) after
  | cons c rest ih =>
    obtain ⟨hc, hrest⟩ := List.forall_mem_cons.1 hbefore
    rw [List.cons_append, split_of_not hc, ih hrest]

theorem setFirst_place (hbefore : ∀ c ∈ before, c.isDerived d = false) (hslot : slot.derived? = some d)
    (value : Option Bytes) (new : Bytes) (after : List Cell) :
    setFirst (Cell.isDerived d) new (before ++ .field slot value :: after) =
      before ++ .field slot (some new) :: after := by
  induction before with
  | nil =>
    rw [List.nil_append, setFirst, if_pos (by simp [Cell.isDerived, hslot])]
    rfl
  | cons c rest ih =>
    obtain ⟨hc, hrest⟩ := List.forall_mem_cons.1 hbefore
    rw [List.cons_append, setFirst_of_not hc, ih hrest, List.cons_append]

/-- If a layout has a computed field, then its cells have a cell for it, and none before that. -/
theorem exists_place {members : List Member} {cells : List Cell} (hfit : Fit members cells)
    (h : (members.filterMap Member.field?).find? (fun s => s.derived? == some d) = some slot) :
    ∃ before value after, cells = before ++ .field slot value :: after ∧
      (∀ c ∈ before, c.isDerived d = false) ∧ slot.derived? = some d := by
  induction hfit with
  | nil => cases h
  | @cons m c members cells hc hrest ih =>
    cases hc with
    | @field slot' value =>
      rw [List.filterMap_cons_some (f := Member.field?) rfl, List.find?_cons] at h
      cases hd : slot'.derived? == some d with
      | true =>
        rw [hd] at h
        obtain rfl := Option.some.inj h
        exact ⟨[], value, cells, rfl, nofun, by simpa using hd⟩
      | false =>
        rw [hd] at h
        obtain ⟨before, old, after, rfl, hbefore, hslot⟩ := ih h
        exact ⟨.field slot' value :: before, old, after, rfl, List.forall_mem_cons.2 ⟨hd, hbefore⟩, hslot⟩
    | @group slot' body live spare _ =>
      rw [List.filterMap_cons_none (f := Member.field?) rfl] at h
      obtain ⟨before, old, after, rfl, hbefore, hslot⟩ := ih h
      exact ⟨.group slot' body live spare :: before, old, after, rfl, List.forall_mem_cons.2 ⟨rfl, hbefore⟩, hslot⟩

end Place

/-! ## Both fields -/

/-- The two computed fields of an encoder, and the cells around them. -/
structure ComputedFields where
  lengthSlot : FieldSlot
  sumSlot : FieldSlot
  beforeLength : List Cell
  afterLength : List Cell
  beforeSum : List Cell
  afterSum : List Cell
  isLength : lengthSlot.derived? = some .bodyLength
  isSum : sumSlot.derived? = some .checkSum
  first_length : ∀ c ∈ beforeLength, c.isDerived .bodyLength = false
  first_sum : ∀ c ∈ beforeSum, c.isDerived .checkSum = false

namespace ComputedFields

/-- An encoder with values in its computed fields. -/
def hold (f : ComputedFields) (e : MessageEncoder) (length sum : Option Bytes) : MessageEncoder :=
  { e with
    header := f.beforeLength ++ .field f.lengthSlot length :: f.afterLength
    trailer := f.beforeSum ++ .field f.sumSlot sum :: f.afterSum }

/-- The bytes that the length counts. -/
def counted (f : ComputedFields) (e : MessageEncoder) : Bytes :=
  written f.afterLength ++ written e.body ++ written f.beforeSum

/-- The message. -/
def message (f : ComputedFields) (e : MessageEncoder) : Bytes :=
  framed f.lengthSlot.tag f.sumSlot.tag (written f.beforeLength) (f.counted e) (written f.afterSum)

variable (f : ComputedFields) (e : MessageEncoder) (length sum : Option Bytes)

theorem bodyLength_hold : (f.hold e length sum).bodyLength = (f.counted e).length := by
  rw [bodyLength, hold, split_place f.first_length f.isLength, split_place f.first_sum f.isSum, counted,
    List.length_append, List.length_append, length_written, length_written, length_written]

theorem measured_hold :
    (f.hold e length sum).measured = f.hold e (some (Natural.digits (f.counted e).length)) sum := by
  rw [measured, bodyLength_hold, hold]
  dsimp only
  rw [setFirst_place f.first_length f.isLength]
  rfl

theorem written_place (slot : FieldSlot) (value : Bytes) (before after : List Cell) :
    written (before ++ .field slot (some value) :: after) =
      written before ++ fieldBytes slot.tag value ++ written after := by
  rw [written_append, written_cons, Cell.written, if_pos (by simp), List.append_assoc]
  rfl

theorem summed_hold : (f.hold e length sum).summed =
    lengthFramed f.lengthSlot.tag (written f.beforeLength) (f.counted e) := by
  rw [summed, measured_hold, hold, hold]
  dsimp only
  rw [written_place, split_place f.first_sum f.isSum, lengthFramed, counted]
  simp only [List.append_assoc]

/-- The checksum of the message, as it is written. -/
def sumText (f : ComputedFields) (e : MessageEncoder) : Bytes :=
  Natural.padded 3 (total (lengthFramed f.lengthSlot.tag (written f.beforeLength) (f.counted e)) % 256)

theorem computed_hold : (f.hold e length sum).computed =
    f.hold e (some (Natural.digits (f.counted e).length)) (some (f.sumText e)) := by
  rw [computed, summed_hold, measured_hold, checksumText, toNat_checksum]
  rw [hold, hold]
  dsimp only
  rw [setFirst_place f.first_sum f.isSum]
  rfl

theorem wire_hold : (f.hold e length sum).wire = f.message e := by
  rw [wire, computed_hold, hold]
  dsimp only
  rw [written_place, written_place, message, framed, ← sumText, lengthFramed, counted]
  simp only [List.append_assoc]

theorem encodedLength_hold : (f.hold e length sum).encodedLength = (f.message e).length := by
  rw [← length_wire, wire_hold]

variable {f e length sum}

/-- The message is written where there is room for it, whatever values are in its computed fields. -/
theorem encode_hold {buffer : Bytes} {offset : Nat} (h : (f.message e).length ≤ buffer.length - offset) :
    (f.hold e length sum).encode buffer offset =
      (.ok (f.message e).length, f.hold e (some (Natural.digits (f.counted e).length)) (some (f.sumText e)),
        buffer.overwrite offset (f.message e)) := by
  rw [encode_of_room (by rwa [encodedLength_hold]), encodedLength_hold, computed_hold, wire_hold]

end ComputedFields

variable {l : MessageLayout} {version : String} {e : MessageEncoder} {lengthSlot sumSlot : FieldSlot}

/-- The computed fields of an encoder in use. -/
theorem Used.exists_computedFields (hused : Used (make l version) e)
    (hlength : l.header.derived? .bodyLength = some lengthSlot)
    (hsum : l.trailer.derived? .checkSum = some sumSlot) :
    ∃ (f : ComputedFields) (length sum : Option Bytes),
      f.lengthSlot = lengthSlot ∧ f.sumSlot = sumSlot ∧ e = f.hold e length sum := by
  have hsuits := hused.suits (suits_make l version)
  obtain ⟨beforeLength, length, afterLength, hheader, hfirst, hderived⟩ := exists_place (hsuits.fit .header) hlength
  obtain ⟨beforeSum, sum, afterSum, htrailer, hfirst', hderived'⟩ := exists_place (hsuits.fit .trailer) hsum
  refine ⟨⟨lengthSlot, sumSlot, beforeLength, afterLength, beforeSum, afterSum, hderived, hderived', hfirst, hfirst'⟩,
    length, sum, rfl, rfl, ?_⟩
  rw [ComputedFields.hold, ← hheader, ← htrailer]
  rfl

/-- A message carries its length and its checksum. The header has a field for the one and the trailer for the other, and
the encoder has been used in any way, values set on these fields included. Where there is room, what is written has the
form of a message : it does not depend on the values in the two fields, and is written again by the encoder that is
left. -/
theorem encode_framed (hused : Used (make l version) e) (hlength : l.header.derived? .bodyLength = some lengthSlot)
    (hsum : l.trailer.derived? .checkSum = some sumSlot) {buffer : Bytes} {offset : Nat}
    (hroom : e.encodedLength ≤ buffer.length - offset) :
    ∃ (f : ComputedFields) (length sum : Option Bytes),
      f.lengthSlot = lengthSlot ∧ f.sumSlot = sumSlot ∧ e = f.hold e length sum ∧
      let counted := written f.afterLength ++ written e.body ++ written f.beforeSum
      let message := framed lengthSlot.tag sumSlot.tag (written f.beforeLength) counted (written f.afterSum)
      ∃ e' buffer', e.encode buffer offset = (.ok message.length, e', buffer') ∧
        buffer'.window offset message.length = message ∧
        (∀ length' sum', (f.hold e length' sum').encode buffer offset = e.encode buffer offset) ∧
        ∀ (next : Bytes) (start : Nat), message.length ≤ next.length - start →
          ∃ e'' next', e'.encode next start = (.ok message.length, e'', next') ∧
            next'.window start message.length = message := by
  obtain ⟨f, length, sum, rfl, rfl, he⟩ := hused.exists_computedFields hlength hsum
  have hmessage : (f.message e).length ≤ buffer.length - offset := by
    rwa [he, ComputedFields.encodedLength_hold] at hroom
  have hencode : e.encode buffer offset = _ := (congrArg (·.encode buffer offset) he).trans (f.encode_hold hmessage)
  refine ⟨f, length, sum, rfl, rfl, he, _, _, hencode, Bytes.window_overwrite hmessage, fun length' sum' => ?_,
    fun next start hnext => ?_⟩
  · rw [hencode, f.encode_hold hmessage]
  · exact ⟨_, _, f.encode_hold hnext, Bytes.window_overwrite hnext⟩

/-- A message on whose length another one has been set, written twice. -/
theorem encode_framed_set :
    let e := ((make Sample.layout "FIX.4.4").setPart .body
        [.group Sample.legs Sample.leg [] [], .field ⟨Sample.field 55 "Symbol", true⟩ (some (Bytes.ofString "E"))]).setPart
      .header [.field ⟨Sample.field 8 "BeginString", true⟩ (some (Bytes.ofString "FIX.4.4")),
        .field ⟨Sample.length, true⟩ (some (Bytes.ofString "777")),
        .field ⟨Sample.field 35 "MsgType", true⟩ (some (Bytes.ofString "S"))]
    let buffer : Bytes := List.replicate 40 0
    let message := Sample.bytes "8=FIX.4.4|9=10|35=S|55=E|10=223|"
    Used (make Sample.layout "FIX.4.4") e ∧
      Sample.layout.header.derived? .bodyLength = some ⟨Sample.length, true⟩ ∧
      Sample.layout.trailer.derived? .checkSum = some ⟨Sample.field 10 "CheckSum", true⟩ ∧
      e.encodedLength ≤ buffer.length - 7 ∧
      ∃ e' buffer', e.encode buffer 7 = (.ok 32, e', buffer') ∧ buffer'.window 7 32 = message ∧
        ∃ e'' next', e'.encode (List.replicate 32 0xff) 0 = (.ok 32, e'', next') ∧ next'.window 0 32 = message := by
  intro e buffer message
  have h₀ : Used (make Sample.layout "FIX.4.4") (make Sample.layout "FIX.4.4") := .new
  have hused : Used (make Sample.layout "FIX.4.4") e :=
    (h₀.change .body [] (.text 55 "E") rfl rfl).change .header [] (.int 9 777) rfl rfl
  have hlength : Sample.layout.header.derived? .bodyLength = some ⟨Sample.length, true⟩ := by decide +kernel
  have hsum : Sample.layout.trailer.derived? .checkSum = some ⟨Sample.field 10 "CheckSum", true⟩ := by decide +kernel
  have hroom : e.encodedLength ≤ buffer.length - 7 := by decide +kernel
  obtain ⟨f, length, sum, -, -, -, e', buffer', hencode, hwindow, -, hagain⟩ :=
    encode_framed hused hlength hsum hroom
  generalize framed _ _ _ _ _ = bytes at hencode hwindow hagain
  have h32 : bytes.length = 32 := by
    have hcount : (e.encode buffer 7).1 = .ok 32 := eq_ok_of_toOption (by decide +kernel)
    rw [hencode] at hcount
    exact Except.ok.inj hcount
  have hmessage : bytes = message := by
    have hbytes : (e.encode buffer 7).2.2.window 7 32 = message := by decide +kernel
    rwa [hencode, ← h32, hwindow] at hbytes
  rw [h32] at hencode hwindow hagain
  obtain ⟨e'', next', hencode', hwindow'⟩ := hagain (List.replicate 32 0xff) 0 (by decide)
  rw [hmessage] at hwindow hwindow'
  exact ⟨hused, hlength, hsum, hroom, e', buffer', hencode, hwindow, e'', next', hencode', hwindow'⟩

end MessageEncoder

end FixWire
