import FixWire.Encoder.Calls
import FixWire.Proofs.Encoder.Room
import FixWire.Proofs.Number.Integers

/-!
# A cursor is a log of whole fields

The four steps of a field write as many bytes as have been announced for it, so that none of them can fail after the
room has been checked, and a field is written as a whole or not at all (`Cursor.call?_eq`). Whatever is called at a
cursor, the bytes from its offset to its position are the fields of the calls that succeeded, in order, and the buffer
is otherwise as it was (`Cursor.calls?_put`, `Cursor.logs_calls`).
-/

namespace FixWire

/-! ## The bytes of a call -/

namespace FieldCall

/-- The value as it is written. -/
def value : FieldCall → Bytes
  | field _ value => value
  | int _ n => Integer.text n
  | checksum _ sum => checksumText sum

/-- The field as it is written : `tag=value` and the byte that ends it. -/
def text (f : FieldCall) : Bytes :=
  Natural.digits f.tag ++ equalsSign :: f.value ++ [soh]

theorem text_eq (f : FieldCall) : f.text = Natural.digits f.tag ++ ([equalsSign] ++ (f.value ++ [soh])) := by
  rw [text, List.append_assoc]
  rfl

theorem length_value (f : FieldCall) : f.value.length = f.valueLength := by
  cases f with
  | field => rfl
  | int _ n => exact (Integer.length_text n).trans (Integer.countBytes_eq n).symm
  | checksum _ sum => exact Natural.length_padded 3 _

theorem length_eq (f : FieldCall) : f.length = fieldLength f.tag f.valueLength := by
  rw [length, Natural.countDigits_eq, fieldLength]

/-- The announced length is the number of bytes that are written. -/
theorem length_text (f : FieldCall) : f.text.length = f.length := by
  rw [length_eq, ← length_value]
  exact length_fieldBytes f.tag f.value

theorem puts_value (f : FieldCall) : Bytes.Puts (putValue? · · f) f.value := by
  cases f with
  | field _ value => exact Bytes.puts_slice value
  | int _ n => exact Bytes.puts_int n
  | checksum _ sum => exact Bytes.puts_checksum sum

end FieldCall

/-! ## One call -/

namespace Cursor

variable {c : Cursor} {a b : Bytes} {write : Bytes → Nat → Option (Bytes × Nat)}

/-- A step behind others, which have written `a`, if both end inside the buffer. -/
theorem advance?_put (h : Bytes.Puts write b) (hroom : c.position + (a.length + b.length) ≤ c.buffer.length) :
    (c.put a).advance? write = some (c.put (a ++ b)) := by
  have hlength : (c.put a).buffer.length = c.buffer.length := Bytes.length_overwrite (by omega)
  have hinside : (c.put a).position + b.length ≤ (c.put a).buffer.length := by
    rw [hlength, put]
    dsimp only
    omega
  rw [advance?, h, if_pos hinside, Option.map_some, ← put_put (by rw [remaining]; omega)]
  rfl

/-- All steps of a call end inside the buffer if there is room for the announced length, and together they write the
field. Without that room nothing is done. -/
theorem call?_eq (c : Cursor) (f : FieldCall) :
    c.call? f = some (if f.length ≤ c.remaining then (.ok (), c.put f.text)
      else (.error (.bufferTooShort f.length c.remaining), c)) := by
  rw [call?, ensure]
  by_cases hroom : f.length ≤ c.remaining
  · have hlength := f.length_text
    have hpos : 0 < f.length := by
      rw [FieldCall.length]
      omega
    have hsplit := congrArg List.length f.text_eq
    simp only [List.length_append, List.length_singleton] at hsplit
    rw [if_neg (by omega), if_pos hroom]
    rw [remaining] at hroom
    dsimp only
    have htag := advance?_put (c := c) (a := []) (Bytes.puts_natural f.tag) (by simp; omega)
    have hequals := advance?_put (c := c) (a := Natural.digits f.tag) (Bytes.puts_byte equalsSign) (by simp; omega)
    have hvalue := advance?_put (c := c) (a := Natural.digits f.tag ++ [equalsSign]) f.puts_value (by simp; omega)
    have hsoh := advance?_put (c := c) (a := Natural.digits f.tag ++ [equalsSign] ++ f.value) (Bytes.puts_byte soh)
      (by simp; omega)
    rw [put_nil, List.nil_append] at htag
    simp only [htag, hequals, hvalue, hsoh, Option.bind_eq_bind, Option.bind_some]
    rw [f.text_eq]
    simp
  · rw [if_pos (by omega), if_neg hroom]

/-- The four steps do what the writer of complete fields does. -/
theorem call?_eq_run (c : Cursor) (f : FieldCall) : c.call? f = some (f.write.run c) := by
  have hrun : f.write.run c = if f.length ≤ c.remaining then (.ok (), c.put f.text)
      else (.error (.bufferTooShort f.length c.remaining), c) := by
    rw [f.length_eq]
    cases f with
    | field tag value => exact Write.run_sized tag _ value c
    | int tag n =>
      rw [FieldCall.valueLength, Integer.countBytes_eq]
      exact Write.run_sized tag _ (Integer.text n) c
    | checksum tag sum => exact Write.run_sized tag _ (checksumText sum) c
  rw [hrun, call?_eq]

/-! ## Calls one after another -/

/-- The fields of the calls that succeeded, one behind the other. -/
def log (calls : List FieldCall) (outcomes : List (Except FieldError Unit)) : Bytes :=
  ((calls.zip outcomes).filter (·.2.isOk)).flatMap (·.1.text)

theorem log_cons (f : FieldCall) (calls : List FieldCall) (outcome : Except FieldError Unit)
    (outcomes : List (Except FieldError Unit)) :
    log (f :: calls) (outcome :: outcomes) = (if outcome.isOk then f.text else []) ++ log calls outcomes := by
  rw [log, List.zip_cons_cons, List.filter_cons]
  split <;> simp [log, *]

theorem calls?_concat {calls : List FieldCall} {outcomes : List (Except FieldError Unit)} {c c' c'' : Cursor}
    {f : FieldCall} {outcome : Except FieldError Unit} (h : c.calls? calls = some (outcomes, c'))
    (hf : c'.call? f = some (outcome, c'')) : c.calls? (calls ++ [f]) = some (outcomes ++ [outcome], c'') := by
  induction calls generalizing c outcomes with
  | nil =>
    obtain ⟨rfl, rfl⟩ : [] = outcomes ∧ c = c' := by simpa [calls?] using h
    simp [calls?, hf]
  | cons g rest ih =>
    obtain ⟨⟨first, c₁⟩, hg, hrest⟩ := Option.bind_eq_some_iff.1 h
    obtain ⟨⟨others, c₂⟩, hothers, hlast⟩ := Option.bind_eq_some_iff.1 hrest
    obtain ⟨rfl, rfl⟩ : first :: others = outcomes ∧ c₂ = c' := by simpa using hlast
    simp [calls?, hg, ih hothers]

/-- Behind what has been written, the calls write their log. -/
theorem calls?_put (calls : List FieldCall) {c : Cursor} {a : Bytes} (ha : a.length ≤ c.remaining) :
    ∃ outcomes, (c.put a).calls? calls = some (outcomes, c.put (a ++ log calls outcomes)) ∧
      outcomes.length = calls.length ∧ (a ++ log calls outcomes).length ≤ c.remaining := by
  induction calls generalizing a with
  | nil => exact ⟨[], by simp [calls?, log], rfl, by simpa [log] using ha⟩
  | cons f rest ih =>
    by_cases hroom : f.length ≤ (c.put a).remaining
    · have hlength := f.length_text
      rw [remaining_put ha] at hroom
      obtain ⟨outcomes, hrun, hcount, hfits⟩ := ih (a := a ++ f.text) (by rw [List.length_append]; omega)
      refine ⟨.ok () :: outcomes, ?_, congrArg (· + 1) hcount, ?_⟩
      · rw [log_cons, calls?, call?_eq, if_pos (by rwa [remaining_put ha]), put_put ha]
        simp [hrun, Except.isOk, Except.toBool]
      · rw [log_cons]
        simpa [Except.isOk, Except.toBool] using hfits
    · obtain ⟨outcomes, hrun, hcount, hfits⟩ := ih ha
      refine ⟨.error (.bufferTooShort f.length (c.put a).remaining) :: outcomes, ?_, congrArg (· + 1) hcount, ?_⟩
      · rw [log_cons, calls?, call?_eq, if_neg hroom]
        simp [hrun, Except.isOk, Except.toBool]
      · rw [log_cons]
        simpa [Except.isOk, Except.toBool] using hfits

/-- Between its offset and its position the cursor holds the text, and the buffer is otherwise as it was. -/
structure Logs (buffer : Bytes) (offset : Nat) (text : Bytes) (c : Cursor) : Prop where
  slice_eq : c.buffer.slice offset c.position = text
  offset_eq : c.offset = offset
  position_eq : c.position = offset + text.length
  /-- The position never passes the end of the buffer. -/
  position_le : offset ≤ buffer.length → c.position ≤ buffer.length
  length_eq : c.buffer.length = buffer.length
  outside : ∀ i, i < offset ∨ c.position ≤ i → c.buffer[i]? = buffer[i]?

theorem logs_put {buffer text : Bytes} {offset : Nat} (h : text.length ≤ (start buffer offset).remaining) :
    Logs buffer offset text ((start buffer offset).put text) := by
  change text.length ≤ buffer.length - offset at h
  refine ⟨?_, rfl, rfl, fun hoffset => ?_, Bytes.length_overwrite h, fun i => Bytes.getElem?_overwrite h⟩
  · change (buffer.overwrite offset text).window offset (offset + text.length - offset) = text
    rw [Nat.add_sub_cancel_left, Bytes.window_overwrite h]
  · change offset + text.length ≤ buffer.length
    omega

/-- After any calls at a cursor it holds the fields of those that succeeded, in order. The next call succeeds exactly
where there is room for the announced length, which is that of its field, and otherwise leaves the cursor and the buffer
as they are. -/
theorem logs_calls (buffer : Bytes) (offset : Nat) (calls : List FieldCall) :
    ∃ outcomes c, (start buffer offset).calls? calls = some (outcomes, c) ∧ outcomes.length = calls.length ∧
      Logs buffer offset (log calls outcomes) c ∧
      ∀ f : FieldCall, f.length = fieldLength f.tag f.valueLength ∧ f.length = f.text.length ∧
        ∃ outcome c', c.call? f = some (outcome, c') ∧ f.write.run c = (outcome, c') ∧
          (start buffer offset).calls? (calls ++ [f]) = some (outcomes ++ [outcome], c') ∧
          (outcome = .ok () ↔ f.length ≤ c.buffer.length - c.position) ∧ (outcome ≠ .ok () → c' = c) := by
  obtain ⟨outcomes, hrun, hcount, hfits⟩ := calls?_put calls (c := start buffer offset) (a := []) (Nat.zero_le _)
  rw [put_nil, List.nil_append] at hrun
  refine ⟨outcomes, _, hrun, hcount, logs_put hfits, fun f => ⟨f.length_eq, f.length_text.symm, ?_⟩⟩
  obtain ⟨⟨outcome, c'⟩, hcall⟩ : ∃ after, ((start buffer offset).put (log calls outcomes)).call? f = some after :=
    ⟨_, call?_eq _ f⟩
  have hstep := Option.some.inj (hcall.symm.trans (call?_eq _ f))
  refine ⟨outcome, c', hcall, Option.some.inj ((call?_eq_run _ f).symm.trans hcall), calls?_concat hrun hcall, ?_⟩
  generalize (start buffer offset).put (log calls outcomes) = c at hstep ⊢
  by_cases hroom : f.length ≤ c.remaining
  · rw [if_pos hroom] at hstep
    cases hstep
    exact ⟨iff_of_true rfl hroom, fun h => absurd rfl h⟩
  · rw [if_neg hroom] at hstep
    cases hstep
    exact ⟨iff_of_false (by rintro ⟨⟩) hroom, fun _ => rfl⟩

/-- Of three fields the second does not fit, and the third still does. -/
example : ((start (List.replicate 10 0x2e) 1).calls? [.int 34 (-7), .field 8 [0x41, 0x42], .field 8 []]).map
      (fun run => (run.1.map Except.isOk, run.2.buffer, run.2.position)) =
    some ([true, false, true], [0x2e, 0x33, 0x34, 0x3d, 0x2d, 0x37, 0x01, 0x38, 0x3d, 0x01], 10) := by
  decide +kernel

end Cursor

end FixWire
