import FixWire.Proofs.Codecs.Registry
import FixWire.Proofs.Codecs.TypeKeys

/-!
# Looking messages up by type

An index that is filled message by message leads from each key to the one message that has it (`TypeIndex.Exact`), and
there is an index for some messages exactly if no two of them have the same key. Because the type itself is compared
once a message has been found, codecs find the message of a type if there is one, and nothing otherwise
(`lookup_exact`).
-/

namespace FixWire

theorem getElem?_concat_eq_some_iff {α : Type} {as : List α} {a b : α} {index : Nat} :
    (as ++ [a])[index]? = some b ↔ as[index]? = some b ∨ index = as.length ∧ a = b := by
  rw [List.getElem?_append]
  split_ifs with hlt
  · exact ⟨.inl, fun h => h.resolve_right fun heq => Nat.ne_of_lt hlt heq.1⟩
  · have hnone : as[index]? = none := List.getElem?_eq_none (Nat.le_of_not_lt hlt)
    rw [hnone, List.getElem?_singleton]
    split_ifs with heq
    · simp only [Option.some.injEq, false_or]
      exact (and_iff_right (by omega)).symm
    · simp only [false_or, false_iff, not_and]
      exact fun h => absurd h (by omega)

/-- Two message types have one key if they are packed into the same number. -/
theorem MessageLayout.key_eq_iff {m m' : MessageLayout} :
    m'.key = m.key ↔ MsgType.packed m'.typeBytes = MsgType.packed m.typeBytes := by
  rw [key, key, MsgType.key_eq_iff, MsgType.packed_eq_iff]

namespace TypeIndex

/-- Every message of the index, and nothing else, is found under its key. -/
def Exact (t : TypeIndex) : Prop :=
  ∀ key position, t.positions[key]? = some position ↔
    ∃ m, t.messages[position]? = some m ∧ MsgType.packed m.typeBytes = key

theorem exact_empty : empty.Exact := by
  intro key position
  simp [empty]

variable {t t' : TypeIndex} {m : MessageLayout}

/-- A message whose key is new is found under it, and those before it are found as before. -/
theorem Exact.add (ht : t.Exact) (h : t.add m = .ok t') : t'.Exact ∧ t'.messages = t.messages ++ [m] := by
  rw [TypeIndex.add] at h
  split at h
  next => cases h
  next hnew =>
    obtain rfl := Except.ok.inj h
    refine ⟨fun key position => ?_, rfl⟩
    dsimp only
    simp only [Std.HashMap.getElem?_insert, beq_iff_eq, getElem?_concat_eq_some_iff]
    split_ifs with hkey
    · subst hkey
      rw [Option.some.injEq]
      constructor
      · rintro rfl
        exact ⟨m, .inr ⟨rfl, rfl⟩, rfl⟩
      · rintro ⟨m', hm' | ⟨rfl, -⟩, hkey⟩
        · rw [(ht _ _).2 ⟨m', hm', hkey⟩] at hnew
          cases hnew
        · rfl
    · rw [ht]
      constructor
      · rintro ⟨m', hm', hkey'⟩
        exact ⟨m', .inl hm', hkey'⟩
      · rintro ⟨m', hm' | ⟨-, rfl⟩, hkey'⟩
        · exact ⟨m', hm', hkey'⟩
        · exact absurd hkey' hkey

/-- A message whose key is taken is refused, and the error names both types. -/
theorem Exact.add_of_mem (ht : t.Exact) {m' : MessageLayout} (hm' : m' ∈ t.messages) (hkey : m'.key = m.key) :
    t.add m = .error (m'.type, m.type) := by
  obtain ⟨position, hposition⟩ := List.getElem?_of_mem hm'
  have hfound := (ht _ _).2 ⟨m', hposition, MessageLayout.key_eq_iff.1 hkey⟩
  rw [TypeIndex.add]
  split
  next previous hprevious =>
    obtain rfl := Option.some.inj (hprevious.symm.trans hfound)
    obtain ⟨_, hget⟩ := List.getElem?_eq_some_iff.1 hposition
    rw [List.get_eq_getElem, hget]
  next hnone => rw [hfound] at hnone; cases hnone

/-- A message whose key is new is added. -/
theorem Exact.exists_add (ht : t.Exact) (hnew : ∀ m' ∈ t.messages, m'.key ≠ m.key) : ∃ t', t.add m = .ok t' := by
  rw [TypeIndex.add]
  split
  next previous hprevious =>
    obtain ⟨m', hm', hkey⟩ := (ht _ _).1 hprevious
    exact absurd (MessageLayout.key_eq_iff.2 hkey) (hnew m' (List.mem_of_getElem? hm'))
  next => exact ⟨_, rfl⟩

/-- Adding messages to an index stops at the first one whose key another one has. The induction is on the messages. -/
theorem Exact.foldlM_add (ht : t.Exact) (earlier ms : List MessageLayout) (hearlier : ∀ m, m ∈ earlier ↔ m ∈ t.messages) :
    (∀ types, keyClash? earlier ms = some types → ms.foldlM TypeIndex.add t = .error types) ∧
      (keyClash? earlier ms = none →
        ∃ t', ms.foldlM TypeIndex.add t = .ok t' ∧ t'.Exact ∧ t'.messages = t.messages ++ ms) := by
  induction ms generalizing earlier t with
  | nil => exact ⟨fun types h => absurd h (Option.some_ne_none types).symm, fun _ => ⟨_, rfl, ht, (List.append_nil _).symm⟩⟩
  | cons m rest ih =>
    rw [keyClash?]
    cases hfind : earlier.find? fun m' => m'.key == m.key with
    | some m' =>
      have hkey := List.find?_some hfind
      have hadd := ht.add_of_mem ((hearlier m').1 (List.mem_of_find?_eq_some hfind)) (eq_of_beq hkey)
      refine ⟨fun types htypes => ?_, fun h => absurd h (Option.some_ne_none _)⟩
      obtain rfl := Option.some.inj htypes
      rw [List.foldlM_cons, hadd]
      rfl
    | none =>
      -- The list of earlier messages grows in front and the index at its end, so they agree as sets only.
      have hnew : ∀ m' ∈ t.messages, m'.key ≠ m.key := fun m' hm' hkey =>
        List.find?_eq_none.1 hfind m' ((hearlier m').2 hm') (beq_iff_eq.2 hkey)
      obtain ⟨t', ht'⟩ := ht.exists_add hnew
      obtain ⟨hexact, hmessages⟩ := ht.add ht'
      obtain ⟨hclash, hnone⟩ := ih hexact (m :: earlier) fun m' => by
        rw [hmessages, List.mem_cons, List.mem_append, List.mem_singleton, hearlier, or_comm]
      rw [List.foldlM_cons, ht']
      refine ⟨hclash, fun h => ?_⟩
      obtain ⟨t'', hfold, hexact', hmessages'⟩ := hnone h
      exact ⟨t'', hfold, hexact', by rw [hmessages', hmessages, List.append_assoc, List.singleton_append]⟩

/-- Two messages of which the first has the key of the second are told, and otherwise there is an index of them all. -/
theorem build_spec (ms : List MessageLayout) :
    (∀ types, build ms = .error types ↔ keyClash? [] ms = some types) ∧
      (keyClash? [] ms = none → ∃ t, build ms = .ok t ∧ t.Exact ∧ t.messages = ms) := by
  obtain ⟨hclash, hnone⟩ := exact_empty.foldlM_add [] ms fun m => by simp [empty]
  refine ⟨fun types => ⟨fun h => ?_, hclash types⟩, hnone⟩
  cases hkeys : keyClash? [] ms with
  | some types' => exact congrArg some (Except.error.inj ((hclash types' hkeys).symm.trans h))
  | none =>
    obtain ⟨t, ht, -⟩ := hnone hkeys
    cases h.symm.trans ht

/-- A message is found if it is there and its type is the one that is asked for. -/
theorem Exact.find?_eq_some_iff (ht : t.Exact) {type : Bytes} :
    t.find? type = some m ↔ m ∈ t.messages ∧ m.typeBytes = type := by
  rw [find?]
  split
  next position hposition =>
    obtain ⟨m', hm', hkey⟩ := (ht _ _).1 hposition
    obtain ⟨_, hget⟩ := List.getElem?_eq_some_iff.1 hm'
    rw [List.get_eq_getElem, hget, Option.filter_eq_some_iff, beq_iff_eq, Option.some.injEq]
    constructor
    · rintro ⟨rfl, htype⟩
      exact ⟨List.mem_of_getElem? hm', htype⟩
    · rintro ⟨hmem, htype⟩
      obtain ⟨position', hposition'⟩ := List.getElem?_of_mem hmem
      have hsame := hposition.symm.trans ((ht _ _).2 ⟨m, hposition', congrArg MsgType.packed htype⟩)
      obtain rfl := Option.some.inj hsame
      obtain rfl := Option.some.inj (hm'.symm.trans hposition')
      exact ⟨rfl, htype⟩
  next hnone =>
    refine ⟨fun h => absurd h.symm (Option.some_ne_none m), ?_⟩
    rintro ⟨hmem, htype⟩
    obtain ⟨position, hposition⟩ := List.getElem?_of_mem hmem
    rw [(ht _ _).2 ⟨m, hposition, congrArg MsgType.packed htype⟩] at hnone
    cases hnone

end TypeIndex

/-! ## Message types of a dictionary -/

namespace Dictionary

/-- If no type is declared again, all are different, and different from those before. -/
theorem nodup_of_sharedType?_eq_none {ms : List Message} {seen : List (String × String)}
    (h : sharedType? seen ms = none) :
    (ms.map Message.type).Nodup ∧ ∀ m ∈ ms, seen.lookup m.type = none := by
  induction ms generalizing seen with
  | nil => exact ⟨List.nodup_nil, fun _ hm => absurd hm List.not_mem_nil⟩
  | cons m rest ih =>
    rw [sharedType?] at h
    cases hm : seen.lookup m.type with
    | some name =>
      rw [hm] at h
      cases h
    | none =>
      rw [hm] at h
      obtain ⟨hnodup, hseen⟩ := ih h
      refine ⟨?_, List.forall_mem_cons.2 ⟨hm, fun m' hm' => ?_⟩⟩
      · rw [List.map_cons, List.nodup_cons, List.mem_map, not_exists]
        refine ⟨fun m' h => ?_, hnodup⟩
        have hlookup := hseen m' h.1
        rw [h.2, List.lookup_cons_self] at hlookup
        cases hlookup
      · have hlookup := hseen m' hm'
        rw [List.lookup_cons] at hlookup
        split at hlookup
        · cases hlookup
        · exact hlookup

theorem checked_of_check?_eq_none {d : Dictionary} (h : d.check? = none) :
    d.fault? = none ∧ (d.messages.map Message.type).Nodup := by
  simp only [check?, Option.or_eq_none_iff, Option.map_eq_none_iff] at h
  obtain ⟨hfields, htypes, hgroups, hcycle⟩ := h
  refine ⟨?_, (nodup_of_sharedType?_eq_none htypes).1⟩
  rw [fault?, hfields, hgroups, hcycle]
  rfl

/-- The layout at a position is that of the message there. -/
theorem getElem?_messageLayouts {d : Dictionary} {index : Nat} {m : Message} (h : d.messages[index]? = some m) :
    ∃ l, d.messageLayouts[index]? = some l ∧ l.type = m.type := by
  rw [messageLayouts, List.getElem?_mapIdx, h]
  exact ⟨_, rfl, rfl⟩

theorem types_messageLayouts (d : Dictionary) :
    d.messageLayouts.map MessageLayout.type = d.messages.map Message.type := by
  refine List.ext_getElem? fun index => ?_
  rw [messageLayouts, List.getElem?_map, List.getElem?_map, List.getElem?_mapIdx, Option.map_map]
  rfl

/-- Two types of a dictionary that are different but agree in their first eight bytes, NUL standing for those that are
not there. -/
def Clash (d : Dictionary) (first second : String) : Prop :=
  first ∈ d.messages.map Message.type ∧ second ∈ d.messages.map Message.type ∧ first ≠ second ∧
    MsgType.padded (Bytes.ofString first) = MsgType.padded (Bytes.ofString second)

end Dictionary

/-- The messages of different types whose keys are told to be the same. -/
theorem exists_of_keyClash? {ms earlier : List MessageLayout} {types : String × String}
    (hnodup : ((ms ++ earlier).map MessageLayout.type).Nodup) (h : keyClash? earlier ms = some types) :
    ∃ m' ∈ ms ++ earlier, ∃ m ∈ ms ++ earlier, types = (m'.type, m.type) ∧ m'.type ≠ m.type ∧ m'.key = m.key := by
  induction ms generalizing earlier with
  | nil => cases h
  | cons m rest ih =>
    rw [keyClash?] at h
    cases hfind : earlier.find? fun m' => m'.key == m.key with
    | some m' =>
      rw [hfind] at h
      have hm' := List.mem_of_find?_eq_some hfind
      have hkey := List.find?_some hfind
      refine ⟨m', List.mem_append_right _ hm', m, List.mem_cons_self, (Option.some.inj h).symm, fun htype => ?_,
        eq_of_beq hkey⟩
      exact (List.nodup_cons.1 hnodup).1 (htype ▸ List.mem_map_of_mem (List.mem_append_right rest hm'))
    | none =>
      rw [hfind] at h
      have hperm : (rest ++ m :: earlier).Perm (m :: rest ++ earlier) := List.perm_middle
      obtain ⟨m₁, hm₁, m₂, hm₂, hrest⟩ := ih ((hperm.map _).nodup_iff.2 hnodup) h
      exact ⟨m₁, hperm.subset hm₁, m₂, hperm.subset hm₂, hrest⟩

namespace Codecs

variable {d : Dictionary} {validating : Bool} {c : Codecs}

/-- A clash that is reported is a clash of two types of the dictionary. -/
theorem clash_of_keyClash? (htypes : (d.messages.map Message.type).Nodup) {types : String × String}
    (h : keyClash? [] d.messageLayouts = some types) : d.Clash types.1 types.2 := by
  rw [← d.types_messageLayouts, ← List.append_nil d.messageLayouts] at htypes
  obtain ⟨m', hm', m, hm, rfl, hne, hkey⟩ := exists_of_keyClash? htypes h
  rw [List.append_nil] at hm hm'
  rw [Dictionary.Clash, ← d.types_messageLayouts]
  exact ⟨List.mem_map_of_mem hm', List.mem_map_of_mem hm, hne, MsgType.key_eq_iff.1 hkey⟩

/-- Types do not clash if all keys are distinct. -/
theorem not_clash (hkeys : (d.messageLayouts.map MessageLayout.key).Nodup) {first second : String} :
    ¬d.Clash first second := by
  rintro ⟨hfirst, hsecond, hne, hagree⟩
  rw [← d.types_messageLayouts, List.mem_map] at hfirst hsecond
  obtain ⟨m', hm', rfl⟩ := hfirst
  obtain ⟨m, hm, rfl⟩ := hsecond
  exact hne (congrArg MessageLayout.type (List.inj_on_of_nodup_map hkeys hm' hm (MsgType.key_eq_iff.2 hagree)))

/-- Of a dictionary without faults there are codecs if no two keys clash. -/
theorem ofDictionary_cases (h : d.fault? = none) (validating : Bool) :
    (∃ types, keyClash? [] d.messageLayouts = some types ∧ ofDictionary d validating = .error (.keyClash types.1 types.2)) ∨
      (keyClash? [] d.messageLayouts = none ∧ ofDictionary d validating = .ok ⟨d, d.messageLayouts, validating⟩) := by
  rw [ofDictionary, h]
  cases keyClash? [] d.messageLayouts with
  | some types => exact .inl ⟨types, rfl, rfl⟩
  | none => exact .inr ⟨rfl, rfl⟩

/-- With distinct keys, a type is found exactly if it is that of one of the messages. -/
theorem message?_eq_some_iff (hkeys : (c.messages.map MessageLayout.key).Nodup) {type : Bytes} {l : MessageLayout} :
    c.message? type = some l ↔ l ∈ c.messages ∧ l.typeBytes = type := by
  rw [message?, Option.filter_eq_some_iff, find?_key_eq_some_iff hkeys, beq_iff_eq]
  constructor
  · rintro ⟨⟨hl, -⟩, htype⟩
    exact ⟨hl, htype⟩
  · rintro ⟨hl, htype⟩
    exact ⟨⟨hl, congrArg MsgType.key htype⟩, htype⟩

/-- Codecs find the message of a type, a decoder and an encoder for it if a dictionary has one, and nothing
otherwise. -/
structure Finds (c : Codecs) (d : Dictionary) (type : String) : Prop where
  found {index : Nat} {m : Message} (h : d.messages[index]? = some m) (htype : m.type = type) :
    ∃ l, d.messageLayouts[index]? = some l ∧ l.type = type ∧ c.message? (Bytes.ofString type) = some l ∧
      c.decoder type = .ok (c.newDecoder l) ∧ c.encoder type = .ok (.make l d.beginString)
  unknown (h : ∀ m ∈ d.messages, m.type ≠ type) :
    c.message? (Bytes.ofString type) = none ∧ c.decoder type = .error (.unknownType (Bytes.ofString type)) ∧
      c.encoder type = .error (.unknownType (Bytes.ofString type))

/-- With distinct keys, the finders find each type of the dictionary and nothing else. -/
theorem finds_of_nodup (hkeys : (d.messageLayouts.map MessageLayout.key).Nodup) (type : String) :
    Finds ⟨d, d.messageLayouts, validating⟩ d type where
  found h htype := by
    obtain ⟨l, hl, hltype⟩ := Dictionary.getElem?_messageLayouts h
    have hmessage := (message?_eq_some_iff (c := ⟨d, d.messageLayouts, validating⟩) hkeys).2
      ⟨List.mem_of_getElem? hl, congrArg Bytes.ofString (hltype.trans htype)⟩
    refine ⟨l, hl, hltype.trans htype, hmessage, ?_, ?_⟩
    · rw [decoder, require, hmessage]
      rfl
    · rw [encoder, require, hmessage]
      rfl
  unknown h := by
    have hmessage : message? ⟨d, d.messageLayouts, validating⟩ (Bytes.ofString type) = none := by
      refine Option.eq_none_iff_forall_ne_some.2 fun l hl => ?_
      obtain ⟨hmem, htype⟩ := (message?_eq_some_iff hkeys).1 hl
      have htypes := List.mem_map_of_mem (f := MessageLayout.type) hmem
      rw [d.types_messageLayouts, List.mem_map] at htypes
      obtain ⟨m, hm, hmtype⟩ := htypes
      exact h m hm (hmtype.trans (Bytes.ofString_inj.1 htype))
    refine ⟨hmessage, ?_, ?_⟩
    · rw [decoder, require, hmessage]
      rfl
    · rw [encoder, require, hmessage]
      rfl

/-- Message types are looked up exactly. Two keys are the same if the types agree in their first eight bytes, after
padding with NUL. So a dictionary that passes all checks is refused if, and only if, two of its types agree so;
otherwise its codecs find the message of every type that it has, by way of an index or without, and nothing for another
type. -/
theorem lookup_exact :
    (∀ a b : Bytes, MsgType.packed a = MsgType.packed b ↔ MsgType.padded a = MsgType.padded b) ∧
      ∀ (d : Dictionary) (validating : Bool), d.check? = none →
        ((∃ first second, ofDictionary d validating = .error (.keyClash first second)) ↔
          ∃ first second, d.Clash first second) ∧
        (∀ cause, ofDictionary d validating = .error cause → ∃ first second, cause = .keyClash first second ∧
          d.Clash first second ∧ TypeIndex.build d.messageLayouts = .error (first, second)) ∧
        ∀ c, ofDictionary d validating = .ok c →
          (∃ t, TypeIndex.build d.messageLayouts = .ok t ∧ ∀ type, t.find? type = c.message? type) ∧
            ∀ type, c.Finds d type := by
  refine ⟨fun _ _ => MsgType.packed_eq_iff, fun d validating hcheck => ?_⟩
  obtain ⟨hfault, htypes⟩ := Dictionary.checked_of_check?_eq_none hcheck
  obtain ⟨herror, hindex⟩ := TypeIndex.build_spec d.messageLayouts
  rcases ofDictionary_cases hfault validating with ⟨types, hkeys, h⟩ | ⟨hnone, h⟩
  · have hclash := clash_of_keyClash? htypes hkeys
    rw [h]
    refine ⟨⟨fun _ => ⟨_, _, hclash⟩, fun _ => ⟨_, _, rfl⟩⟩, fun cause hcause => ?_, nofun⟩
    exact ⟨_, _, (Except.error.inj hcause).symm, hclash, (herror types).2 hkeys⟩
  · have hkeys := (nodup_keys hnone).1
    obtain ⟨t, ht, hexact, hmessages⟩ := hindex hnone
    rw [h]
    refine ⟨⟨nofun, fun ⟨_, _, hclash⟩ => absurd hclash (not_clash hkeys)⟩, nofun, fun c hc => ?_⟩
    obtain rfl := Except.ok.inj hc
    refine ⟨⟨t, ht, fun type => Option.ext fun l => ?_⟩, finds_of_nodup hkeys⟩
    rw [hexact.find?_eq_some_iff, hmessages, message?_eq_some_iff hkeys]

end Codecs

/-- The sample with two messages whose types differ in the ninth byte. -/
def Sample.longTypes : Dictionary :=
  { dictionary with messages := [⟨"First", "QUOTEREQ1", .app, []⟩, ⟨"Second", "QUOTEREQ2", .app, []⟩] }

namespace Codecs

/-- The sample has a message of one type and none of another one; with longer types it is refused. -/
theorem lookup_exact_samples :
    Sample.dictionary.check? = none ∧ ofDictionary Sample.dictionary true = .ok Sample.codecs ∧
      Sample.codecs.message? (Bytes.ofString "S") = some Sample.layout ∧
      Sample.codecs.message? (Bytes.ofString "SS") = none ∧ Sample.longTypes.check? = none ∧
      ∃ first second, ofDictionary Sample.longTypes true = .error (.keyClash first second) := by
  have hcheck : Sample.dictionary.check? = none := by
    rw [Dictionary.check?_eq (by decide), show Sample.dictionary.fault? = none by decide +kernel]
    rfl
  have hlong : Sample.longTypes.check? = none := by
    rw [Dictionary.check?_eq (by decide), show Sample.longTypes.fault? = none by decide +kernel]
    rfl
  have hcodecs : ofDictionary Sample.dictionary true = .ok Sample.codecs :=
    ofDictionary_eq_ok_iff.2 ⟨by decide +kernel, by decide +kernel, rfl⟩
  obtain ⟨-, hsample⟩ := lookup_exact
  obtain ⟨-, -, hfinds⟩ := hsample Sample.dictionary true hcheck
  obtain ⟨hclash, -, -⟩ := hsample Sample.longTypes true hlong
  obtain ⟨-, hfinds⟩ := hfinds _ hcodecs
  obtain ⟨l, hl, -, hmessage, -⟩ := (hfinds "S").found (show Sample.dictionary.messages[0]? = some _ from rfl) rfl
  obtain rfl := Option.some.inj hl
  obtain ⟨hnone, -⟩ := (hfinds "SS").unknown (by decide)
  exact ⟨hcheck, hcodecs, hmessage, hnone, hlong,
    hclash.2 ⟨"QUOTEREQ1", "QUOTEREQ2", by decide, by decide, by decide, by decide +kernel⟩⟩

end Codecs

end FixWire
