import AtomTimeline.Args.Untyped
import AtomTimeline.Proofs.Args.Walk

/-!
Reading a payload one field at a time, with the messages that are begun but not ended at hand.

* `Progress` says where the reading stands, `Pool.step` reads one field more or ends a message.
* `Pool.outcome_step`: a step does not change what the reading comes to, which `Pool.outcome` says
  of where it stands; at the start it is what `Pool.parseMessage` gives.
* `Pool.next_step` says what kinds of steps there are. `Progress.Next.work_le` and
  `Progress.Next.weight_le`: each leaves less to do, and delivers no more arguments than it takes
  bytes. `Progress.Next.depth_le`: none begins a message nested too deep.
* `Pool.parseMessage_within_bounds`: so reading ends, in at most two steps more than there are
  bytes, never goes deeper than allowed, and delivers no more arguments than there are bytes.
-/

namespace AtomTimeline

/-- A message of which a part was read. -/
structure OpenMessage where
  message : MessageDescriptor
  typeName : String
  key : Key
  /-- How many values of each field were met. -/
  met : Positions
  /-- The bytes not yet read. -/
  rest : Bytes

/-- The message behind a field that holds these elements. -/
def OpenMessage.past (t : OpenMessage) (es : List Element) (rest : Bytes) : OpenMessage :=
  { t with rest := rest, met := es.foldl (fun met e => met.bump e.field.number) t.met }

/-- Where the reading of a payload stands. -/
inductive Progress where
  /-- These arguments were delivered, and these messages are begun and not ended, the innermost
  first. -/
  | reading (delivered : List Arg) (begun : List OpenMessage)
  | ended (result : ArgsResult)

/-- The bytes of a nested message, if the value is one. -/
def FieldDescriptor.nested? (d : FieldDescriptor) (v : FieldValue) : Option Bytes :=
  match d.type, v with
  | .message, .lengthDelimited content => some content
  | _, _ => none

/-- Reads nothing of a nested message. -/
def noNested : NestedReader := fun _ _ _ => .ofArgs []

lemma FieldDescriptor.nested?_eq_some_iff {d : FieldDescriptor} {v : FieldValue} {content : Bytes} :
    d.nested? v = some content ↔ d.type = .message ∧ v = .lengthDelimited content := by
  cases htype : d.type <;> cases v <;> simp [nested?, htype]

namespace Pool

variable (pool : Pool)

/-- Begins a message, unless it is nested too deep or its type is not known. -/
def beginMessage (delivered : List Arg) (outer : List OpenMessage) (content : Bytes)
    (typeName : String) (key : Key) : Progress :=
  if maxNesting < outer.length then .ended ⟨delivered, some (.tooDeep key.full)⟩
  else
    match pool.findMessage? typeName with
    | none => .ended ⟨delivered, some (.unknownMessage typeName)⟩
    | some m => .reading delivered (⟨m, typeName, key, [], content⟩ :: outer)

/-- Goes past a declared field: begins the message in it, or delivers its values. -/
def readDeclared (delivered : List Arg) (t : OpenMessage) (outer : List OpenMessage)
    (d : FieldDescriptor) (v : FieldValue) (rest : Bytes) : Progress :=
  match d.elements v with
  | .error e => .ended ⟨delivered, some e⟩
  | .ok es =>
    match d.nested? v with
    | some content =>
      pool.beginMessage delivered (t.past es rest :: outer) content d.typeName
        (Element.key t.key t.met ⟨d, v⟩)
    | none =>
      let values := pool.parseElements noNested none (number t.key t.met es)
      match values.error with
      | some e => .ended ⟨delivered ++ values.args, some e⟩
      | none => .reading (delivered ++ values.args) (t.past es rest :: outer)

/-- One step: the next field of the innermost message, or the end of that message. -/
def step : Progress → Progress
  | .ended result => .ended result
  | .reading delivered [] => .ended ⟨delivered, none⟩
  | .reading delivered (t :: outer) =>
    if t.rest = [] then .reading delivered outer
    else
      match Field.read t.rest with
      | .error _ => .ended ⟨delivered, some (.malformed t.typeName)⟩
      | .ok (f, rest) =>
        match t.message.field? f.id with
        | none => .reading delivered (t.past [] rest :: outer)
        | some d => pool.readDeclared delivered t outer d f.value rest

/-- The reading of a payload, nothing of it being read. -/
def start (b : Bytes) (typeName : String) : Progress :=
  pool.beginMessage [] [] b typeName .root

/-! ### What the reading comes to -/

/-- What is delivered for the rest of a message, with so many levels below it. -/
def remainder (levels : ℕ) (t : OpenMessage) : ArgsResult :=
  let found := scan t.rest
  let (elements, badRun) := t.message.elements found.fields
  let fault := badRun.or (if found.malformed then some (.malformed t.typeName) else none)
  pool.parseElements (pool.parseMessageAt levels) fault (number t.key t.met elements)

/-- What is delivered for the messages that are begun. -/
def remaining : List OpenMessage → ArgsResult
  | [] => .ofArgs []
  | t :: outer => (pool.remainder (maxNesting - outer.length) t).andThen fun _ => remaining outer

/-- What the reading comes to. -/
def outcome : Progress → ArgsResult
  | .ended result => result
  | .reading delivered begun => (ArgsResult.ofArgs delivered).andThen fun _ => pool.remaining begun

@[simp] lemma outcome_ended (result : ArgsResult) : pool.outcome (.ended result) = result := rfl

lemma outcome_reading (delivered : List Arg) (begun : List OpenMessage) :
    pool.outcome (.reading delivered begun) =
      (ArgsResult.ofArgs delivered).andThen fun _ => pool.remaining begun := rfl

end Pool

namespace ArgsResult

lemma andThen_of_error {r : ArgsResult} {e : ArgsError} (h : r.error = some e)
    (second : Unit → ArgsResult) : r.andThen second = r := by
  simp [andThen, h]

lemma andThen_of_none {r : ArgsResult} (h : r.error = none) (second : Unit → ArgsResult) :
    r.andThen second = (ofArgs r.args).andThen second := by
  simp [andThen, ofArgs, h]

lemma ofArgs_append_andThen (front back : List Arg) (second : Unit → ArgsResult) :
    (ofArgs (front ++ back)).andThen second =
      (ofArgs front).andThen fun _ => (ofArgs back).andThen second := by
  simp [andThen, ofArgs]

lemma ofArgs_andThen_error (args : List Arg) (e : ArgsError) (second : Unit → ArgsResult) :
    ((ofArgs args).andThen fun _ => (ofError e).andThen second) = ⟨args, some e⟩ := by
  simp [andThen, ofArgs, ofError]

@[simp] lemma ofArgs_nil_andThen (second : Unit → ArgsResult) :
    (ofArgs []).andThen second = second () := by
  simp [andThen, ofArgs]

@[simp] lemma andThen_ofArgs_nil (r : ArgsResult) : (r.andThen fun _ => ofArgs []) = r := by
  obtain ⟨args, error⟩ := r
  cases error <;> simp [andThen, ofArgs]

end ArgsResult

/-- Elements are numbered behind those in front of them. -/
lemma number_append (under : Key) (met : Positions) (es fs : List Element) :
    number under met (es ++ fs) =
      number under met es ++
        number under (es.foldl (fun met e => met.bump e.field.number) met) fs := by
  induction es generalizing met with
  | nil => rfl
  | cons e es ih => rw [List.cons_append, number, ih, number, List.cons_append, List.foldl_cons]

namespace Pool

variable (pool : Pool) (levels : ℕ) {t : OpenMessage} {f : Field} {rest : Bytes}

lemma remainder_of_nil (h : t.rest = []) : pool.remainder levels t = .ofArgs [] := by
  simp only [remainder, h, scan_nil]
  rfl

lemma remainder_of_read_error {left : Bytes} (hne : t.rest ≠ [])
    (h : Field.read t.rest = .error left) :
    pool.remainder levels t = .ofError (.malformed t.typeName) := by
  simp only [remainder, scan_of_read_error hne h]
  rfl

lemma remainder_of_undeclared (h : Field.read t.rest = .ok (f, rest))
    (hfield : t.message.field? f.id = none) :
    pool.remainder levels t = pool.remainder levels (t.past [] rest) := by
  have helements : t.message.elements ((scan rest).cons f).fields =
      t.message.elements (scan rest).fields := by
    simp [Scan.cons, MessageDescriptor.elements, MessageDescriptor.elementsOf, hfield]
  simp only [remainder, scan_of_read h, helements]
  rfl

lemma remainder_of_badRun {d : FieldDescriptor} {e : ArgsError}
    (h : Field.read t.rest = .ok (f, rest)) (hfield : t.message.field? f.id = some d)
    (he : d.elements f.value = .error e) : pool.remainder levels t = .ofError e := by
  have helements : t.message.elements ((scan rest).cons f).fields = ([], some e) := by
    simp [Scan.cons, MessageDescriptor.elements, MessageDescriptor.elementsOf, hfield, he]
  simp only [remainder, scan_of_read h, helements]
  rfl

/-- A declared field is read, and then what is behind it. -/
lemma remainder_of_declared {d : FieldDescriptor} {es : List Element}
    (h : Field.read t.rest = .ok (f, rest)) (hfield : t.message.field? f.id = some d)
    (hes : d.elements f.value = .ok es) :
    pool.remainder levels t =
      (pool.parseElements (pool.parseMessageAt levels) none (number t.key t.met es)).andThen
        fun _ => pool.remainder levels (t.past es rest) := by
  have helements : t.message.elements ((scan rest).cons f).fields =
      (es ++ (t.message.elements (scan rest).fields).1,
        (t.message.elements (scan rest).fields).2) := by
    simp [Scan.cons, MessageDescriptor.elements, MessageDescriptor.elementsOf, hfield, hes]
  simp only [remainder, scan_of_read h, helements, number_append, parseElements_append]
  rfl

/-- A message that is begun comes to what reading it gives, and then to what is left around it. -/
lemma outcome_beginMessage (delivered : List Arg) (outer : List OpenMessage) (content : Bytes)
    (typeName : String) (key : Key) :
    pool.outcome (pool.beginMessage delivered outer content typeName key) =
      (ArgsResult.ofArgs delivered).andThen fun _ =>
        (pool.parseMessageAt (maxNesting + 1 - outer.length) content typeName key).andThen fun _ =>
          pool.remaining outer := by
  rw [beginMessage]
  split
  · next hdeep =>
    have hlevels : maxNesting + 1 - outer.length = 0 := by omega
    rw [hlevels, parseMessageAt, ArgsResult.ofArgs_andThen_error, outcome]
  · next hdeep =>
    have hlevels : maxNesting + 1 - outer.length = maxNesting - outer.length + 1 := by omega
    rw [hlevels, parseMessageAt]
    cases hfound : pool.findMessage? typeName with
    | none => simp only [outcome, ArgsResult.ofArgs_andThen_error]
    | some m => rfl

variable {d : FieldDescriptor} {v : FieldValue}

lemma parseElement_of_nested? {content : Bytes} (h : d.nested? v = some content)
    (nested : NestedReader) (key : Key) :
    pool.parseElement nested key ⟨d, v⟩ = nested content d.typeName key := by
  obtain ⟨htype, rfl⟩ := FieldDescriptor.nested?_eq_some_iff.mp h
  simp only [parseElement, htype]

/-- A value that is no message is read whatever reads messages. -/
lemma parseElement_congr (h : d.nested? v = none) (nested nested' : NestedReader) (key : Key) :
    pool.parseElement nested key ⟨d, v⟩ = pool.parseElement nested' key ⟨d, v⟩ := by
  cases htype : d.type with
  | message =>
      cases v with
      | lengthDelimited content => simp [FieldDescriptor.nested?, htype] at h
      | _ => simp only [parseElement, htype]
  | _ => simp only [parseElement, htype]

lemma parseElements_congr {nested nested' : NestedReader} {entries : List (Key × Element)}
    (h : ∀ entry ∈ entries,
      pool.parseElement nested entry.1 entry.2 = pool.parseElement nested' entry.1 entry.2) :
    pool.parseElements nested none entries = pool.parseElements nested' none entries := by
  induction entries with
  | nil => rfl
  | cons entry entries ih =>
      rw [parseElements, parseElements, h entry List.mem_cons_self,
        ih fun other hother => h other (List.mem_cons_of_mem entry hother)]

/-- The elements of a field that holds no message are no messages. -/
lemma nested?_of_mem_elements {es : List Element} (h : d.nested? v = none)
    (hes : d.elements v = .ok es) {e : Element} (he : e ∈ es) :
    e.field = d ∧ d.nested? e.value = none := by
  rw [FieldDescriptor.elements_eq] at hes
  cases hvalues : d.values? v with
  | none => simp [hvalues] at hes
  | some values =>
      simp only [hvalues, Except.ok.injEq] at hes
      subst hes
      obtain ⟨w, hw, rfl⟩ := List.mem_map.mp he
      refine ⟨rfl, ?_⟩
      by_cases htype : d.type = .message
      · have hsingle : values = [v] := by
          cases v <;> simp_all [FieldDescriptor.values?, FieldType.packable]
        rw [hsingle, List.mem_singleton] at hw
        rw [hw, h]
      · cases hnested : d.nested? w with
        | none => rfl
        | some content => exact absurd (FieldDescriptor.nested?_eq_some_iff.mp hnested).1 htype

/-- A field that holds a message is one element. -/
lemma elements_of_nested? {content : Bytes} (h : d.nested? v = some content) :
    d.elements v = .ok [⟨d, v⟩] := by
  obtain ⟨htype, rfl⟩ := FieldDescriptor.nested?_eq_some_iff.mp h
  simp [FieldDescriptor.elements, htype, FieldType.packable]

/-- The message in a field is all that is read of the field. -/
lemma parseElements_of_nested? {content : Bytes} (h : d.nested? v = some content)
    (nested : NestedReader) (under : Key) (met : Positions) :
    pool.parseElements nested none (number under met [⟨d, v⟩]) =
      nested content d.typeName (Element.key under met ⟨d, v⟩) := by
  simp only [number, parseElements, pool.parseElement_of_nested? h]
  exact ArgsResult.andThen_ofArgs_nil _

/-- The values of a field that holds no message are read whatever reads messages. -/
lemma parseElements_of_no_nested {es : List Element} (h : d.nested? v = none)
    (hes : d.elements v = .ok es) (nested nested' : NestedReader) (under : Key) (met : Positions) :
    pool.parseElements nested none (number under met es) =
      pool.parseElements nested' none (number under met es) := by
  refine pool.parseElements_congr fun entry hentry => ?_
  have hmem : entry.2 ∈ es := by
    rw [← map_snd_number under met es]
    exact List.mem_map_of_mem hentry
  obtain ⟨hfield, hsingle⟩ := nested?_of_mem_elements h hes hmem
  exact pool.parseElement_congr (hfield ▸ hsingle) nested nested' entry.1

/-- Going past a declared field does not change what the reading comes to. -/
lemma outcome_readDeclared (delivered : List Arg) (outer : List OpenMessage)
    (h : Field.read t.rest = .ok (f, rest)) (hfield : t.message.field? f.id = some d) :
    pool.outcome (pool.readDeclared delivered t outer d f.value rest) =
      pool.outcome (.reading delivered (t :: outer)) := by
  rw [outcome_reading, remaining, readDeclared]
  cases hes : d.elements f.value with
  | error e =>
      simp only [pool.remainder_of_badRun _ h hfield hes, outcome_ended,
        ArgsResult.ofArgs_andThen_error]
  | ok es =>
      simp only [pool.remainder_of_declared _ h hfield hes, ArgsResult.andThen_assoc]
      cases hnested : d.nested? f.value with
      | some content =>
          rw [elements_of_nested? hnested] at hes
          cases hes
          have hlevels : maxNesting + 1 - (t.past [⟨d, f.value⟩] rest :: outer).length =
              maxNesting - outer.length := by
            rw [List.length_cons]
            omega
          have hone := pool.parseElements_of_nested? hnested
          simp only [outcome_beginMessage, hlevels, hone, remaining]
      | none =>
          have hvalues := pool.parseElements_of_no_nested hnested hes
            (pool.parseMessageAt (maxNesting - outer.length)) noNested t.key t.met
          simp only [hvalues]
          cases herror : (pool.parseElements noNested none
              (number t.key t.met es)).error with
          | some e =>
              rw [ArgsResult.andThen_of_error herror]
              simp [ArgsResult.andThen, ArgsResult.ofArgs, herror]
          | none =>
              rw [ArgsResult.andThen_of_none herror]
              simp only [outcome_reading, remaining, ArgsResult.ofArgs_append_andThen]

/-- **A step does not change what the reading comes to.** -/
theorem outcome_step (s : Progress) : pool.outcome (pool.step s) = pool.outcome s := by
  cases s with
  | ended result => rfl
  | reading delivered begun =>
      cases begun with
      | nil =>
          rw [step, outcome_ended, outcome_reading, remaining, ArgsResult.andThen_ofArgs_nil]
          rfl
      | cons t outer =>
          rw [step]
          split
          · next hnil =>
            simp only [outcome_reading, remaining, pool.remainder_of_nil _ hnil,
              ArgsResult.ofArgs_nil_andThen]
          · next hne =>
            split
            · next left hleft =>
              simp only [outcome_ended, outcome_reading, remaining,
                pool.remainder_of_read_error _ hne hleft, ArgsResult.ofArgs_andThen_error]
            · next f rest hread =>
              split
              · next hfield =>
                simp only [outcome_reading, remaining, pool.remainder_of_undeclared _ hread hfield]
              · next d hfield => exact pool.outcome_readDeclared delivered outer hread hfield

end Pool

/-! ### What a step takes and delivers -/

/-- A field takes at least two bytes more than it holds. -/
lemma Field.length_bytes_add_le_of_read {b rest : Bytes} {f : Field}
    (h : Field.read b = .ok (f, rest)) : f.value.bytes.length + 2 + rest.length ≤ b.length := by
  have hlen := (Field.length_write_le_of_read h).1
  have htag : 0 < (writeTag f.id f.value.wireType).length :=
    List.length_pos_iff.mpr (Varint.groups_ne_nil _)
  have hvalue : f.value.bytes.length + 1 ≤ f.value.write.length := by
    cases hf : f.value with
    | varint v =>
        have hgroups := List.length_pos_iff.mpr (Varint.groups_ne_nil v.toNat)
        simp only [FieldValue.bytes, FieldValue.write, Varint.write, List.length_nil]
        omega
    | fixed64 v => simp [FieldValue.bytes, FieldValue.write]
    | lengthDelimited content =>
        have hgroups := List.length_pos_iff.mpr
          (Varint.groups_ne_nil (UInt64.ofNat content.length).toNat)
        simp only [FieldValue.bytes, FieldValue.write, Varint.write, List.length_append]
        omega
    | fixed32 v => simp [FieldValue.bytes, FieldValue.write]
  rw [Field.write, List.length_append] at hlen
  omega

lemma Varint.length_pieces_le (b : Bytes) : (pieces b).length ≤ b.length := by
  induction b using pieces_induction with
  | nil => exact Nat.le_refl 0
  | unmarked x b hx ih =>
      rw [pieces_unmarked hx]
      simpa using ih
  | last x hx =>
      rw [pieces_marked_last hx]
      simp
  | marked x b p ps hx hb ih =>
      rw [hb] at ih
      rw [pieces_marked hx hb]
      simp only [List.length_cons] at ih ⊢
      omega

/-- A packed run holds no more values than bytes. -/
lemma FieldType.length_packedValues_le (type : FieldType) (run : Bytes) :
    (type.packedValues run).length ≤ run.length := by
  have hpieces := Varint.length_pieces_le run
  rw [packedValues]
  split
  · simp only [List.length_map, Bytes.blocks, List.length_range]
    exact Nat.div_le_self _ _
  · simp only [List.length_map, Bytes.blocks, List.length_range]
    exact Nat.div_le_self _ _
  · simpa using hpieces

/-- A field holds no more values than bytes, but for one that holds a single value. -/
lemma FieldDescriptor.length_le_of_elements {d : FieldDescriptor} {v : FieldValue}
    {es : List Element} (h : d.elements v = .ok es) : es.length ≤ v.bytes.length + 1 := by
  rw [elements_eq] at h
  cases hvalues : d.values? v with
  | none => simp [hvalues] at h
  | some values =>
      simp only [hvalues, Except.ok.injEq] at h
      subst h
      rw [List.length_map]
      cases v with
      | lengthDelimited run =>
          have hrun := d.type.length_packedValues_le run
          simp only [values?] at hvalues
          split_ifs at hvalues
          · cases hvalues
            exact Nat.le_succ_of_le hrun
          · cases hvalues
            simp
      | _ =>
          cases hvalues
          simp

namespace Pool

variable (pool : Pool)

/-- Without nested messages, no more is delivered than there are elements. -/
lemma length_parseElements_le (entries : List (Key × Element)) :
    (pool.parseElements noNested none entries).args.length ≤ entries.length := by
  induction entries with
  | nil => exact Nat.le_refl 0
  | cons entry entries ih =>
      have hone : (pool.parseElement noNested entry.1 entry.2).args.length ≤ 1 := by
        obtain ⟨key, d, v⟩ := entry
        cases htype : d.type with
        | message =>
            cases v <;>
              simp [parseElement, htype, noNested, ArgsResult.ofArgs, ArgsResult.ofError]
        | _ =>
            cases hscalar : pool.scalar? d v <;>
              simp [parseElement, htype, hscalar, ArgsResult.ofArgs, ArgsResult.ofError]
      rw [parseElements, ArgsResult.andThen]
      split
      · exact hone.trans (by simp)
      · rw [List.length_append, List.length_cons]
        omega

end Pool

/-- What a step makes of where reading stands, in numbers of bytes and arguments. -/
inductive Progress.Next : Progress → Progress → Prop where
  /-- The reading has ended before. -/
  | stays {result : ArgsResult} : Next (.ended result) (.ended result)
  /-- The last message has ended. -/
  | finishes {delivered : List Arg} : Next (.reading delivered []) (.ended ⟨delivered, none⟩)
  /-- Reading ends in an error, more arguments being delivered. -/
  | fails {delivered more : List Arg} {t : OpenMessage} {outer : List OpenMessage} {e : ArgsError} :
    more.length ≤ t.rest.length →
      Next (.reading delivered (t :: outer)) (.ended ⟨delivered ++ more, some e⟩)
  /-- The innermost message ends. -/
  | closes {delivered : List Arg} {t : OpenMessage} {outer : List OpenMessage} :
    t.rest = [] → Next (.reading delivered (t :: outer)) (.reading delivered outer)
  /-- A field is read, and values in it are delivered. -/
  | goesOn {delivered more : List Arg} {t left : OpenMessage} {outer : List OpenMessage} :
    more.length + left.rest.length ≤ t.rest.length → left.rest.length < t.rest.length →
      Next (.reading delivered (t :: outer)) (.reading (delivered ++ more) (left :: outer))
  /-- A field is read, and the message in it is begun. -/
  | goesIn {delivered : List Arg} {t left inner : OpenMessage} {outer : List OpenMessage} :
    inner.rest.length + 2 + left.rest.length ≤ t.rest.length → outer.length < maxNesting →
      Next (.reading delivered (t :: outer)) (.reading delivered (inner :: left :: outer))

namespace Progress.Next

variable {delivered : List Arg} {t left : OpenMessage} {outer : List OpenMessage}

/-- Nothing more is delivered in front of an error. -/
lemma stops (e : ArgsError) :
    Next (.reading delivered (t :: outer)) (.ended ⟨delivered, some e⟩) := by
  have hnothing : ([] : List Arg).length ≤ t.rest.length := Nat.zero_le _
  simpa using @fails delivered [] t outer e hnothing

/-- A field is read in which there is nothing. -/
lemma skips (h : left.rest.length < t.rest.length) :
    Next (.reading delivered (t :: outer)) (.reading delivered (left :: outer)) := by
  have hnothing : ([] : List Arg).length + left.rest.length ≤ t.rest.length := by
    rw [List.length_nil]
    omega
  simpa using @goesOn delivered [] t left outer hnothing h

end Progress.Next

namespace Pool

variable (pool : Pool)

/-- Going past a declared field takes the bytes of the field. -/
lemma next_readDeclared (delivered : List Arg) {t : OpenMessage} (outer : List OpenMessage)
    {f : Field} {rest : Bytes} (d : FieldDescriptor) (h : Field.read t.rest = .ok (f, rest)) :
    Progress.Next (.reading delivered (t :: outer))
      (pool.readDeclared delivered t outer d f.value rest) := by
  have hbytes := Field.length_bytes_add_le_of_read h
  rw [readDeclared]
  cases hes : d.elements f.value with
  | error e => exact .stops e
  | ok es =>
      have hlength := FieldDescriptor.length_le_of_elements hes
      have hrest : (t.past es rest).rest.length = rest.length := rfl
      cases hnested : d.nested? f.value with
      | some content =>
          obtain ⟨-, hvalue⟩ := FieldDescriptor.nested?_eq_some_iff.mp hnested
          rw [hvalue, FieldValue.bytes] at hbytes
          simp only [beginMessage]
          split
          · exact .stops _
          · next hdeep =>
            rw [List.length_cons] at hdeep
            split
            · exact .stops _
            · exact .goesIn hbytes (by omega)
      | none =>
          have hvalues := pool.length_parseElements_le (number t.key t.met es)
          have hnumber : (number t.key t.met es).length = es.length := by
            rw [← List.length_map Prod.snd, map_snd_number]
          simp only
          split
          · exact .fails (by omega)
          · exact .goesOn (by omega) (by omega)

/-- **Each step is of one of these kinds.** -/
theorem next_step (s : Progress) : s.Next (pool.step s) := by
  cases s with
  | ended result => exact .stays
  | reading delivered begun =>
      cases begun with
      | nil => exact .finishes
      | cons t outer =>
          rw [step]
          split
          · next hnil => exact .closes hnil
          · split
            · exact .stops _
            · next f rest hread =>
              split
              · have hbytes := Field.length_bytes_add_le_of_read hread
                have hrest : (t.past [] rest).rest.length = rest.length := rfl
                exact .skips (by omega)
              · next d _ => exact pool.next_readDeclared delivered outer d hread

end Pool

/-! ### Bounds -/

/-- The bytes not yet read. -/
def unread : List OpenMessage → ℕ
  | [] => 0
  | t :: outer => t.rest.length + unread outer

namespace Progress

/-- A bound on the steps that are left. -/
def work : Progress → ℕ
  | .reading _ begun => unread begun + begun.length + 1
  | .ended _ => 0

/-- The arguments delivered and the bytes that may still bring some. -/
def weight : Progress → ℕ
  | .reading delivered begun => delivered.length + unread begun
  | .ended result => result.args.length

/-- The number of messages that are begun. -/
def depth : Progress → ℕ
  | .reading _ begun => begun.length
  | .ended _ => 0

variable {s s' : Progress}

/-- Each step leaves less to do. -/
lemma Next.work_le (h : s.Next s') : s'.work ≤ s.work - 1 := by
  cases h with
  | stays => exact Nat.le_refl 0
  | finishes => exact Nat.zero_le _
  | fails _ => exact Nat.zero_le _
  | closes _ =>
      simp only [work, unread, List.length_cons]
      omega
  | goesOn _ hlt =>
      simp only [work, unread, List.length_cons]
      omega
  | goesIn hle _ =>
      simp only [work, unread, List.length_cons]
      omega

/-- A step delivers no more arguments than it takes bytes. -/
lemma Next.weight_le (h : s.Next s') : s'.weight ≤ s.weight := by
  cases h with
  | stays => exact Nat.le_refl _
  | finishes => exact Nat.le_refl _
  | fails hmore =>
      simp only [weight, unread, List.length_append]
      omega
  | closes _ =>
      simp only [weight, unread]
      omega
  | goesOn hmore _ =>
      simp only [weight, unread, List.length_append]
      omega
  | goesIn hle _ =>
      simp only [weight, unread]
      omega

/-- No step begins a message nested too deep. -/
lemma Next.depth_le (h : s.Next s') (hs : s.depth ≤ maxNesting + 1) :
    s'.depth ≤ maxNesting + 1 := by
  cases h with
  | stays => exact hs
  | finishes => exact Nat.zero_le _
  | fails _ => exact Nat.zero_le _
  | closes _ =>
      simp only [depth, List.length_cons] at hs ⊢
      omega
  | goesOn _ _ => simpa only [depth, List.length_cons] using hs
  | goesIn _ houter =>
      simp only [depth, List.length_cons]
      omega

end Progress

namespace Pool

variable (pool : Pool)

/-- **Reading ends** after as many steps as there is work, and gives what it comes to. -/
theorem iterate_step_of_work_le {n : ℕ} {s : Progress} (h : s.work ≤ n) :
    pool.step^[n] s = .ended (pool.outcome s) := by
  induction n generalizing s with
  | zero =>
      cases s with
      | ended result => rfl
      | reading delivered begun =>
          simp only [Progress.work] at h
          omega
  | succ n ih =>
      have hless := (pool.next_step s).work_le
      rw [Function.iterate_succ_apply, ih (by omega), outcome_step]

/-- What a step keeps holds after any number of steps. -/
lemma iterate_step_induction {P : Progress → Prop} (hstep : ∀ s s', s.Next s' → P s → P s')
    {s : Progress} (h : P s) (n : ℕ) : P (pool.step^[n] s) := by
  induction n with
  | zero => exact h
  | succ n ih =>
      rw [Function.iterate_succ_apply']
      exact hstep _ _ (pool.next_step _) ih

/-- At the start all bytes are to be read, and one message at most is begun. -/
lemma start_bounds (b : Bytes) (typeName : String) :
    (pool.start b typeName).work ≤ b.length + 2 ∧ (pool.start b typeName).weight ≤ b.length ∧
      (pool.start b typeName).depth ≤ maxNesting + 1 := by
  simp only [start, beginMessage]
  split
  · exact ⟨Nat.zero_le _, Nat.zero_le _, Nat.zero_le _⟩
  · split
    · exact ⟨Nat.zero_le _, Nat.zero_le _, Nat.zero_le _⟩
    · simp [Progress.work, Progress.weight, Progress.depth, unread, maxNesting]

lemma outcome_start (b : Bytes) (typeName : String) :
    pool.outcome (pool.start b typeName) = pool.parseMessage b typeName := by
  rw [start, outcome_beginMessage, ArgsResult.ofArgs_nil_andThen, remaining,
    ArgsResult.andThen_ofArgs_nil]
  rfl

end Pool

/-- A message holds at most half as many fields as bytes. -/
lemma two_mul_length_scan_le (b : Bytes) : 2 * (scan b).fields.length ≤ b.length := by
  induction b using scan_induction with
  | nil => simp [scan_nil]
  | field b rest f hr ih =>
      have hbytes := Field.length_bytes_add_le_of_read hr
      rw [scan_of_read hr, Scan.cons, List.length_cons]
      omega
  | fault b left hb hr => simp [scan_of_read_error hb hr]

/-- **No payload amplifies.** Whatever the types, the type named and the bytes, the reading of a
payload ends after at most two steps more than it has bytes, each step reading one field or ending
one message, and gives what `Pool.parseMessage` gives. At no time is the message that is read nested
in more than 64 others, nor have more arguments been delivered than the payload has bytes; so
reading delivers at most as many, however it ends. Without a type at most half as many are
delivered. -/
theorem Pool.parseMessage_within_bounds (pool : Pool) (b : Bytes) (typeName : String) :
    pool.step^[b.length + 2] (pool.start b typeName) = .ended (pool.parseMessage b typeName) ∧
      (∀ n delivered t outer,
        pool.step^[n] (pool.start b typeName) = .reading delivered (t :: outer) →
          outer.length ≤ 64 ∧ delivered.length ≤ b.length) ∧
      (pool.parseMessage b typeName).args.length ≤ b.length ∧
      2 * (untypedArgs b).length ≤ b.length := by
  obtain ⟨hwork, hweight, hdepth⟩ := pool.start_bounds b typeName
  have hend := pool.iterate_step_of_work_le hwork
  rw [pool.outcome_start] at hend
  have hweights := fun n => pool.iterate_step_induction (P := fun s => s.weight ≤ b.length)
    (fun _ _ hnext => hnext.weight_le.trans) hweight n
  have hdepths := fun n => pool.iterate_step_induction (P := fun s => s.depth ≤ maxNesting + 1)
    (fun _ _ hnext => hnext.depth_le) hdepth n
  refine ⟨hend, fun n delivered t outer hn => ?_, ?_, ?_⟩
  · have hw := hweights n
    have hd := hdepths n
    rw [hn] at hw hd
    simp only [Progress.weight, Progress.depth, List.length_cons, maxNesting] at hw hd
    omega
  · have hw := hweights (b.length + 2)
    rwa [hend] at hw
  · have hfields := two_mul_length_scan_le b
    simpa [untypedArgs] using hfields

end AtomTimeline
