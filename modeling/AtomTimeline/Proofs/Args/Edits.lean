import AtomTimeline.Proofs.Args.Walk
import AtomTimeline.Proofs.Wire.Grammar

/-!
Payloads that differ in one place only, however deep in nested messages that place is.

* `Pool.Edited`: fields in a row, in the payload or in a message nested in it, are replaced by
  others, and the fields around are written again with their new lengths. A rule says which fields
  may stand for which.
* `Pool.Alike`: fields in which the same is met, wherever they stand in a message, and which hold as
  many values of each field; `Pool.Alike.walkFields` puts other fields around them.
* `Pool.Edited.walk_eq`: if a rule allows nothing but fields that are alike, an edit changes nothing
  of what is met on the walk.
* `Pool.parseMessage_unpacked`: so a packed run may be replaced by its values one by one, and
  `Pool.parseMessage_with_undeclared`: fields that no one declared may be put in anywhere.
-/

namespace AtomTimeline

/-! ### Edits -/

/-- The second payload is the first with some fields in a row replaced by others that the rule
allows for a message of that type. What is in front of them are fields, what is behind them may be
any bytes. -/
inductive Pool.Edited (pool : Pool) (rule : String → List Field → List Field → Prop) :
    String → Bytes → Bytes → Prop where
  /-- The fields are those of the message itself. -/
  | here {typeName : String} {before old new : List Field} {front part part' rest : Bytes} :
    rule typeName old new → SpelledFields before front → SpelledFields old part →
      SpelledFields new part' →
      Pool.Edited pool rule typeName (front ++ (part ++ rest)) (front ++ (part' ++ rest))
  /-- The fields are in a message nested in it, which is written again with its new length. -/
  | within {typeName : String} {m : MessageDescriptor} {id : UInt32} {d : FieldDescriptor}
    {before : List Field} {content content' front part part' rest : Bytes} :
    pool.findMessage? typeName = some m → m.field? id = some d → d.type = .message →
      Pool.Edited pool rule d.typeName content content' → SpelledFields before front →
      Field.SpelledBy ⟨id, .lengthDelimited content⟩ part →
      Field.SpelledBy ⟨id, .lengthDelimited content'⟩ part' →
      Pool.Edited pool rule typeName (front ++ (part ++ rest)) (front ++ (part' ++ rest))

/-! ### Fields that stand for others -/

/-- The numbers of the fields the values in a list of fields are of, one for each value. -/
def MessageDescriptor.valueNumbers (m : MessageDescriptor) (fs : List Field) : List UInt32 :=
  fs.flatMap fun f =>
    match m.field? f.id with
    | none => []
    | some d => List.replicate ((d.values? f.value).getD []).length d.number

namespace Pool

variable (pool : Pool) (nested : Bytes → String → Key → List Finding) (m : MessageDescriptor)

/-- The same is met in both lists of fields, wherever they stand in a message of the type, and there
are as many values of each field in one as in the other. -/
structure Alike (old new : List Field) : Prop where
  walkFields_eq : ∀ under earlier,
    pool.walkFields nested m under earlier old = pool.walkFields nested m under earlier new
  valueNumbers_eq : m.valueNumbers old = m.valueNumbers new

/-- Fields are met behind the values in the fields in front of them. -/
lemma walkFields_append (under : Key) (earlier : List UInt32) (fs gs : List Field) :
    pool.walkFields nested m under earlier (fs ++ gs) =
      pool.walkFields nested m under earlier fs ++
        pool.walkFields nested m under (earlier ++ m.valueNumbers fs) gs := by
  induction fs generalizing earlier with
  | nil => simp [walkFields, MessageDescriptor.valueNumbers]
  | cons f fs ih =>
      rw [List.cons_append, walkFields, walkFields, MessageDescriptor.valueNumbers,
        List.flatMap_cons, ← MessageDescriptor.valueNumbers]
      cases hfield : m.field? f.id with
      | none => simp [ih]
      | some d => simp [ih, List.append_assoc]

variable {pool nested m} {old new : List Field}

/-- Fields that are alike are so among other fields. -/
lemma Alike.walkFields (h : pool.Alike nested m old new) (under : Key)
    (before after : List Field) :
    pool.walkFields nested m under [] (before ++ (old ++ after)) =
      pool.walkFields nested m under [] (before ++ (new ++ after)) := by
  simp only [walkFields_append, h.walkFields_eq, h.valueNumbers_eq]

/-- One value of a field is met as it is met on its own. -/
lemma walkFields_singleton {f : Field} {d : FieldDescriptor} (hfield : m.field? f.id = some d)
    (hvalue : d.values? f.value = some [f.value]) (under : Key) (earlier : List UInt32) :
    pool.walkFields nested m under earlier [f] =
      pool.walkValue nested d (d.keyAt under (earlier.count d.number)) f.value := by
  simp [Pool.walkFields, hfield, walkField, hvalue]

lemma valueNumbers_singleton {f : Field} {d : FieldDescriptor} (hfield : m.field? f.id = some d)
    (hvalue : d.values? f.value = some [f.value]) : m.valueNumbers [f] = [d.number] := by
  simp [MessageDescriptor.valueNumbers, hfield, hvalue]

/-- A nested message may be replaced by one in which the same is met. -/
lemma Alike.message {id : UInt32} {d : FieldDescriptor} {content content' : Bytes}
    (hfield : m.field? id = some d) (htype : d.type = .message)
    (h : ∀ key, nested content d.typeName key = nested content' d.typeName key) :
    pool.Alike nested m [⟨id, .lengthDelimited content⟩] [⟨id, .lengthDelimited content'⟩] := by
  have hvalue : ∀ b, d.values? (.lengthDelimited b) = some [.lengthDelimited b] := by
    intro b
    simp [FieldDescriptor.values?, htype, FieldType.packable]
  constructor
  · intro under earlier
    rw [walkFields_singleton hfield (hvalue content), walkFields_singleton hfield (hvalue content')]
    simp only [walkValue, htype, h]
  · rw [valueNumbers_singleton hfield (hvalue content),
      valueNumbers_singleton hfield (hvalue content')]

/-- **An edit is not noticed on the walk** if its rule allows nothing but fields that are alike. The
induction is along the edit; each message around it uses up one level. -/
theorem Edited.walk_eq {rule : String → List Field → List Field → Prop}
    (hrule : ∀ typeName old new, rule typeName old new → ∀ m, pool.findMessage? typeName = some m →
      ∀ nested, pool.Alike nested m old new) {typeName : String} {b b' : Bytes}
    (h : pool.Edited rule typeName b b') (levels : ℕ) (under : Key) :
    pool.walk levels b typeName under = pool.walk levels b' typeName under := by
  induction h generalizing levels under with
  | @here typeName before old new front part part' rest hold hfront hpart hpart' =>
      cases levels with
      | zero => rfl
      | succ levels =>
          cases hfound : pool.findMessage? typeName with
          | none => simp only [walk, hfound]
          | some m =>
              have halike := hrule typeName old new hold m hfound (pool.walk levels)
              simp only [walk, hfound, hfront.scan_append, hpart.scan_append, hpart'.scan_append,
                Scan.malformed, halike.walkFields]
  | @within typeName m id d before content content' front part part' rest hfound hfield htype _
      hfront hpart hpart' ih =>
      cases levels with
      | zero => rfl
      | succ levels =>
          have halike : pool.Alike (pool.walk levels) m [⟨id, .lengthDelimited content⟩]
              [⟨id, .lengthDelimited content'⟩] := .message hfield htype (ih levels)
          simp only [walk, hfound, hfront.scan_append, hpart.fields.scan_append,
            hpart'.fields.scan_append, Scan.malformed, halike.walkFields]

/-- So it changes neither what is delivered nor how reading ends. -/
lemma Edited.parseMessage_eq {rule : String → List Field → List Field → Prop}
    (hrule : ∀ typeName old new, rule typeName old new → ∀ m, pool.findMessage? typeName = some m →
      ∀ nested, pool.Alike nested m old new) {typeName : String} {b b' : Bytes}
    (h : pool.Edited rule typeName b b') :
    pool.parseMessage b typeName = pool.parseMessage b' typeName := by
  rw [parseMessage, parseMessage, parseMessageAt_eq_walk, parseMessageAt_eq_walk,
    h.walk_eq hrule]

end Pool

/-! ### Packed runs -/

namespace FieldType

/-- What counts of a value under a declared type: the low half of a varint under a type of 32 bits,
and under a boolean one whether it is zero. -/
def element (type : FieldType) (v : FieldValue) : FieldValue :=
  match type, v with
  | .int32, .varint w | .uint32, .varint w | .sint32, .varint w | .enum, .varint w =>
    .varint w.toUInt32.toUInt64
  | .bool, .varint w => .varint (if w = 0 then 0 else 1)
  | _, _ => v

@[simp] lemma wireType_element (type : FieldType) (v : FieldValue) :
    (type.element v).wireType = v.wireType := by
  cases type <;> cases v <;> rfl

end FieldType

/-- What counts of a value is all that is read of it. -/
lemma Pool.scalar?_element (pool : Pool) (d : FieldDescriptor) (v : FieldValue) :
    pool.scalar? d (d.type.element v) = pool.scalar? d v := by
  cases v with
  | varint w =>
      cases htype : d.type with
      | bool => by_cases hw : w = 0 <;> simp [Pool.scalar?, htype, FieldType.element, hw]
      | _ =>
          simp only [Pool.scalar?, htype, FieldType.element, low32, Zigzag.read32, Pool.enumValue,
            UInt32.toUInt32_toUInt64]
  | _ => cases htype : d.type <;> simp only [Pool.scalar?, htype, FieldType.element]

/-- A packed run of a repeated field may be replaced by fields that each hold one of its values. Two
values are the same if what counts of them under the declared type is the same. -/
inductive Pool.UnpackedRun (pool : Pool) : String → List Field → List Field → Prop where
  | intro {typeName : String} {m : MessageDescriptor} {id : UInt32} {d : FieldDescriptor}
    {run : Bytes} {values : List FieldValue} :
    pool.findMessage? typeName = some m → m.field? id = some d → d.repeated = true →
      d.type ∉ [.string, .bytes, .message, .group] → d.type.Packs run →
      values.map d.type.element = (d.type.packedValues run).map d.type.element →
      Pool.UnpackedRun pool typeName [⟨id, .lengthDelimited run⟩] (values.map (⟨id, ·⟩))

namespace Pool

variable {pool : Pool} {nested : Bytes → String → Key → List Finding} {m : MessageDescriptor}
  {d : FieldDescriptor}

/-- The same is met in two values of which the same counts, if they are no messages. -/
lemma walkValue_congr (hmessage : d.type ≠ .message) {v w : FieldValue}
    (h : d.type.element v = d.type.element w) (key : Key) :
    pool.walkValue nested d key v = pool.walkValue nested d key w := by
  have hscalar : pool.scalar? d v = pool.scalar? d w := by
    rw [← pool.scalar?_element d v, h, pool.scalar?_element]
  have hwire : v.wireType = w.wireType := by
    rw [← FieldType.wireType_element d.type v, h, FieldType.wireType_element]
  cases htype : d.type with
  | message => exact absurd htype hmessage
  | _ => simp only [walkValue, htype, hscalar, hwire]

/-- Values of which the same counts are met alike one after the other. -/
lemma walkValues_congr (hmessage : d.type ≠ .message) (under : Key) {vs ws : List FieldValue}
    (h : vs.map d.type.element = ws.map d.type.element) (start : ℕ) :
    ((vs.zipIdx start).flatMap fun e => pool.walkValue nested d (d.keyAt under e.2) e.1) =
      (ws.zipIdx start).flatMap fun e => pool.walkValue nested d (d.keyAt under e.2) e.1 := by
  induction vs generalizing ws start with
  | nil =>
      cases ws with
      | nil => rfl
      | cons w ws => simp at h
  | cons v vs ih =>
      cases ws with
      | nil => simp at h
      | cons w ws =>
          simp only [List.map_cons, List.cons.injEq] at h
          rw [List.zipIdx_cons, List.zipIdx_cons, List.flatMap_cons, List.flatMap_cons,
            walkValue_congr hmessage h.1, ih h.2]

/-- Single values of a field are met as they are met in one run, and are as many. -/
lemma walkFields_values {id : UInt32} (hfield : m.field? id = some d) (under : Key)
    {values : List FieldValue} (hvalues : ∀ v ∈ values, d.values? v = some [v])
    (earlier : List UInt32) :
    pool.walkFields nested m under earlier (values.map (⟨id, ·⟩)) =
      (values.zipIdx (earlier.count d.number)).flatMap fun e =>
        pool.walkValue nested d (d.keyAt under e.2) e.1 := by
  induction values generalizing earlier with
  | nil => rfl
  | cons v values ih =>
      have hcount : (earlier ++ [d.number]).count d.number = earlier.count d.number + 1 := by simp
      have hv := hvalues v List.mem_cons_self
      rw [List.map_cons, List.zipIdx_cons, List.flatMap_cons, ← List.singleton_append,
        walkFields_append, walkFields_singleton hfield hv, valueNumbers_singleton hfield hv,
        ih fun w hw => hvalues w (List.mem_cons_of_mem v hw), hcount]

lemma valueNumbers_values {id : UInt32} (hfield : m.field? id = some d)
    {values : List FieldValue} (hvalues : ∀ v ∈ values, d.values? v = some [v]) :
    m.valueNumbers (values.map (⟨id, ·⟩)) = List.replicate values.length d.number := by
  induction values with
  | nil => rfl
  | cons v values ih =>
      have hv := hvalues v List.mem_cons_self
      have hrest := ih fun w hw => hvalues w (List.mem_cons_of_mem v hw)
      simp only [MessageDescriptor.valueNumbers, List.map_cons, List.flatMap_cons] at hrest ⊢
      rw [hrest]
      simp [hfield, hv, List.replicate_succ]

/-- None of the values in a packed run is length-delimited, so none is taken for a run itself. -/
lemma values?_of_unpacked {run : Bytes} {values : List FieldValue} (hpackable : d.type.packable)
    (hsame : values.map d.type.element = (d.type.packedValues run).map d.type.element)
    {v : FieldValue} (hv : v ∈ values) : d.values? v = some [v] := by
  have hmem : d.type.element v ∈ (d.type.packedValues run).map d.type.element :=
    hsame ▸ List.mem_map_of_mem hv
  obtain ⟨w, hw, heq⟩ := List.mem_map.mp hmem
  have hwire : v.wireType = w.wireType := by
    rw [← FieldType.wireType_element d.type v, ← heq, FieldType.wireType_element]
  have hne := FieldType.wireType?_ne_of_packable hpackable
  rw [FieldType.wireType?_of_mem_packedValues hpackable hw, ← hwire] at hne
  cases v with
  | lengthDelimited b => exact absurd rfl hne
  | _ => rfl

/-- A packed run and the single values in it are alike. -/
lemma UnpackedRun.alike {typeName : String} {old new : List Field}
    (h : pool.UnpackedRun typeName old new) {m : MessageDescriptor}
    (hfound : pool.findMessage? typeName = some m) : pool.Alike nested m old new := by
  obtain ⟨hfound', hfield, hrepeated, htype, hpacks, hsame⟩ := h
  rename_i m' id d run values
  cases hfound.symm.trans hfound'
  have hpackable : d.type.packable = true := d.type.packable_iff.mpr htype
  have hmessage : d.type ≠ .message := by
    intro heq
    simp [heq] at htype
  have hrun : d.values? (.lengthDelimited run) = some (d.type.packedValues run) := by
    simp [FieldDescriptor.values?, hrepeated, hpackable, hpacks]
  have hsingle : ∀ v ∈ values, d.values? v = some [v] := fun v hv =>
    values?_of_unpacked hpackable hsame hv
  have hlength : (d.type.packedValues run).length = values.length := by
    simpa using (congrArg List.length hsame).symm
  constructor
  · intro under earlier
    rw [walkFields_values hfield under hsingle, walkValues_congr hmessage under hsame]
    simp [Pool.walkFields, hfield, walkField, hrun]
  · rw [valueNumbers_values hfield hsingle]
    simp [MessageDescriptor.valueNumbers, hfield, hrun, hlength]

/-- **Packed or not makes no difference.** Wherever in a payload a packed run of a repeated field is
replaced by the values in it one by one, in the payload itself or in a message nested in it, the
same arguments are delivered under the same keys in the same order, and reading ends the same
way. -/
theorem parseMessage_unpacked (pool : Pool) {typeName : String} {b b' : Bytes}
    (h : pool.Edited pool.UnpackedRun typeName b b') :
    pool.parseMessage b typeName = pool.parseMessage b' typeName :=
  h.parseMessage_eq fun _ _ _ hrun _ hfound _ => hrun.alike hfound

end Pool

namespace Chain

/-- A nested message that holds a run of three numbers, and behind it a single number. -/
def inOneRun : Bytes := [0x12, 0x05, 0x0A, 0x03, 0x0A, 0x05, 0x02, 0x08, 0x0E]

/-- The same with the three numbers one by one: the nested message is a byte longer. -/
def oneByOne : Bytes := [0x12, 0x06, 0x08, 0x0A, 0x08, 0x05, 0x08, 0x02, 0x08, 0x0E]

/-- A single number of the chain, written in one byte. -/
lemma spelledBy_number {x : UInt8} (h : x < 128) :
    Field.SpelledBy ⟨1, .varint x.toUInt64⟩ [0x08, x] :=
  .shortVarint (by decide) rfl (by decide) h

/-- A nested message of the chain may be edited, if its length stays short. -/
lemma edited_next {rule : String → List Field → List Field → Prop} {content content' : Bytes}
    (h : pool.Edited rule ".Chain" content content') {length length' : UInt8}
    (hshort : length < 128) (hshort' : length' < 128) (hlength : length.toNat = content.length)
    (hlength' : length'.toNat = content'.length) (rest : Bytes) :
    pool.Edited rule ".Chain" ([] ++ (0x12 :: length :: content ++ rest))
      ([] ++ (0x12 :: length' :: content' ++ rest)) := by
  have hfound : pool.findMessage? ".Chain" = some type := by rfl
  have hfield : type.field? 2 = some next := by rfl
  exact .within hfound hfield rfl h spelledFields_nil
    (.shortBytes (by decide) rfl (by decide) hshort hlength)
    (.shortBytes (by decide) rfl (by decide) hshort' hlength')

lemma edited_inOneRun : pool.Edited pool.UnpackedRun ".Chain" inOneRun oneByOne := by
  have hfound : pool.findMessage? ".Chain" = some type := by rfl
  have hrun : pool.UnpackedRun ".Chain" [⟨1, .lengthDelimited [0x0A, 0x05, 0x02]⟩]
      ([.varint 10, .varint 5, .varint 2].map (⟨1, ·⟩)) :=
    .intro hfound (d := weight) rfl rfl (by decide) (by decide) (by decide)
  have hold : Field.SpelledBy ⟨1, .lengthDelimited [0x0A, 0x05, 0x02]⟩
      [0x0A, 0x03, 0x0A, 0x05, 0x02] := .shortBytes (by decide) rfl (by decide) (by decide) rfl
  have h10 : Field.SpelledBy ⟨1, .varint 10⟩ [0x08, 0x0A] := spelledBy_number (x := 10) (by decide)
  have h5 : Field.SpelledBy ⟨1, .varint 5⟩ [0x08, 0x05] := spelledBy_number (x := 5) (by decide)
  have h2 : Field.SpelledBy ⟨1, .varint 2⟩ [0x08, 0x02] := spelledBy_number (x := 2) (by decide)
  have hnew : SpelledFields ([.varint 10, .varint 5, .varint 2].map (⟨1, ·⟩))
      [0x08, 0x0A, 0x08, 0x05, 0x08, 0x02] :=
    ⟨[[0x08, 0x0A], [0x08, 0x05], [0x08, 0x02]], rfl, .cons h10 (.cons h5 (.cons h2 .nil))⟩
  have hinner : pool.Edited pool.UnpackedRun ".Chain"
      ([] ++ ([0x0A, 0x03, 0x0A, 0x05, 0x02] ++ []))
      ([] ++ ([0x08, 0x0A, 0x08, 0x05, 0x08, 0x02] ++ [])) :=
    .here hrun spelledFields_nil hold.fields hnew
  exact edited_next hinner (by decide) (by decide) rfl rfl [0x08, 0x0E]

/-- A run in a nested message is read like the single numbers. -/
theorem parseMessage_inOneRun :
    pool.Edited pool.UnpackedRun ".Chain" inOneRun oneByOne ∧
      pool.parseMessage inOneRun ".Chain" = pool.parseMessage oneByOne ".Chain" :=
  ⟨edited_inOneRun, pool.parseMessage_unpacked edited_inOneRun⟩

end Chain

/-! ### Fields that are not declared -/

/-- A field with a number that the message, if its type is known, does not declare may be put
in. -/
inductive Pool.UndeclaredField (pool : Pool) : String → List Field → List Field → Prop where
  | intro {typeName : String} {f : Field} :
    (∀ m, pool.findMessage? typeName = some m → m.field? f.id = none) →
      Pool.UndeclaredField pool typeName [] [f]

namespace Pool

variable {pool : Pool}

/-- Of a field that is not declared nothing is met. -/
lemma UndeclaredField.alike {nested : Bytes → String → Key → List Finding} {typeName : String}
    {old new : List Field} (h : pool.UndeclaredField typeName old new) {m : MessageDescriptor}
    (hfound : pool.findMessage? typeName = some m) : pool.Alike nested m old new := by
  obtain ⟨hundeclared⟩ := h
  have hfield := hundeclared m hfound
  constructor
  · intro under earlier
    simp [Pool.walkFields, hfield]
  · simp [MessageDescriptor.valueNumbers, hfield]

/-- **Fields of later versions do not matter.** Wherever between fields, of a payload itself or of a
message nested in it, a field is put in that the message there does not declare, whatever its wire
type and content, the same arguments are delivered under the same keys in the same order, and
reading ends the same way. -/
theorem parseMessage_with_undeclared (pool : Pool) {typeName : String} {b b' : Bytes}
    (h : pool.Edited pool.UndeclaredField typeName b b') :
    pool.parseMessage b typeName = pool.parseMessage b' typeName :=
  h.parseMessage_eq fun _ _ _ hfield _ hfound _ => hfield.alike hfound

end Pool

namespace Chain

/-- The run and the number behind it, and between them a field that is not declared. Its content
looks like the number of the chain. -/
def withLater : Bytes :=
  [0x12, 0x09, 0x0A, 0x03, 0x0A, 0x05, 0x02, 0x4A, 0x02, 0x08, 0x0C, 0x08, 0x0E]

lemma edited_withLater : pool.Edited pool.UndeclaredField ".Chain" inOneRun withLater := by
  have hfound : pool.findMessage? ".Chain" = some type := by rfl
  have hlater : pool.UndeclaredField ".Chain" [] [⟨9, .lengthDelimited [0x08, 0x0C]⟩] := by
    refine .intro fun m hm => ?_
    cases hfound.symm.trans hm
    rfl
  have hrun : Field.SpelledBy ⟨1, .lengthDelimited [0x0A, 0x05, 0x02]⟩
      [0x0A, 0x03, 0x0A, 0x05, 0x02] := .shortBytes (by decide) rfl (by decide) (by decide) rfl
  have hnew : Field.SpelledBy ⟨9, .lengthDelimited [0x08, 0x0C]⟩ [0x4A, 0x02, 0x08, 0x0C] :=
    .shortBytes (by decide) rfl (by decide) (by decide) rfl
  have hinner : pool.Edited pool.UndeclaredField ".Chain"
      ([0x0A, 0x03, 0x0A, 0x05, 0x02] ++ ([] ++ []))
      ([0x0A, 0x03, 0x0A, 0x05, 0x02] ++ ([0x4A, 0x02, 0x08, 0x0C] ++ [])) :=
    .here hlater hrun.fields spelledFields_nil hnew.fields
  exact edited_next hinner (by decide) (by decide) rfl rfl [0x08, 0x0E]

/-- The field between them is not noticed. -/
theorem parseMessage_withLater :
    pool.Edited pool.UndeclaredField ".Chain" inOneRun withLater ∧
      pool.parseMessage inOneRun ".Chain" = pool.parseMessage withLater ".Chain" :=
  ⟨edited_withLater, pool.parseMessage_with_undeclared edited_withLater⟩

end Chain

end AtomTimeline
