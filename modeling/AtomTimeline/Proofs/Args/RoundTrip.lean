import AtomTimeline.Proofs.Args.MessageValues
import AtomTimeline.Proofs.Schema.BuiltPools
import AtomTimeline.Proofs.Text.Utf8RoundTrip
import AtomTimeline.Proofs.Wire.RoundTrip

/-!
The arguments of a message that was written are its leaves.

* `Pool.scalar?_wire`: a value that is no message reads back as it was, whatever its type.
* `Key.ofPath_append`: the key of a field of a message is the key of the way one step further.
* `MessageValue.Conforms.parseElements`: the elements of a conforming message give its leaves, each
  nested message being read in turn with one level less.
* `Pool.parseMessage_encode`: so reading what was written of a conforming message gives its leaves
  and no error.
-/

namespace AtomTimeline

/-! ### Values that are no messages -/

/-- The low half of a sign-extended 32-bit integer is the integer. -/
lemma low32_extended (v : Int32) : low32 v.toInt64.toUInt64 = v.toInt64 := by
  rw [low32, toInt32_extended]

lemma Pool.enumValue_extended (pool : Pool) (typeName : String) (number : Int32) :
    pool.enumValue typeName number.toInt64.toUInt64 =
      (ScalarValue.enum number).original pool typeName := by
  cases hname : (pool.findEnum? typeName).bind fun e => e.valueName? number.toInt <;>
    simp only [Pool.enumValue, low32_extended, Int32.toInt_toInt64, ScalarValue.original,
      ScalarValue.enumName?, hname]

/-- **A written value reads back**, under a field of its type. -/
theorem Pool.scalar?_wire (pool : Pool) {f : FieldDescriptor} {v : ScalarValue}
    (h : f.type = v.type) : pool.scalar? f v.wire = some (v.original pool f.typeName) := by
  cases v with
  | bool v =>
      simp only [Pool.scalar?, h, ScalarValue.type, ScalarValue.wire, ScalarValue.original]
      cases v <;> rfl
  | enum number =>
      simp only [Pool.scalar?, h, ScalarValue.type, ScalarValue.wire, pool.enumValue_extended]
  | string s =>
      simp only [Pool.scalar?, h, ScalarValue.type, ScalarValue.wire, ScalarValue.original,
        Utf8.lossyText_encode]
  | _ =>
      -- integers: what was extended is cut off again, and what was placed in zig-zag order is found
      simp only [Pool.scalar?, h, ScalarValue.type, ScalarValue.wire, ScalarValue.original,
        low32_extended, Zigzag.read32_ofInt, Zigzag.read64_ofInt, Int64.toInt64_toUInt64,
        Int32.toInt32_toUInt32, UInt32.toUInt32_toUInt64]

/-- A value written on its own is one element. -/
lemma FieldDescriptor.elements_wire {f : FieldDescriptor} {v : ScalarValue} (h : f.type = v.type) :
    f.elements v.wire = .ok [⟨f, v.wire⟩] := by
  cases v <;>
    simp [FieldDescriptor.elements, ScalarValue.wire, h, ScalarValue.type, FieldType.packable]

/-! ### Keys -/

lemma intercalate_append_singleton (names : List String) (name : String) :
    ".".intercalate (names ++ [name]) =
      if names = [] then name else ".".intercalate names ++ "." ++ name := by
  by_cases h : names = []
  · rw [if_pos h, h, List.nil_append, String.intercalate_singleton]
  · rw [if_neg h, String.intercalate_append_of_ne_nil h (List.cons_ne_nil name []),
      String.intercalate_singleton]

/-- Names joined by dots are not the empty string. -/
lemma intercalate_ne_empty {names : List String} (hne : names ≠ [])
    (h : ∀ name ∈ names, name ≠ "") : ".".intercalate names ≠ "" := by
  cases names with
  | nil => exact absurd rfl hne
  | cons name names =>
      have hname : name ≠ "" := h name List.mem_cons_self
      by_cases hrest : names = []
      · rwa [hrest, String.intercalate_singleton]
      · rw [String.intercalate_cons_of_ne_nil hrest]
        intro heq
        simp [String.append_eq_empty_iff] at heq

namespace Key

/-- **One step further**: the key of an element of a message. -/
theorem ofPath_append {path : List KeyStep} (h : ∀ step ∈ path, step.name ≠ "") (e : Element)
    {met : Positions} {earlier : List UInt32}
    (hmet : met.get e.field.number = earlier.count e.field.number) :
    e.key (ofPath path) met = ofPath (path ++ [e.field.step earlier]) := by
  have hempty : (ofPath path).flat.isEmpty = true ↔ path = [] := by
    rw [String.isEmpty_iff]
    by_cases hpath : path = []
    · simp [hpath, ofPath]
    · have hne : (ofPath path).flat ≠ "" :=
        intercalate_ne_empty (by simpa using hpath) (by simpa using h)
      simp [hpath, hne]
  have hnames : path.map KeyStep.name = [] ↔ path = [] := List.map_eq_nil_iff
  have hindexed : path.map KeyStep.indexed = [] ↔ path = [] := List.map_eq_nil_iff
  simp only [Element.key, child, ofName, atPosition, hempty, hmet]
  simp only [ofPath, List.map_append, List.map_singleton, intercalate_append_singleton, hnames,
    hindexed, FieldDescriptor.step, KeyStep.indexed]
  by_cases hpath : path = []
  · by_cases hrep : e.field.repeated = true <;> simp [hpath, hrep, String.append_assoc, toString]
  · by_cases hrep : e.field.repeated = true <;> simp [hpath, hrep, String.append_assoc, toString]

end Key

/-! ### Positions -/

namespace Positions

lemma get_nil (number : UInt32) : get [] number = 0 := rfl

lemma get_cons (entry : UInt32 × ℕ) (met : Positions) (number : UInt32) :
    get (entry :: met) number = if entry.1 = number then entry.2 else get met number := by
  rw [get, List.lookup_cons]
  by_cases h : entry.1 = number
  · subst h
    simp
  · have hne : (number == entry.1) = false := by simpa using Ne.symm h
    rw [hne, if_neg h]
    rfl

/-- One more of a field is counted for that field alone. -/
lemma get_bump (met : Positions) (number other : UInt32) :
    (met.bump number).get other = met.get other + if number = other then 1 else 0 := by
  induction met with
  | nil => rw [bump, get_cons, get_nil, Nat.zero_add]
  | cons entry met ih =>
      rw [bump]
      by_cases hn : entry.1 = number
      · rw [if_pos hn, get_cons, get_cons]
        subst hn
        by_cases h : entry.1 = other <;> simp [h]
      · rw [if_neg hn, get_cons, get_cons, ih]
        by_cases h : entry.1 = other
        · have hne : ¬ number = other := fun heq => hn (h.trans heq.symm)
          simp [h, hne]
        · simp [h]

/-- As many of each field were met as are in the list. -/
def Counts (met : Positions) (earlier : List UInt32) : Prop :=
  ∀ number, met.get number = earlier.count number

lemma Counts.nil : Counts [] [] := fun _ => rfl

lemma Counts.bump {met : Positions} {earlier : List UInt32} (h : met.Counts earlier)
    (number : UInt32) : (met.bump number).Counts (earlier ++ [number]) := by
  intro other
  rw [get_bump, h other, List.count_append, List.count_singleton]
  simp only [beq_iff_eq]

end Positions

/-! ### Messages -/

lemma ArgsResult.andThen_ofArgs (args : List Arg) (second : Unit → ArgsResult) :
    (ofArgs args).andThen second = ⟨args ++ (second ()).args, (second ()).error⟩ := rfl

/-- A value that is no message gives one argument, whatever reads messages. -/
lemma Pool.parseElement_wire (pool : Pool) (nested : NestedReader) {f : FieldDescriptor}
    {v : ScalarValue} (h : f.type = v.type) (key : Key) :
    pool.parseElement nested key ⟨f, v.wire⟩ = .ofArgs [⟨key, v.original pool f.typeName⟩] := by
  simp only [Pool.parseElement, pool.scalar?_wire h]
  rw [h]
  cases v <;> rfl

namespace MessageValue

/-- The elements of the message: one for each value. -/
def elements : MessageValue → List Element
  | empty => []
  | scalar field v rest => ⟨field, v.wire⟩ :: rest.elements
  | message field inner rest => ⟨field, .lengthDelimited inner.encode⟩ :: rest.elements

lemma encode_scalar (field : FieldDescriptor) (v : ScalarValue) (rest : MessageValue) :
    (scalar field v rest).encode = Field.write ⟨field.number, v.wire⟩ ++ rest.encode := by
  rw [encode, fields, writeFields, List.flatMap_cons, encode, writeFields]

lemma encode_message (field : FieldDescriptor) (inner rest : MessageValue) :
    (message field inner rest).encode =
      Field.write ⟨field.number, .lengthDelimited inner.encode⟩ ++ rest.encode := by
  rw [encode, fields, writeFields, List.flatMap_cons, ← encode, ← writeFields, ← encode]

variable {pool : Pool} {m : MessageDescriptor} {levels : ℕ} {v : MessageValue}

/-- The elements of what was written are those of the message. -/
lemma Conforms.elements_eq (h : Conforms pool m levels v) (hm : m.InOrder) :
    m.elements v.fields = (v.elements, none) := by
  induction h with
  | empty => rfl
  | @scalar m levels field v rest hfield htype _ ih =>
      have hfound := MessageDescriptor.field?_of_mem hm hfield
      rw [fields, MessageDescriptor.elements, MessageDescriptor.elementsOf]
      simp only [hfound, FieldDescriptor.elements_wire htype, ih hm]
      rfl
  | @message m n levels field inner rest hfield htype _ _ _ _ ih =>
      have hfound := MessageDescriptor.field?_of_mem hm hfield
      have hone : field.elements (.lengthDelimited (writeFields inner.fields)) =
          .ok [⟨field, .lengthDelimited (writeFields inner.fields)⟩] := by
        simp [FieldDescriptor.elements, htype, FieldType.packable]
      rw [fields, MessageDescriptor.elements, MessageDescriptor.elementsOf]
      simp only [hfound, hone, ih hm]
      rfl

lemma Conforms.id_ne_zero (h : Conforms pool m levels v) (hm : m.InOrder) {f : Field}
    (hf : f ∈ v.fields) : f.id ≠ 0 := by
  induction h with
  | empty => cases hf
  | @scalar m levels field v rest hfield _ _ ih =>
      rcases List.mem_cons.mp hf with rfl | hf
      · exact hm.ne_zero field hfield
      · exact ih hm hf
  | @message m n levels field inner rest hfield _ _ _ _ _ ih =>
      rcases List.mem_cons.mp hf with rfl | hf
      · exact hm.ne_zero field hfield
      · exact ih hm hf

/-- What was written of a message of a length that can be written is scanned back. -/
lemma Conforms.scan_encode (h : Conforms pool m levels v) (hm : m.InOrder)
    (hlen : v.encode.length < 2 ^ 64) : scan v.encode = ⟨v.fields, none⟩ := by
  refine scan_writeFields fun f hf => ⟨h.id_ne_zero hm hf, ?_⟩
  have hwrite : f.write.length ≤ v.encode.length := by
    rw [encode, writeFields]
    exact (List.sublist_flatten_of_mem (List.mem_map_of_mem hf)).length_le
  exact lt_of_le_of_lt (f.length_bytes_le_write.trans hwrite) hlen

/-- Reading what was written of a message is reading its elements. -/
lemma Conforms.parseFields (h : Conforms pool m levels v) (hm : m.InOrder)
    (hlen : v.encode.length < 2 ^ 64) (nested : NestedReader) (typeName : String) (under : Key) :
    pool.parseFields nested m typeName under v.encode =
      pool.parseElements nested none (number under [] v.elements) := by
  rw [Pool.parseFields, h.scan_encode hm hlen]
  simp only [h.elements_eq hm, Scan.malformed]
  rfl

/-- A message at the end of a way gives the arguments that its elements give. -/
lemma Conforms.parseMessageAt (h : Conforms pool m levels v) (hm : m.InOrder)
    (hlen : v.encode.length < 2 ^ 64) {typeName : String}
    (hfound : pool.findMessage? typeName = some m) (under : Key) :
    pool.parseMessageAt (levels + 1) v.encode typeName under =
      pool.parseElements (pool.parseMessageAt levels) none (number under [] v.elements) := by
  rw [Pool.parseMessageAt, hfound]
  exact h.parseFields hm hlen _ typeName under

/-- **The elements of a message give its leaves**, each message in it being read with one level
less. The induction is along the message; how many elements of each field were met is how many of
its values are in front. -/
theorem Conforms.parseElements (hpool : pool.InOrder)
    (hnames : ∀ m ∈ pool.messages, ∀ f ∈ m.fields, f.name ≠ "") (h : Conforms pool m levels v)
    (hm : m ∈ pool.messages) (hlen : v.encode.length < 2 ^ 64) {path : List KeyStep}
    (hpath : ∀ step ∈ path, step.name ≠ "") {met : Positions} {earlier : List UInt32}
    (hmet : met.Counts earlier) :
    pool.parseElements (pool.parseMessageAt levels) none (number (Key.ofPath path) met v.elements) =
      ⟨v.leaves pool path earlier, none⟩ := by
  induction h generalizing path met earlier with
  | empty => rfl
  | @scalar m levels field v rest hfield htype _ ih =>
      have hrest : rest.encode.length < 2 ^ 64 := by
        rw [encode_scalar, List.length_append] at hlen
        omega
      have hkey := Key.ofPath_append hpath ⟨field, v.wire⟩ (hmet field.number)
      have hfirst : pool.parseElement (pool.parseMessageAt levels)
          (Key.ofPath (path ++ [field.step earlier])) ⟨field, v.wire⟩ =
          .ofArgs [⟨Key.ofPath (path ++ [field.step earlier]), v.original pool field.typeName⟩] :=
        pool.parseElement_wire _ htype _
      rw [elements, number, Pool.parseElements, hkey, hfirst, ArgsResult.andThen_ofArgs,
        ih hm hrest hpath (hmet.bump field.number), leaves, List.singleton_append]
  | @message m n levels field inner rest hfield htype hfound hinner _ ihinner ih =>
      rw [encode_message, List.length_append] at hlen
      have hbytes := Field.length_bytes_le_write ⟨field.number, .lengthDelimited inner.encode⟩
      rw [FieldValue.bytes] at hbytes
      have hn := Pool.mem_messages_of_findMessage? hfound
      have hkey := Key.ofPath_append hpath ⟨field, .lengthDelimited inner.encode⟩
        (hmet field.number)
      have hstep : ∀ step ∈ path ++ [field.step earlier], step.name ≠ "" := by
        intro step hstep
        rcases List.mem_append.mp hstep with hstep | hstep
        · exact hpath step hstep
        · rw [List.mem_singleton.mp hstep]
          exact hnames m hm field hfield
      have hfirst : pool.parseElement (pool.parseMessageAt (levels + 1))
          (Key.ofPath (path ++ [field.step earlier])) ⟨field, .lengthDelimited inner.encode⟩ =
          .ofArgs (inner.leaves pool (path ++ [field.step earlier]) []) := by
        simp only [Pool.parseElement, htype]
        rw [hinner.parseMessageAt (hpool n hn) (by omega) hfound]
        exact ihinner hn (by omega) hstep Positions.Counts.nil
      rw [elements, number, Pool.parseElements, hkey, hfirst, ArgsResult.andThen_ofArgs,
        ih hm (by omega) hpath (hmet.bump field.number), leaves]

end MessageValue

/-- **Reading undoes writing.** Whatever sets of files a pool was built of, if all its fields have
names: what is written of a message of one of its types, with messages nested in it at most 64 deep,
is read without an error, and the arguments are just the leaves of the message, in order, each under
its keys and with its value. (A message longer than its own length can say cannot be written.) -/
theorem Pool.parseMessage_encode {pool : Pool} (hpool : pool.Built)
    (hnames : ∀ m ∈ pool.messages, ∀ f ∈ m.fields, f.name ≠ "") {typeName : String}
    {m : MessageDescriptor} (hfound : pool.findMessage? typeName = some m) {v : MessageValue}
    (hv : v.Conforms pool m 64) (hlen : v.encode.length < 2 ^ 64) :
    pool.parseMessage v.encode typeName = ⟨v.leaves pool [] [], none⟩ := by
  have hm := Pool.mem_messages_of_findMessage? hfound
  rw [Pool.parseMessage, maxNesting, hv.parseMessageAt (hpool.inOrder m hm) hlen hfound]
  have hpath : ∀ step ∈ ([] : List KeyStep), step.name ≠ "" := by simp
  exact hv.parseElements hpool.inOrder hnames hm hlen hpath Positions.Counts.nil

/-! ### A message within itself -/

namespace Chain

/-- Messages that hold numbers and one message of their own type. -/
def file : FileDecl where
  package := ""
  messages :=
    [.mk "Chain" [⟨"weight", 1, .sint32, "", .repeated⟩, ⟨"next", 2, .message, ".Chain", .optional⟩]
      [] []]
  enums := []

def weight : FieldDescriptor := ⟨"weight", 1, .sint32, "", true⟩

def next : FieldDescriptor := ⟨"next", 2, .message, ".Chain", false⟩

def type : MessageDescriptor := ⟨".Chain", [weight, next]⟩

def pool : Pool := (Pool.empty.add [file]).1

/-- Two numbers, and between them a message with one. -/
def value : MessageValue :=
  .scalar weight (.sint32 (-3))
    (.message next (.scalar weight (.sint32 5) .empty) (.scalar weight (.sint32 7) .empty))

lemma built_pool : pool.Built := .add [file] .empty

lemma pool_eq : pool = ⟨[type], []⟩ := by rfl

lemma conforms_value : value.Conforms pool type 64 := by
  have hweight : weight ∈ type.fields := List.mem_cons_self
  have hnext : next ∈ type.fields := List.mem_cons_of_mem _ List.mem_cons_self
  have hfound : pool.findMessage? ".Chain" = some type := by rfl
  exact .scalar hweight rfl (.message hnext rfl hfound (.scalar hweight rfl .empty)
    (.scalar hweight rfl .empty))

lemma length_encode_value : value.encode.length < 2 ^ 64 := by
  simp [value, MessageValue.encode, MessageValue.fields, writeFields, Field.write,
    FieldValue.write, Varint.write, Varint.groups, writeTag, FieldValue.wireType, WireType.code,
    ScalarValue.wire, weight, next, Zigzag.ofInt]

/-- The positions go on behind the message, and begin again within it. -/
theorem parseMessage_encode_value :
    pool.Built ∧ (∀ m ∈ pool.messages, ∀ f ∈ m.fields, f.name ≠ "") ∧
      pool.findMessage? ".Chain" = some type ∧ value.Conforms pool type 64 ∧
      value.encode.length < 2 ^ 64 ∧
      pool.parseMessage value.encode ".Chain" =
        ⟨[⟨⟨"weight", "weight[0]"⟩, .int (-3)⟩, ⟨⟨"next.weight", "next.weight[0]"⟩, .int 5⟩,
          ⟨⟨"weight", "weight[1]"⟩, .int 7⟩], none⟩ := by
  have hnames : ∀ m ∈ pool.messages, ∀ f ∈ m.fields, f.name ≠ "" := by
    rw [pool_eq]
    decide
  have hfound : pool.findMessage? ".Chain" = some type := by rfl
  refine ⟨built_pool, hnames, hfound, conforms_value, length_encode_value, ?_⟩
  rw [Pool.parseMessage_encode built_pool hnames hfound conforms_value length_encode_value]
  decide

end Chain

end AtomTimeline
