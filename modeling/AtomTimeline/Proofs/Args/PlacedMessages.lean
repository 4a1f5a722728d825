import AtomTimeline.Proofs.Args.KeyText
import AtomTimeline.Proofs.Args.Walk

/-!
The messages that are met while a payload is read, and the keys that the values in them are given.

* `PlacedMessage` is one message in a payload, under its key; `PlacedMessage.entries` are the values
  in it with the keys they are given, `Pool.Contains` says that one message lies directly in
  another.
* `PlacedMessage.map_key_entries`: in each message the values of a repeated field get the positions
  from zero on, one after the other.
* `Pool.exists_place_of_args_eq`: each argument is delivered for a value in one of these messages,
  under the key that the value was given there, and behind those of the values in front of it.
* `Pool.WellNamed.readsOnward`: the key of an argument is the key of a way that goes on from the
  message it was read in.
* `Pool.WellNamed.nodup_keys`: so if no field that is not repeated occurs twice in one message, no
  two arguments have the same key.
-/

namespace AtomTimeline

/-! ### Messages in a payload -/

/-- A message that is met in a payload. -/
structure PlacedMessage where
  /-- The number of messages it is nested in. -/
  level : ℕ
  key : Key
  message : MessageDescriptor
  content : Bytes

namespace PlacedMessage

/-- The fields in the message, declared or not. -/
def fields (o : PlacedMessage) : List Field := (scan o.content).fields

/-- The values of its declared fields in the order of the bytes, each value of a packed run on its
own. -/
def values (o : PlacedMessage) : List Element :=
  o.fields.flatMap fun f =>
    match o.message.field? f.id with
    | none => []
    | some d => ((d.values? f.value).getD []).map (⟨d, ·⟩)

/-- The values as they are read, with the keys they are given. -/
def entries (o : PlacedMessage) : List (Key × Element) :=
  number o.key [] (o.message.elements o.fields).1

/-- A message that lies directly in this one. -/
def inner (o : PlacedMessage) (key : Key) (m : MessageDescriptor) (content : Bytes) :
    PlacedMessage := ⟨o.level + 1, key, m, content⟩

/-- No field that is not repeated occurs twice in the message. -/
def OnceEach (o : PlacedMessage) : Prop :=
  ∀ id d, o.message.field? id = some d → d.repeated = false → o.fields.countP (·.id = id) ≤ 1

end PlacedMessage

/-- Those values that are no messages themselves. -/
def ownEntries (entries : List (Key × Element)) : List (Key × Element) :=
  entries.filter fun entry => entry.2.field.type ≠ .message

/-- The keys of those values that are no messages themselves. -/
def ownKeys (entries : List (Key × Element)) : List Key := (ownEntries entries).map Prod.fst

lemma ownKeys_append (entries others : List (Key × Element)) :
    ownKeys (entries ++ others) = ownKeys entries ++ ownKeys others := by
  simp [ownKeys, ownEntries]

namespace Pool

/-- The second message lies directly in the first, as the value of a field. Messages that are nested
too deep are not read. -/
inductive Contains (pool : Pool) (o : PlacedMessage) : PlacedMessage → Prop where
  | intro {key : Key} {d : FieldDescriptor} {content : Bytes} {m : MessageDescriptor} :
    (key, (⟨d, .lengthDelimited content⟩ : Element)) ∈ o.entries → d.type = .message →
      o.level < 64 → pool.findMessage? d.typeName = some m →
      Contains pool o (o.inner key m content)

/-- The message is the payload itself or one that lies in it, however deep. -/
def Occurs (pool : Pool) (b : Bytes) (typeName : String) (o : PlacedMessage) : Prop :=
  ∃ m, pool.findMessage? typeName = some m ∧
    Relation.ReflTransGen pool.Contains ⟨0, .root, m, b⟩ o

end Pool

/-! ### Numbering -/

/-- Of values of a repeated field, as many having been met, each gets the next position. -/
lemma map_key_number (under : Key) (met : Positions) {d : FieldDescriptor}
    (hrepeated : d.repeated = true) {es : List Element}
    (hsame : ∀ e ∈ es, e.field.number = d.number → e.field = d) :
    ((number under met es).filter fun e => e.2.field = d).map Prod.fst =
      (List.range' (met.get d.number) (es.countP fun e => e.field = d)).map
        (under.child d.name).atPosition := by
  induction es generalizing met with
  | nil => rfl
  | cons e es ih =>
      have hrest := ih (met.bump e.field.number) fun f hf => hsame f (List.mem_cons_of_mem e hf)
      rw [number]
      by_cases he : e.field = d
      · rw [Positions.get_bump, he, if_pos rfl] at hrest
        have hkey : e.key under met = (under.child d.name).atPosition (met.get d.number) := by
          simp [Element.key, he, hrepeated]
        rw [List.filter_cons_of_pos (by simpa using he),
          List.countP_cons_of_pos (by simpa using he), List.map_cons, he, hrest, hkey,
          List.range'_succ, List.map_cons]
      · have hne : ¬ e.field.number = d.number := fun h => he (hsame e List.mem_cons_self h)
        rw [Positions.get_bump, if_neg hne, Nat.add_zero] at hrest
        rw [List.filter_cons_of_neg (by simpa using he),
          List.countP_cons_of_neg (by simpa using he), hrest]

namespace MessageDescriptor

variable {m : MessageDescriptor}

lemma number_of_field? {id : UInt32} {d : FieldDescriptor} (h : m.field? id = some d) :
    d.number = id := by
  simpa using List.find?_some h

/-- The elements of a message are of the fields it declares. -/
lemma exists_of_mem_elements {fs : List Field} {e : Element} (h : e ∈ (m.elements fs).1) :
    ∃ f ∈ fs, m.field? f.id = some e.field := by
  induction fs with
  | nil => cases h
  | cons f fs ih =>
      rw [elements, elementsOf] at h
      cases hfield : m.field? f.id with
      | none =>
          simp only [hfield, List.nil_append] at h
          obtain ⟨g, hg, hfound⟩ := ih h
          exact ⟨g, List.mem_cons_of_mem f hg, hfound⟩
      | some d =>
          simp only [hfield, FieldDescriptor.elements_eq] at h
          cases hvalues : d.values? f.value with
          | none =>
              rw [hvalues] at h
              cases h
          | some values =>
              simp only [hvalues, List.mem_append, List.mem_map] at h
              rcases h with ⟨v, -, rfl⟩ | h
              · exact ⟨f, List.mem_cons_self, hfield⟩
              · obtain ⟨g, hg, hfound⟩ := ih h
                exact ⟨g, List.mem_cons_of_mem f hg, hfound⟩

/-- A field whose values come again behind it is repeated, if the others occur no more than once. -/
lemma repeated_of_mem_elements {f : Field} {fs : List Field} {d : FieldDescriptor} {e : Element}
    (honce : d.repeated = false → (f :: fs).countP (·.id = f.id) ≤ 1)
    (hfield : m.field? f.id = some d) (he : e ∈ (m.elements fs).1) (hd : e.field = d) :
    d.repeated = true := by
  obtain ⟨g, hg, hfound⟩ := exists_of_mem_elements he
  by_contra hrepeated
  have hid : g.id = f.id := by
    rw [← number_of_field? hfound, hd, number_of_field? hfield]
  have hle := honce (by simpa using hrepeated)
  have hpos : 0 < fs.countP (·.id = f.id) := List.countP_pos_iff.mpr ⟨g, hg, by simpa using hid⟩
  rw [List.countP_cons_of_pos (by simp)] at hle
  omega

end MessageDescriptor

namespace PlacedMessage

/-- The values are read in the order of the bytes, up to a run that cannot be cut. -/
lemma prefix_elements (o : PlacedMessage) : o.entries.map Prod.snd <+: o.values := by
  rw [entries, map_snd_number, values]
  induction o.fields with
  | nil => exact List.nil_prefix
  | cons f fs ih =>
      rw [MessageDescriptor.elements, MessageDescriptor.elementsOf, List.flatMap_cons]
      cases hfield : o.message.field? f.id with
      | none => simpa using ih
      | some d =>
          simp only [FieldDescriptor.elements_eq]
          cases hvalues : d.values? f.value with
          | none => exact List.nil_prefix
          | some values => simpa using ih

/-- **Positions begin at zero and leave out none**, over the values of a repeated field in one
message. -/
theorem map_key_entries (o : PlacedMessage) {id : UInt32} {d : FieldDescriptor}
    (hfield : o.message.field? id = some d) (hrepeated : d.repeated = true) :
    (o.entries.filter fun e => e.2.field = d).map Prod.fst =
      (List.range (o.entries.countP fun e => e.2.field = d)).map
        (o.key.child d.name).atPosition := by
  have hsame : ∀ e ∈ (o.message.elements o.fields).1, e.field.number = d.number → e.field = d := by
    intro e he hnumber
    obtain ⟨f, -, hfound⟩ := MessageDescriptor.exists_of_mem_elements he
    have hid : f.id = id := by
      rw [← MessageDescriptor.number_of_field? hfound, hnumber,
        MessageDescriptor.number_of_field? hfield]
    rw [hid, hfield] at hfound
    exact (Option.some.inj hfound).symm
  have hcount : o.entries.countP (fun e => e.2.field = d) =
      (o.message.elements o.fields).1.countP fun e => e.field = d := by
    conv_rhs => rw [← map_snd_number o.key [] (o.message.elements o.fields).1, List.countP_map]
    rfl
  rw [hcount, entries, map_key_number o.key [] hrepeated hsame, Positions.get_nil,
    List.range_eq_range']

end PlacedMessage

/-! ### Where arguments come from -/

/-- A list of two parts is cut in front of an element in the first part, or in the second. -/
lemma cut_of_append_eq {α : Type*} {xs ys front back : List α} {x : α}
    (h : xs ++ ys = front ++ x :: back) :
    (∃ tail, xs = front ++ x :: tail) ∨ ∃ later, front = xs ++ later ∧ ys = later ++ x :: back := by
  rcases List.append_eq_append_iff.mp h with ⟨later, hfront, hys⟩ | ⟨tail, hxs, htail⟩
  · exact .inr ⟨later, hfront, hys⟩
  · cases tail with
    | nil => exact .inr ⟨[], by rw [hxs, List.append_nil, List.append_nil], htail.symm⟩
    | cons y tail =>
        obtain ⟨rfl, -⟩ := List.cons.inj htail
        exact .inl ⟨tail, hxs⟩

namespace Pool

variable (pool : Pool)

/-- Nothing is delivered but what the elements deliver, in their order. -/
lemma prefix_parseElements (nested : NestedReader) (after : Option ArgsError)
    (entries : List (Key × Element)) :
    (pool.parseElements nested after entries).args <+:
      entries.flatMap fun e => (pool.parseElement nested e.1 e.2).args := by
  induction entries with
  | nil => exact List.prefix_refl []
  | cons entry entries ih =>
      rw [parseElements, List.flatMap_cons, ArgsResult.andThen]
      split
      · exact List.prefix_append _ _
      · exact List.prefix_append_right_inj _ |>.mpr ih

/-- An element is refused, or delivers its value under its key, or what the message in it
delivers. -/
lemma parseElement_cases (nested : NestedReader) (key : Key) (e : Element) :
    (∃ fault, pool.parseElement nested key e = .ofError fault) ∨
      (∃ value, pool.scalar? e.field e.value = some value ∧
        pool.parseElement nested key e = .ofArgs [⟨key, value⟩]) ∨
      ∃ content, e.field.type = .message ∧ e.value = .lengthDelimited content ∧
        pool.parseElement nested key e = nested content e.field.typeName key := by
  obtain ⟨d, v⟩ := e
  cases htype : d.type with
  | message =>
      cases v with
      | lengthDelimited content =>
          exact .inr (.inr ⟨content, rfl, rfl, by simp only [parseElement, htype]⟩)
      | varint v | fixed64 v | fixed32 v =>
          exact .inl ⟨.wireTypeMismatch d.name (FieldValue.wireType _),
            by simp only [parseElement, htype]; rfl⟩
  | _ =>
      cases hscalar : pool.scalar? d v with
      | none =>
          refine .inl ⟨.wireTypeMismatch d.name v.wireType, ?_⟩
          simp only [parseElement, htype, hscalar]
      | some value => exact .inr (.inl ⟨value, rfl, by simp only [parseElement, htype, hscalar]⟩)

/-- A value that is no message delivers its key, unless it ends the reading. -/
lemma ownKeys_singleton_sublist {nested : NestedReader} {entry : Key × Element}
    (h : (pool.parseElement nested entry.1 entry.2).error = none) :
    (ownKeys [entry]).Sublist ((pool.parseElement nested entry.1 entry.2).args.map Arg.key) := by
  obtain ⟨key, e⟩ := entry
  cases htype : e.field.type with
  | message => simp [ownKeys, ownEntries, htype]
  | _ =>
      simp only [parseElement, htype] at h ⊢
      cases hscalar : pool.scalar? e.field e.value with
      | none =>
          rw [hscalar] at h
          cases h
      | some value => simp [ownKeys, ownEntries, htype, ArgsResult.ofArgs]

/-- An argument is delivered for one of the elements, behind the keys of the elements in front of
that one. -/
lemma exists_entry_of_parseElements {nested : NestedReader} {fault : Option ArgsError}
    {entries : List (Key × Element)} {front back : List Arg} {arg : Arg}
    (h : (pool.parseElements nested fault entries).args = front ++ arg :: back) :
    ∃ before key e after, entries = before ++ (key, e) :: after ∧
      ∃ earlier inner rest, front = earlier ++ inner ∧
        (ownKeys before).Sublist (earlier.map Arg.key) ∧
          (pool.parseElement nested key e).args = inner ++ arg :: rest := by
  induction entries generalizing front with
  | nil => simp [parseElements] at h
  | cons entry entries ih =>
      rw [parseElements, ArgsResult.andThen] at h
      cases herror : (pool.parseElement nested entry.1 entry.2).error with
      | some e =>
          rw [herror] at h
          exact ⟨[], entry.1, entry.2, entries, rfl, [], front, back, rfl, .slnil, h⟩
      | none =>
          rw [herror] at h
          have hfirst := pool.ownKeys_singleton_sublist herror
          -- the argument is one of this element, or one of an element behind it
          rcases cut_of_append_eq h with ⟨tail, hargs⟩ | ⟨later, hfront, hrest⟩
          · exact ⟨[], entry.1, entry.2, entries, rfl, [], front, tail, rfl, .slnil, hargs⟩
          · obtain ⟨before, key, e, after, hentries, earlier, inner, rest, hlater, hbefore,
              hinner⟩ := ih hrest
            refine ⟨entry :: before, key, e, after, by rw [hentries, List.cons_append],
              (pool.parseElement nested entry.1 entry.2).args ++ earlier, inner, rest,
              by rw [hfront, hlater, List.append_assoc], ?_, hinner⟩
            rw [← List.singleton_append, ownKeys_append, List.map_append]
            exact hfirst.append hbefore

/-- What is delivered for a message of a known type is delivered for one of the values in it, behind
the arguments of the values in front of that one. -/
lemma exists_entry_of_args_eq {levels : ℕ} {o : PlacedMessage} {typeName : String}
    (hfound : pool.findMessage? typeName = some o.message) {front back : List Arg} {arg : Arg}
    (h : (pool.parseMessageAt (levels + 1) o.content typeName o.key).args = front ++ arg :: back) :
    ∃ before key e after, o.entries = before ++ (key, e) :: after ∧
      ∃ earlier inner rest, front = earlier ++ inner ∧
        (ownKeys before).Sublist (earlier.map Arg.key) ∧
          (pool.parseElement (pool.parseMessageAt levels) key e).args = inner ++ arg :: rest := by
  rw [parseMessageAt, hfound] at h
  exact pool.exists_entry_of_parseElements h

/-- Nothing is delivered for a message that is nested too deep or of an unknown type. -/
lemma exists_of_mem_parseMessageAt {levels : ℕ} {content : Bytes} {typeName : String} {key : Key}
    {arg : Arg} (h : arg ∈ (pool.parseMessageAt levels content typeName key).args) :
    ∃ left m, levels = left + 1 ∧ pool.findMessage? typeName = some m := by
  cases levels with
  | zero => cases h
  | succ left =>
      cases hfound : pool.findMessage? typeName with
      | none =>
          rw [parseMessageAt, hfound] at h
          cases h
      | some m => exact ⟨left, m, rfl, rfl⟩

/-- A message that something is delivered for lies in the one it was read in. -/
lemma contains_of_mem {levels : ℕ} {o : PlacedMessage} (hlevels : o.level + levels = 64) {key : Key}
    {d : FieldDescriptor} {content : Bytes}
    (hentry : (key, (⟨d, .lengthDelimited content⟩ : Element)) ∈ o.entries)
    (htype : d.type = .message) {arg : Arg}
    (h : arg ∈ (pool.parseMessageAt levels content d.typeName key).args) :
    ∃ left m, levels = left + 1 ∧ pool.findMessage? d.typeName = some m ∧
      pool.Contains o (o.inner key m content) ∧ (o.inner key m content).level + left = 64 := by
  obtain ⟨left, m, rfl, hm⟩ := pool.exists_of_mem_parseMessageAt h
  have hcontains : pool.Contains o (o.inner key m content) := .intro hentry htype (by omega) hm
  refine ⟨left, m, rfl, hm, hcontains, ?_⟩
  simp only [PlacedMessage.inner]
  omega

/-- **Each argument is delivered for a value** in the message or in one that lies in it, under the
key the value was given there, and behind the arguments of the values in front of it. The induction
is on the levels left. -/
theorem exists_place_of_args_eq {levels : ℕ} {o : PlacedMessage} (hlevels : o.level + levels = 64)
    {typeName : String} (hfound : pool.findMessage? typeName = some o.message)
    {front back : List Arg} {arg : Arg}
    (h : (pool.parseMessageAt (levels + 1) o.content typeName o.key).args = front ++ arg :: back) :
    ∃ place, Relation.ReflTransGen pool.Contains o place ∧
      ∃ before e after, place.entries = before ++ (arg.key, e) :: after ∧
        pool.scalar? e.field e.value = some arg.value ∧
          (ownKeys before).Sublist (front.map Arg.key) := by
  induction levels using Nat.strong_induction_on generalizing o typeName front back with
  | _ levels ih =>
      obtain ⟨before, key, e, after, hentries, earlier, inner, rest, rfl, hown, hinner⟩ :=
        pool.exists_entry_of_args_eq hfound h
      rcases pool.parseElement_cases (pool.parseMessageAt levels) key e with
        ⟨fault, hrefused⟩ | ⟨value, hscalar, hone⟩ | ⟨content, htype, hcontent, hnested⟩
      · simp [hrefused, ArgsResult.ofError] at hinner
      · rw [hone, ArgsResult.ofArgs, List.singleton_eq_append_iff] at hinner
        obtain ⟨rfl, harg⟩ | ⟨-, harg⟩ := hinner
        · obtain ⟨rfl, -⟩ := List.cons.inj harg
          rw [List.append_nil]
          exact ⟨o, .refl, before, e, after, hentries, hscalar, hown⟩
        · cases harg
      · obtain ⟨d, v⟩ := e
        obtain rfl : v = .lengthDelimited content := hcontent
        have hentry : (key, (⟨d, .lengthDelimited content⟩ : Element)) ∈ o.entries := by
          simp [hentries]
        rw [hnested] at hinner
        have harg : arg ∈ (pool.parseMessageAt levels content d.typeName key).args := by
          simp [hinner]
        obtain ⟨left, m, rfl, hm, hcontains, hleft⟩ :=
          pool.contains_of_mem hlevels hentry htype harg
        obtain ⟨place, hplace, first, e', last, hsplit, hvalue, hfirst⟩ :=
          ih left (Nat.lt_succ_self left) hleft hm hinner
        exact ⟨place, hplace.head hcontains, first, e', last, hsplit, hvalue,
          hfirst.trans (by simp)⟩

end Pool

/-! ### Keys are ways -/

/-- All field names are identifiers, and in one message no two are the same. -/
structure Pool.WellNamed (pool : Pool) : Prop where
  identifier : ∀ m ∈ pool.messages, ∀ d ∈ m.fields, Identifier d.name
  nodup : ∀ m ∈ pool.messages, (m.fields.map FieldDescriptor.name).Nodup

/-- A field that is not repeated holds one value. -/
lemma FieldDescriptor.values?_of_single {d : FieldDescriptor} (h : d.repeated = false)
    (v : FieldValue) : d.values? v = some [v] := by
  cases v <;> simp [values?, h]

namespace Pool

variable {pool : Pool}

lemma WellNamed.identifier_of_field? (hpool : pool.WellNamed) {m : MessageDescriptor}
    (hm : m ∈ pool.messages) {id : UInt32} {d : FieldDescriptor} (h : m.field? id = some d) :
    Identifier d.name := hpool.identifier m hm d (List.mem_of_find?_eq_some h)

/-- Fields of a message that have one name are one field. -/
lemma WellNamed.eq_of_name_eq (hpool : pool.WellNamed) {m : MessageDescriptor}
    (hm : m ∈ pool.messages) {id id' : UInt32} {d d' : FieldDescriptor} (h : m.field? id = some d)
    (h' : m.field? id' = some d') (hname : d.name = d'.name) : d = d' :=
  List.inj_on_of_nodup_map (hpool.nodup m hm) (List.mem_of_find?_eq_some h)
    (List.mem_of_find?_eq_some h') hname

/-- Elements of a message are of different fields, or of one that is repeated. -/
lemma WellNamed.pairwise_elements (hpool : pool.WellNamed) {m : MessageDescriptor}
    (hm : m ∈ pool.messages) {fs : List Field}
    (honce : ∀ id d, m.field? id = some d → d.repeated = false → fs.countP (·.id = id) ≤ 1) :
    (m.elements fs).1.Pairwise fun e f =>
      e.field.name = f.field.name → e.field = f.field ∧ e.field.repeated = true := by
  induction fs with
  | nil => exact .nil
  | cons f fs ih =>
      have hrest := ih fun id d hfound hsingle =>
        le_trans (List.sublist_cons_self f fs).countP_le (honce id d hfound hsingle)
      rw [MessageDescriptor.elements, MessageDescriptor.elementsOf]
      cases hfield : m.field? f.id with
      | none => simpa using hrest
      | some d =>
          simp only [FieldDescriptor.elements_eq]
          cases hvalues : d.values? f.value with
          | none => exact .nil
          | some values =>
              refine List.pairwise_append.mpr ⟨?_, hrest, ?_⟩
              · by_cases hrepeated : d.repeated = true
                · exact List.pairwise_map.mpr
                    (List.pairwise_of_forall fun _ _ _ => ⟨rfl, hrepeated⟩)
                · rw [d.values?_of_single (by simpa using hrepeated)] at hvalues
                  cases hvalues
                  exact List.pairwise_singleton _ _
              · intro e he g hg hname
                obtain ⟨v, -, rfl⟩ := List.mem_map.mp he
                obtain ⟨f', -, hfield'⟩ := MessageDescriptor.exists_of_mem_elements hg
                have hsame : d = g.field := hpool.eq_of_name_eq hm hfield hfield' hname
                have hrepeated : d.repeated = true :=
                  MessageDescriptor.repeated_of_mem_elements (honce f.id d hfield) hfield hg
                    hsame.symm
                exact ⟨hsame, hrepeated⟩

end Pool

/-- An element is numbered by how many values of its field are in front of it. -/
lemma exists_step_of_mem_number {path : List KeyStep} (hpath : IdentifierPath path)
    {met : Positions} {earlier : List UInt32} (hmet : met.Counts earlier) {es : List Element}
    {key : Key} {e : Element} (h : (key, e) ∈ number (Key.ofPath path) met es) :
    e ∈ es ∧ ∃ before, key = Key.ofPath (path ++ [e.field.step (earlier ++ before)]) := by
  induction es generalizing met earlier with
  | nil => cases h
  | cons first es ih =>
      rw [number, List.mem_cons] at h
      rcases h with heq | h
      · obtain ⟨rfl, rfl⟩ := Prod.mk.inj heq
        refine ⟨List.mem_cons_self, [], ?_⟩
        rw [List.append_nil]
        exact Key.ofPath_append hpath.name_ne_empty e (hmet e.field.number)
      · obtain ⟨hmem, before, hkey⟩ := ih (hmet.bump first.field.number) h
        refine ⟨List.mem_cons_of_mem first hmem, first.field.number :: before, ?_⟩
        rw [hkey, List.append_assoc, List.singleton_append]

/-- A later value of a repeated field is at another position. -/
lemma FieldDescriptor.step_ne {d : FieldDescriptor} (h : d.repeated = true)
    (earlier between : List UInt32) :
    d.step earlier ≠ d.step (earlier ++ [d.number] ++ between) := by
  simp only [step, h, if_true, ne_eq, KeyStep.mk.injEq, Option.some.injEq, true_and,
    List.count_append, List.count_singleton_self]
  omega

/-- Elements that are of different fields, or of one that is repeated, get different steps. -/
lemma pairwise_number {path : List KeyStep} (hpath : IdentifierPath path) {met : Positions}
    {earlier : List UInt32} (hmet : met.Counts earlier) {es : List Element}
    (hes : es.Pairwise fun e f =>
      e.field.name = f.field.name → e.field = f.field ∧ e.field.repeated = true) :
    (number (Key.ofPath path) met es).Pairwise fun a b =>
      ∃ before before', a.2.field.step before ≠ b.2.field.step before' ∧
        a.1 = Key.ofPath (path ++ [a.2.field.step before]) ∧
        b.1 = Key.ofPath (path ++ [b.2.field.step before']) := by
  induction hes generalizing met earlier with
  | nil => exact .nil
  | @cons e es hhead _ ih =>
      have hkey := Key.ofPath_append hpath.name_ne_empty e (hmet e.field.number)
      refine List.pairwise_cons.mpr ⟨fun b hb => ?_, ih (hmet.bump e.field.number)⟩
      obtain ⟨hmem, between, hbkey⟩ :=
        exists_step_of_mem_number hpath (hmet.bump e.field.number) hb
      refine ⟨earlier, _, ?_, hkey, hbkey⟩
      by_cases hname : e.field.name = b.2.field.name
      · obtain ⟨hfield, hrepeated⟩ := hhead b.2 hmem hname
        rw [← hfield]
        exact FieldDescriptor.step_ne hrepeated earlier between
      · exact fun hstep => hname (congrArg KeyStep.name hstep)

namespace Pool

variable {pool : Pool}

lemma WellNamed.identifier_of_mem_entries (hpool : pool.WellNamed) {o : PlacedMessage}
    (hm : o.message ∈ pool.messages) {key : Key} {e : Element} (h : (key, e) ∈ o.entries) :
    Identifier e.field.name := by
  have hmem : e ∈ (o.message.elements o.fields).1 := by
    rw [← map_snd_number o.key [] (o.message.elements o.fields).1]
    exact List.mem_map_of_mem h
  obtain ⟨f, -, hfound⟩ := MessageDescriptor.exists_of_mem_elements hmem
  exact hpool.identifier_of_field? hm hfound

/-- The keys a reader of nested messages gives are ways that go on from the message. -/
def ReadsOnward (nested : NestedReader) : Prop :=
  ∀ content typeName path, IdentifierPath path →
    ∀ arg ∈ (nested content typeName (Key.ofPath path)).args,
      ∃ way, IdentifierPath way ∧ arg.key = Key.ofPath (path ++ way)

/-- What an element delivers is under its key or further on. -/
lemma ReadsOnward.element {nested : NestedReader} (h : ReadsOnward nested) {path : List KeyStep}
    (hpath : IdentifierPath path) {e : Element} {arg : Arg}
    (harg : arg ∈ (pool.parseElement nested (Key.ofPath path) e).args) :
    ∃ way, IdentifierPath way ∧ arg.key = Key.ofPath (path ++ way) := by
  rcases pool.parseElement_cases nested (Key.ofPath path) e with
    ⟨fault, hrefused⟩ | ⟨value, -, hone⟩ | ⟨content, -, -, hinner⟩
  · simp [hrefused, ArgsResult.ofError] at harg
  · rw [hone, ArgsResult.ofArgs, List.mem_singleton] at harg
    subst harg
    exact ⟨[], by simp [IdentifierPath], by rw [List.append_nil]⟩
  · rw [hinner] at harg
    exact h content _ path hpath arg harg

/-- What is delivered under different steps is under different full keys. -/
lemma ReadsOnward.disjoint {nested : NestedReader} (h : ReadsOnward nested) {path : List KeyStep}
    (hpath : IdentifierPath path) {s t : KeyStep} (hs : Identifier s.name) (ht : Identifier t.name)
    (hne : s ≠ t) {e e' : Element} :
    List.Disjoint
      ((pool.parseElement nested (Key.ofPath (path ++ [s])) e).args.map (·.key.full))
      ((pool.parseElement nested (Key.ofPath (path ++ [t])) e').args.map (·.key.full)) := by
  have hpaths := hpath.append (.singleton hs)
  have hpatht := hpath.append (.singleton ht)
  rw [List.disjoint_left]
  intro full hfull hfull'
  obtain ⟨arg, harg, rfl⟩ := List.mem_map.mp hfull
  obtain ⟨arg', harg', heq⟩ := List.mem_map.mp hfull'
  obtain ⟨way, hway, hkey⟩ := h.element hpaths harg
  obtain ⟨way', hway', hkey'⟩ := h.element hpatht harg'
  rw [hkey, hkey'] at heq
  have hways : path ++ [t] ++ way' = path ++ [s] ++ way :=
    Key.eq_of_full_eq (hpatht.append hway') (hpaths.append hway) heq
  have hsteps : t = s ∧ way' = way := by simpa using hways
  exact hne hsteps.1.symm

/-- **The key of an argument is the key of a way** that goes on from the message it was read in. The
induction is on the levels left. -/
theorem WellNamed.readsOnward (hpool : pool.WellNamed) (levels : ℕ) :
    ReadsOnward (pool.parseMessageAt levels) := by
  induction levels with
  | zero =>
      intro content typeName path _ arg harg
      cases harg
  | succ levels ih =>
      intro content typeName path hpath arg harg
      obtain ⟨left, m, -, hfound⟩ := pool.exists_of_mem_parseMessageAt harg
      obtain ⟨front, back, hargs⟩ := List.append_of_mem harg
      obtain ⟨before, key, e, after, hentries, earlier, inner, rest, -, -, hinner⟩ :=
        pool.exists_entry_of_args_eq (o := ⟨0, Key.ofPath path, m, content⟩) hfound hargs
      have hentry : (key, e) ∈ PlacedMessage.entries ⟨0, Key.ofPath path, m, content⟩ := by
        simp [hentries]
      have helement : arg ∈ (pool.parseElement (pool.parseMessageAt levels) key e).args := by
        simp [hinner]
      have hname := hpool.identifier_of_mem_entries (mem_messages_of_findMessage? hfound) hentry
      obtain ⟨-, before, rfl⟩ := exists_step_of_mem_number hpath .nil hentry
      have hstep : IdentifierPath [e.field.step ([] ++ before)] := .singleton hname
      obtain ⟨way, hway, hkey⟩ := ih.element (hpath.append hstep) helement
      exact ⟨_, hstep.append hway, by rw [hkey, List.append_assoc]⟩

/-- Values in one message deliver under different full keys, if no field in it that is not repeated
occurs twice. -/
lemma WellNamed.pairwise_disjoint (hpool : pool.WellNamed) {o : PlacedMessage}
    (hm : o.message ∈ pool.messages) {path : List KeyStep} (hpath : IdentifierPath path)
    (hkey : o.key = Key.ofPath path) (honce : o.OnceEach) {nested : NestedReader}
    (hnested : ReadsOnward nested) :
    o.entries.Pairwise fun a b =>
      List.Disjoint ((pool.parseElement nested a.1 a.2).args.map (·.key.full))
        ((pool.parseElement nested b.1 b.2).args.map (·.key.full)) := by
  have hapart := pairwise_number hpath .nil (hpool.pairwise_elements hm honce)
  rw [← hkey] at hapart
  refine hapart.imp_of_mem ?_
  rintro ⟨key, e⟩ ⟨key', e'⟩ hentry hentry' ⟨before, before', hne, hstep, hstep'⟩
  have hname := hpool.identifier_of_mem_entries hm hentry
  have hname' := hpool.identifier_of_mem_entries hm hentry'
  obtain rfl : key = Key.ofPath (path ++ [e.field.step before]) := hstep
  obtain rfl : key' = Key.ofPath (path ++ [e'.field.step before']) := hstep'
  exact hnested.disjoint hpath hname hname' hne

/-- **No two arguments have the same full key**, if in no message met a field that is not repeated
occurs twice. The induction is on the levels left. -/
theorem WellNamed.nodup_keys (hpool : pool.WellNamed) {levels : ℕ} {o : PlacedMessage}
    (hlevels : o.level + levels = 64) {typeName : String}
    (hfound : pool.findMessage? typeName = some o.message) {path : List KeyStep}
    (hpath : IdentifierPath path) (hkey : o.key = Key.ofPath path)
    (honce : ∀ place, Relation.ReflTransGen pool.Contains o place → place.OnceEach) :
    ((pool.parseMessageAt (levels + 1) o.content typeName o.key).args.map (·.key.full)).Nodup := by
  induction levels using Nat.strong_induction_on generalizing o typeName path with
  | _ levels ih =>
      have hm := mem_messages_of_findMessage? hfound
      rw [parseMessageAt, hfound]
      refine .sublist ((pool.prefix_parseElements _ _ o.entries).sublist.map _) ?_
      rw [List.map_flatMap, List.nodup_flatMap]
      constructor
      · rintro ⟨key, e⟩ hentry
        have hname := hpool.identifier_of_mem_entries hm hentry
        rcases pool.parseElement_cases (pool.parseMessageAt levels) key e with
          ⟨fault, hrefused⟩ | ⟨value, -, hone⟩ | ⟨content, htype, hcontent, hinner⟩
        · simp [hrefused, ArgsResult.ofError]
        · simp [hone, ArgsResult.ofArgs]
        · rw [hinner]
          by_cases hargs : (pool.parseMessageAt levels content e.field.typeName key).args = []
          · simp [hargs]
          · obtain ⟨arg, harg⟩ := List.exists_mem_of_ne_nil _ hargs
            obtain ⟨d, v⟩ := e
            obtain rfl : v = .lengthDelimited content := hcontent
            obtain ⟨left, m, rfl, hfound', hcontains, hleft⟩ :=
              pool.contains_of_mem hlevels hentry htype harg
            rw [PlacedMessage.entries, hkey] at hentry
            obtain ⟨-, before, hkey'⟩ := exists_step_of_mem_number hpath .nil hentry
            exact ih left (Nat.lt_succ_self left) hleft hfound' (hpath.append (.singleton hname))
              hkey' fun place hplace => honce place (hplace.head hcontains)
      · exact hpool.pairwise_disjoint hm hpath hkey (honce o .refl) (hpool.readsOnward levels)

/-- Each argument of a payload is delivered for a value in a message that is met, behind those of
the values in front of it. -/
lemma exists_occurs_of_args_eq {b : Bytes} {typeName : String} {front back : List Arg} {arg : Arg}
    (h : (pool.parseMessage b typeName).args = front ++ arg :: back) :
    ∃ place, pool.Occurs b typeName place ∧
      ∃ before e after, place.entries = before ++ (arg.key, e) :: after ∧
        pool.scalar? e.field e.value = some arg.value ∧
          (ownKeys before).Sublist (front.map Arg.key) := by
  have harg : arg ∈ (pool.parseMessage b typeName).args := by simp [h]
  obtain ⟨-, m, -, hfound⟩ := pool.exists_of_mem_parseMessageAt harg
  obtain ⟨place, hplace, hvalue⟩ :=
    pool.exists_place_of_args_eq (o := ⟨0, .root, m, b⟩) (Nat.zero_add 64) hfound h
  exact ⟨place, ⟨m, hfound, hplace⟩, hvalue⟩

end Pool

end AtomTimeline
