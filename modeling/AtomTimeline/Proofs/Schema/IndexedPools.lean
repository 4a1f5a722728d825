import Std.Data.HashMap.Lemmas
import Std.Data.TreeMap.Lemmas
import AtomTimeline.Proofs.Schema.Rearrangements

/-!
Pools with an index: messages stand in an array and are found through a map from full names to
positions; enums and the fields of a message stand in maps.

* `IndexedPool.add` adds a set of files definition by definition, and then changes the type names of
  the new messages in place.
* `FieldMap.Keyed`: every field stands under its own number, which is positive and has 31 bits.
* `IndexedPool.Refines`: the index gives the position of the first message of a name, no name stands
  twice, and all is as in a pool without an index. `IndexedPool.Refines.add`,
  `IndexedPool.refines_addAll`: additions keep this, and end in the same error.
-/

namespace AtomTimeline

/-- Fields by their numbers. -/
abbrev FieldMap := Std.TreeMap UInt32 FieldDescriptor

/-- A message type with its fields in a map. -/
structure IndexedMessage where
  fullName : String
  fields : FieldMap

/-- The types that are known, with an index of the messages by full name. -/
structure IndexedPool where
  messages : Array IndexedMessage
  /-- The position of each message. -/
  index : Std.HashMap String ℕ
  enums : Std.HashMap String EnumDescriptor

/-! ### Fields -/

namespace FieldMap

/-- The fields in the order of their numbers. -/
def inOrder (fields : FieldMap) : List FieldDescriptor := fields.toList.map Prod.snd

/-- Every field stands under its own number, which is positive and has 31 bits. -/
def Keyed (fields : FieldMap) : Prop :=
  ∀ (number : UInt32) (d : FieldDescriptor), fields[number]? = some d →
    d.number = number ∧ 1 ≤ d.number.toNat ∧ d.number.toNat ≤ 2 ^ 31 - 1

namespace Keyed

variable {fields : FieldMap}

lemma empty : Keyed (∅ : FieldMap) := by
  intro number d hd
  rw [Std.TreeMap.getElem?_emptyc] at hd
  cases hd

lemma mem_inOrder_iff (h : Keyed fields) {d : FieldDescriptor} :
    d ∈ fields.inOrder ↔ fields[d.number]? = some d := by
  rw [inOrder, List.mem_map]
  constructor
  · rintro ⟨entry, hentry, rfl⟩
    have hd := Std.TreeMap.mem_toList_iff_getElem?_eq_some.mp hentry
    rwa [(h _ _ hd).1]
  · intro hd
    exact ⟨(d.number, d), Std.TreeMap.mem_toList_iff_getElem?_eq_some.mpr hd, rfl⟩

lemma inOrder_spec (h : Keyed fields) : FieldsInOrder fields.inOrder := by
  refine ⟨List.pairwise_map.mpr (Std.TreeMap.ordered_keys_toList.imp_of_mem ?_), fun d hd => ?_⟩
  · intro first second hfirst hsecond hlt
    rw [(h _ _ (Std.TreeMap.mem_toList_iff_getElem?_eq_some.mp hfirst)).1,
      (h _ _ (Std.TreeMap.mem_toList_iff_getElem?_eq_some.mp hsecond)).1]
    exact Std.compare_eq_lt.mp hlt
  · rintro hzero
    have hpos := (h _ _ (h.mem_inOrder_iff.mp hd)).2.1
    rw [hzero] at hpos
    exact absurd hpos (by decide)

/-- What stands under a number is found under it among the fields in order. -/
lemma find?_inOrder (h : Keyed fields) (number : UInt32) :
    fields.inOrder.find? (fun d => d.number = number) = fields[number]? := by
  cases hd : fields[number]? with
  | some d =>
      obtain rfl := (h _ _ hd).1
      exact find?_of_ascending h.inOrder_spec.ascending (h.mem_inOrder_iff.mpr hd)
  | none =>
      refine List.find?_eq_none.mpr fun d hmem hnumber => ?_
      obtain rfl := of_decide_eq_true hnumber
      rw [h.mem_inOrder_iff.mp hmem] at hd
      cases hd

end Keyed

end FieldMap

/-- Fields in the order of their numbers are the same if they are found under the same numbers. -/
lemma FieldsInOrder.eq_of_find? {fields fields' : List FieldDescriptor} (h : FieldsInOrder fields)
    (h' : FieldsInOrder fields')
    (hfind : ∀ number : UInt32, fields.find? (fun d => d.number = number) =
      fields'.find? fun d => d.number = number) : fields = fields' := by
  have hirrefl : ∀ a b : FieldDescriptor, a.number < b.number → a ≠ b := by
    rintro a b hlt rfl
    exact UInt32.lt_irrefl _ hlt
  refine List.Perm.eq_of_pairwise (fun a b _ _ hab hba => absurd (UInt32.lt_trans hab hba)
    (UInt32.lt_irrefl _)) h.ascending h'.ascending ?_
  refine (List.perm_ext_iff_of_nodup (h.ascending.imp (hirrefl _ _))
    (h'.ascending.imp (hirrefl _ _))).mpr fun d => ⟨fun hd => ?_, fun hd => ?_⟩
  · exact List.mem_of_find?_eq_some ((hfind _).symm.trans (find?_of_ascending h.ascending hd))
  · exact List.mem_of_find?_eq_some ((hfind _).trans (find?_of_ascending h'.ascending hd))

namespace FieldMap

variable {fields found : FieldMap}

lemma Keyed.eq_inOrder (h : Keyed fields) {ds : List FieldDescriptor} (hds : FieldsInOrder ds)
    (hfind : ∀ number : UInt32, fields[number]? = ds.find? fun d => d.number = number) :
    fields.inOrder = ds :=
  h.inOrder_spec.eq_of_find? hds fun number => (h.find?_inOrder number).trans (hfind number)

/-- Declared fields one after the other, up to one whose number cannot be used. -/
def addFields (message : String) :
    List FieldDecl → FieldMap → Except InvalidFieldNumber FieldMap
  | [], fields => .ok fields
  | f :: fs, fields =>
    match f.descriptor message with
    | .ok d => addFields message fs (fields.insert d.number d)
    | .error e => .error e

lemma getElem?_insert (d : FieldDescriptor) (fields : FieldMap) (number : UInt32) :
    (fields.insert d.number d)[number]? =
      if d.number = number then some d else fields[number]? := by
  simp only [Std.TreeMap.getElem?_insert, Std.compare_eq_iff_eq]

lemma Keyed.insert (h : Keyed fields) {message : String} {f : FieldDecl} {d : FieldDescriptor}
    (hd : f.descriptor message = .ok d) : Keyed (fields.insert d.number d) := by
  intro number other hother
  rw [getElem?_insert] at hother
  split at hother
  · next hnumber =>
    obtain rfl := Option.some.inj hother
    have husable := FieldDecl.usable_of_descriptor hd
    have htoNat := husable.toNat_number
    rw [← FieldDecl.eq_described hd] at htoNat
    have hbound : Int32.maxValue.toInt = 2147483647 := by decide
    obtain ⟨hpos, hle⟩ := husable
    exact ⟨hnumber, by omega, by omega⟩
  · exact h _ _ hother

lemma Keyed.inOrder_insert (h : Keyed fields) {message : String} {f : FieldDecl}
    {d : FieldDescriptor} (hd : f.descriptor message = .ok d) :
    FieldMap.inOrder (fields.insert d.number d) = insertField d fields.inOrder := by
  refine (h.insert hd).eq_inOrder
    (h.inOrder_spec.insertField (FieldDecl.number_ne_zero_of_descriptor hd)) fun number => ?_
  rw [find?_insertField, h.find?_inOrder, getElem?_insert]

/-- The fields are those of a message without a map, or there is the same error. -/
lemma Keyed.addFields (h : Keyed fields) (message : String) (decls : List FieldDecl) :
    fieldDescriptors message decls fields.inOrder =
      (FieldMap.addFields message decls fields).map FieldMap.inOrder := by
  induction decls generalizing fields with
  | nil => rfl
  | cons f decls ih =>
      rw [fieldDescriptors, FieldMap.addFields]
      cases hd : f.descriptor message with
      | error e => rfl
      | ok d =>
          have hinsert := ih (h.insert hd)
          rw [h.inOrder_insert hd] at hinsert
          exact hinsert

lemma Keyed.of_addFields (h : Keyed fields) {message : String} {decls : List FieldDecl}
    (hfound : FieldMap.addFields message decls fields = .ok found) : Keyed found := by
  induction decls generalizing fields with
  | nil =>
      cases hfound
      exact h
  | cons f decls ih =>
      rw [FieldMap.addFields] at hfound
      cases hd : f.descriptor message with
      | error e =>
          rw [hd] at hfound
          cases hfound
      | ok d =>
          rw [hd] at hfound
          exact ih (h.insert hd) hfound

end FieldMap

/-! ### Additions -/

/-- The descriptor of a message, without a map. -/
def IndexedMessage.descriptor (m : IndexedMessage) : MessageDescriptor where
  fullName := m.fullName
  fields := m.fields.inOrder

/-- The declared type name is a relative one. -/
def isUnresolved (name : String) : Bool :=
  match name.toList with
  | [] => false
  | '.' :: _ => false
  | _ => true

/-- A pool without an index after sets of files were added one after the other, each with or without
an error. -/
def Pool.addAll (sets : List FileSet) : Pool :=
  sets.foldl (fun pool set => (pool.add set).1) Pool.empty

namespace IndexedPool

/-- No types. -/
def empty : IndexedPool := ⟨#[], ∅, ∅⟩

/-- The message type with a full name, where the index says it is. -/
def message? (pool : IndexedPool) (fullName : String) : Option IndexedMessage :=
  pool.index[fullName]?.bind fun position => pool.messages[position]?

/-- The message type with a name, whose leading dot may be missing. -/
def findMessage? (pool : IndexedPool) (name : String) : Option IndexedMessage :=
  pool.message? (Pool.absolute name)

/-- The enum type with a name, whose leading dot may be missing. -/
def findEnum? (pool : IndexedPool) (name : String) : Option EnumDescriptor :=
  pool.enums[Pool.absolute name]?

/-- Adds one definition; a name that is known already keeps its type. -/
def addDefinition (pool : IndexedPool) : Definition → Except InvalidFieldNumber IndexedPool
  | .message fullName decls =>
    if pool.index.contains fullName then .ok pool
    else
      match FieldMap.addFields fullName decls ∅ with
      | .ok fields =>
        .ok
          { pool with
            index := pool.index.insert fullName pool.messages.size
            messages := pool.messages.push ⟨fullName, fields⟩ }
      | .error e => .error e
  | .enum fullName values =>
    .ok { pool with enums := pool.enums.insertIfNew fullName ⟨fullName, values⟩ }

/-- Adds definitions up to one that cannot be used. -/
def addDefinitions (pool : IndexedPool) :
    List Definition → IndexedPool × Option InvalidFieldNumber
  | [] => (pool, none)
  | d :: ds =>
    match pool.addDefinition d with
    | .ok grown => grown.addDefinitions ds
    | .error e => (pool, some e)

/-- A message or an enum with the full name is known. -/
def defines (pool : IndexedPool) (fullName : String) : Bool :=
  pool.index.contains fullName || pool.enums.contains fullName

/-- The full name a relative name has in the innermost scope where it is known. -/
def resolveName? (pool : IndexedPool) (scope name : String) : Option String :=
  ((Pool.scopes scope.toList).map fun s => qualify (String.ofList s) name).find? pool.defines

/-- Changes the type name of one field in place, if its type is known. -/
def resolveField (pool : IndexedPool) (scope : String) (fields : FieldMap) (d : FieldDescriptor) :
    FieldMap :=
  match pool.resolveName? scope d.typeName with
  | some resolved => fields.modify d.number fun f => { f with typeName := resolved }
  | none => fields

/-- Changes the relative type names in a message, field by field. -/
def resolveFields (pool : IndexedPool) (m : IndexedMessage) : IndexedMessage :=
  { m with
    fields := (m.fields.inOrder.filter fun d => isUnresolved d.typeName).foldl
      (pool.resolveField m.fullName) m.fields }

/-- Resolves the type names in all messages but the first `known`. -/
def resolveFrom (pool : IndexedPool) (known : ℕ) : IndexedPool :=
  { pool with
    messages := pool.messages.mapIdx fun position m =>
      if known ≤ position then pool.resolveFields m else m }

/-- Adds all that a set of files defines and resolves the type names in it. -/
def add (pool : IndexedPool) (set : FileSet) : IndexedPool × Option InvalidFieldNumber :=
  match pool.addDefinitions set.definitions with
  | (grown, none) => (grown.resolveFrom pool.messages.size, none)
  | (grown, some e) => (grown, some e)

/-- The pool after sets of files were added one after the other, each with or without an error. -/
def addAll (sets : List FileSet) : IndexedPool :=
  sets.foldl (fun pool set => (pool.add set).1) empty

/-- The index and the maps are those of a pool without them. -/
structure Refines (indexed : IndexedPool) (pool : Pool) : Prop where
  index_eq (fullName : String) :
    indexed.index[fullName]? = indexed.messages.findIdx? fun m => m.fullName = fullName
  nodup : (indexed.messages.toList.map IndexedMessage.fullName).Nodup
  keyed : ∀ m ∈ indexed.messages, m.fields.Keyed
  messages_eq : pool.messages = indexed.messages.toList.map IndexedMessage.descriptor
  enum?_eq (fullName : String) : indexed.enums[fullName]? = pool.enum? fullName

variable {indexed grown : IndexedPool} {pool : Pool}

namespace Refines

lemma empty : IndexedPool.empty.Refines Pool.empty where
  index_eq fullName := by simp [IndexedPool.empty]
  nodup := List.nodup_nil
  keyed m hm := absurd hm (Array.not_mem_empty m)
  messages_eq := rfl
  enum?_eq fullName := Std.HashMap.getElem?_empty

/-- The index leads to the message that a search finds. -/
lemma message?_eq_find? (h : indexed.Refines pool) (fullName : String) :
    indexed.message? fullName = indexed.messages.find? fun m => m.fullName = fullName := by
  rw [message?, h.index_eq, Array.find?_eq_bind_findIdx?_getElem?]

/-- The index leads to the same message. -/
lemma map_message? (h : indexed.Refines pool) (fullName : String) :
    (indexed.message? fullName).map IndexedMessage.descriptor = pool.message? fullName := by
  rw [h.message?_eq_find?, Pool.message?, h.messages_eq, List.find?_map, Array.find?_toList]
  rfl

lemma contains_index (h : indexed.Refines pool) (fullName : String) :
    indexed.index.contains fullName = (pool.message? fullName).isSome := by
  rw [← h.map_message?, h.message?_eq_find?, Option.isSome_map,
    Std.HashMap.contains_eq_isSome_getElem?, h.index_eq, Array.findIdx?_isSome, Bool.eq_iff_iff,
    Array.find?_isSome, Array.any_eq_true']

lemma defines_eq (h : indexed.Refines pool) (fullName : String) :
    indexed.defines fullName = pool.defines fullName := by
  rw [defines, Pool.defines, h.contains_index, Std.HashMap.contains_eq_isSome_getElem?, h.enum?_eq]

lemma fullName_ne_of_unknown (h : indexed.Refines pool) {name : String}
    (hnew : pool.message? name = none) {m : IndexedMessage} (hm : m ∈ indexed.messages) :
    m.fullName ≠ name := by
  rw [← h.map_message?, h.message?_eq_find?, Option.map_eq_none_iff, Array.find?_eq_none] at hnew
  simpa using hnew m hm

/-- A message of a new name is added behind the others, and its position to the index. -/
lemma push (h : indexed.Refines pool) {name : String} {fields : FieldMap}
    (hnew : pool.message? name = none) (hfields : fields.Keyed) :
    Refines
      { indexed with
        index := indexed.index.insert name indexed.messages.size
        messages := indexed.messages.push ⟨name, fields⟩ }
      { pool with messages := pool.messages ++ [⟨name, fields.inOrder⟩] } where
  index_eq fullName := by
    have hnone : indexed.messages.findIdx? (fun m => m.fullName = name) = none := by
      refine Array.findIdx?_eq_none_iff.mpr fun m hm => ?_
      simpa using h.fullName_ne_of_unknown hnew hm
    rw [Std.HashMap.getElem?_insert, Array.findIdx?_push, h.index_eq]
    by_cases hname : name = fullName
    · subst hname
      simp [hnone]
    · simp [hname]
  nodup := by
    rw [Array.toList_push, List.map_append, List.map_singleton, ← List.concat_eq_append,
      List.nodup_concat]
    refine ⟨fun hmem => ?_, h.nodup⟩
    obtain ⟨m, hm, hname⟩ := List.mem_map.mp hmem
    exact h.fullName_ne_of_unknown hnew (Array.mem_toList_iff.mp hm) hname
  keyed m hm := by
    rcases Array.mem_push.mp hm with hm | rfl
    · exact h.keyed m hm
    · exact hfields
  messages_eq := by
    rw [Array.toList_push, List.map_append, h.messages_eq]
    rfl
  enum?_eq := h.enum?_eq

/-- One definition is added to both, or ends in the same error. -/
lemma addDefinition (h : indexed.Refines pool) (d : Definition) :
    (∃ e, indexed.addDefinition d = .error e ∧ pool.addDefinition d = .error e) ∨
      ∃ grown grown', indexed.addDefinition d = .ok grown ∧ pool.addDefinition d = .ok grown' ∧
        grown.Refines grown' := by
  cases d with
  | message fullName decls =>
      rw [IndexedPool.addDefinition, Pool.addDefinition, h.contains_index]
      split
      · exact .inr ⟨_, _, rfl, rfl, h⟩
      · next hnew =>
        have hfields : fieldDescriptors fullName decls [] =
          (FieldMap.addFields fullName decls ∅).map FieldMap.inOrder :=
            FieldMap.Keyed.empty.addFields fullName decls
        rw [hfields]
        cases hfound : FieldMap.addFields fullName decls ∅ with
        | error e => exact .inl ⟨e, rfl, rfl⟩
        | ok found =>
            refine .inr ⟨_, _, rfl, rfl, h.push ?_ (FieldMap.Keyed.empty.of_addFields hfound)⟩
            simpa using hnew
  | enum fullName values =>
      refine .inr ?_
      rw [IndexedPool.addDefinition, Pool.addDefinition]
      split
      · next hknown =>
        refine ⟨_, _, rfl, rfl, h.index_eq, h.nodup, h.keyed, h.messages_eq, fun name => ?_⟩
        rw [← h.enum?_eq, ← Std.HashMap.mem_iff_isSome_getElem?] at hknown
        rw [Std.HashMap.getElem?_insertIfNew, if_neg (fun hname => hname.2 hknown), h.enum?_eq]
      · next hnew =>
        refine ⟨_, _, rfl, rfl, h.index_eq, h.nodup, h.keyed, h.messages_eq, fun name => ?_⟩
        have hnone : pool.enum? fullName = none := by simpa using hnew
        have hmem : fullName ∉ indexed.enums := by
          rw [Std.HashMap.mem_iff_isSome_getElem?, h.enum?_eq, hnone]
          simp
        rw [Std.HashMap.getElem?_insertIfNew, Pool.enum?, List.find?_append, ← Pool.enum?,
          h.enum?_eq]
        by_cases hname : fullName = name
        · subst hname
          simp [hmem, hnone]
        · simp [hname]

/-- Definitions are added to both, up to the same error. -/
lemma addDefinitions (h : indexed.Refines pool) (ds : List Definition) :
    (indexed.addDefinitions ds).1.Refines (pool.addDefinitions ds).1 ∧
      (indexed.addDefinitions ds).2 = (pool.addDefinitions ds).2 := by
  induction ds generalizing indexed pool with
  | nil => exact ⟨h, rfl⟩
  | cons d ds ih =>
      rw [IndexedPool.addDefinitions, Pool.addDefinitions]
      rcases h.addDefinition d with ⟨e, herror, herror'⟩ | ⟨grown, grown', hok, hok', hgrown⟩
      · rw [herror, herror']
        exact ⟨h, rfl⟩
      · rw [hok, hok']
        exact ih hgrown

end Refines

/-! ### Resolving in place -/

lemma getElem?_resolveField (scope : String) (fields : FieldMap) (d : FieldDescriptor)
    (number : UInt32) :
    (indexed.resolveField scope fields d)[number]? =
      if d.number = number then
        fields[number]?.map fun f =>
          { f with typeName := (indexed.resolveName? scope d.typeName).getD f.typeName }
      else fields[number]? := by
  rw [resolveField]
  cases indexed.resolveName? scope d.typeName with
  | none =>
      simp only [Option.getD_none, Option.map_id_fun', id, ite_self]
  | some resolved =>
      simp only [Std.TreeMap.getElem?_modify, Std.compare_eq_iff_eq, Option.getD_some]
      split
      · next hnumber => rw [hnumber]
      · rfl

/-- Of fields with different numbers each changes what stands under its own number. -/
lemma getElem?_foldl_resolveField (scope : String) {ds : List FieldDescriptor}
    (hds : ds.Pairwise fun d d' => d.number < d'.number) (fields : FieldMap) (number : UInt32) :
    (ds.foldl (indexed.resolveField scope) fields)[number]? =
      match ds.find? fun d => d.number = number with
      | some d =>
        fields[number]?.map fun f =>
          { f with typeName := (indexed.resolveName? scope d.typeName).getD f.typeName }
      | none => fields[number]? := by
  induction hds generalizing fields with
  | nil => rfl
  | @cons d ds hd _ ih =>
      rw [List.foldl_cons, ih, getElem?_resolveField]
      by_cases hnumber : d.number = number
      · subst hnumber
        have hnone : ds.find? (fun d' => d'.number = d.number) = none := by
          refine List.find?_eq_none.mpr fun d' hd' hsame => ?_
          exact UInt32.lt_irrefl _ (of_decide_eq_true hsame ▸ hd d' hd')
        simp [hnone]
      · rw [if_neg hnumber, List.find?_cons_of_neg (by simpa using hnumber)]

lemma Refines.resolveName?_eq (h : indexed.Refines pool) (scope name : String) :
    indexed.resolveName? scope name = pool.resolveName? scope name := by
  rw [resolveName?, Pool.resolveName?, funext h.defines_eq]

lemma Refines.resolvedName_eq (h : indexed.Refines pool) (scope name : String) :
    pool.resolvedName scope name =
      if isUnresolved name then (indexed.resolveName? scope name).getD name else name := by
  rw [h.resolveName?_eq, Pool.resolvedName, isUnresolved]
  split <;> simp_all

/-- Each field of a message gets the type name it has without an index. -/
lemma Refines.getElem?_resolveFields (h : indexed.Refines pool) {m : IndexedMessage}
    (hm : m.fields.Keyed) (number : UInt32) :
    (indexed.resolveFields m).fields[number]? =
      m.fields[number]?.map fun f =>
        { f with typeName := pool.resolvedName m.fullName f.typeName } := by
  have hordered := hm.inOrder_spec.ascending.filter fun d => isUnresolved d.typeName
  rw [resolveFields, getElem?_foldl_resolveField _ hordered]
  cases hd : m.fields[number]? with
  | none => split <;> rfl
  | some d =>
      obtain rfl := (hm _ _ hd).1
      have hmem := hm.mem_inOrder_iff.mpr hd
      cases hname : isUnresolved d.typeName with
      | true =>
          rw [find?_of_ascending hordered (List.mem_filter.mpr ⟨hmem, hname⟩)]
          simp [h.resolvedName_eq, hname]
      | false =>
          have hnone : (m.fields.inOrder.filter fun d => isUnresolved d.typeName).find?
              (fun d' => d'.number = d.number) = none := by
            refine List.find?_eq_none.mpr fun d' hd' hsame => ?_
            obtain ⟨hd', hname'⟩ := List.mem_filter.mp hd'
            have hat := hm.mem_inOrder_iff.mp hd'
            rw [of_decide_eq_true hsame, hd] at hat
            rw [← Option.some.inj hat, hname] at hname'
            cases hname'
          simp [hnone, h.resolvedName_eq, hname]

lemma Refines.keyed_resolveFields (h : indexed.Refines pool) {m : IndexedMessage}
    (hm : m.fields.Keyed) : (indexed.resolveFields m).fields.Keyed := by
  intro number d hd
  rw [h.getElem?_resolveFields hm, Option.map_eq_some_iff] at hd
  obtain ⟨f, hf, rfl⟩ := hd
  exact hm number f hf

lemma Refines.descriptor_resolveFields (h : indexed.Refines pool) {m : IndexedMessage}
    (hm : m.fields.Keyed) :
    (indexed.resolveFields m).descriptor = pool.resolveFields m.descriptor := by
  rw [IndexedMessage.descriptor, Pool.resolveFields, MessageDescriptor.mk.injEq]
  refine ⟨rfl, (h.keyed_resolveFields hm).eq_inOrder
    (Pool.inOrder_resolveFields (m := m.descriptor) hm.inOrder_spec pool) fun number => ?_⟩
  rw [h.getElem?_resolveFields hm, ← hm.find?_inOrder, List.find?_map]
  rfl

lemma toList_resolveFrom (indexed : IndexedPool) (known : ℕ) :
    (indexed.resolveFrom known).messages.toList =
      indexed.messages.toList.take known ++
        (indexed.messages.toList.drop known).map indexed.resolveFields := by
  rw [resolveFrom, Array.toList_mapIdx]
  generalize indexed.messages.toList = messages
  refine List.ext_getElem? fun position => ?_
  rw [List.getElem?_mapIdx, List.getElem?_append, List.length_take, List.getElem?_map]
  by_cases hknown : known ≤ position
  · simp only [hknown, if_true]
    rw [if_neg (by omega), List.getElem?_drop]
    rcases Nat.lt_or_ge position messages.length with hlt | hge
    · rw [show known + (position - min known messages.length) = position by omega]
    · rw [List.getElem?_eq_none hge, List.getElem?_eq_none (by omega)]
  · simp only [hknown, if_false, Option.map_id_fun', id]
    rcases Nat.lt_or_ge position messages.length with hlt | hge
    · rw [if_pos (by omega), List.getElem?_take_of_lt (by omega)]
    · rw [if_neg (by omega), List.getElem?_eq_none hge, List.getElem?_eq_none (by simp; omega)]
      rfl

/-- Resolving changes no full name. -/
lemma fullName_resolveFrom (indexed : IndexedPool) (known : ℕ) :
    (indexed.resolveFrom known).messages.map IndexedMessage.fullName =
      indexed.messages.map IndexedMessage.fullName := by
  refine Array.ext (by simp [resolveFrom]) fun position _ _ => ?_
  simp only [resolveFrom, Array.getElem_map, Array.getElem_mapIdx]
  split <;> rfl

/-- Resolving goes the same way with an index. -/
lemma Refines.resolveFrom (h : indexed.Refines pool) (known : ℕ) :
    (indexed.resolveFrom known).Refines (pool.resolveFrom known) where
  index_eq fullName := by
    have hsearch : ∀ messages : Array IndexedMessage,
        messages.findIdx? (fun m => m.fullName = fullName) =
          (messages.map IndexedMessage.fullName).findIdx? (· = fullName) := fun messages => by
      rw [Array.findIdx?_map]
      rfl
    rw [hsearch, fullName_resolveFrom, ← hsearch]
    exact h.index_eq fullName
  nodup := by
    rw [← Array.toList_map, fullName_resolveFrom, Array.toList_map]
    exact h.nodup
  keyed m hm := by
    rw [← Array.mem_toList_iff, toList_resolveFrom, List.mem_append, List.mem_map] at hm
    rcases hm with hm | ⟨m, hm, rfl⟩
    · exact h.keyed m (Array.mem_toList_iff.mp (List.mem_of_mem_take hm))
    · exact h.keyed_resolveFields (h.keyed m (Array.mem_toList_iff.mp (List.mem_of_mem_drop hm)))
  messages_eq := by
    rw [toList_resolveFrom, Pool.resolveFrom, h.messages_eq, List.map_append, List.map_take,
      ← List.map_drop, List.map_map, List.map_map]
    refine congrArg₂ _ rfl (List.map_congr_left fun m hm => ?_)
    have hmem := Array.mem_toList_iff.mp (List.mem_of_mem_drop hm)
    exact (h.descriptor_resolveFields (h.keyed m hmem)).symm
  enum?_eq := h.enum?_eq

/-- A set of files is added to both, and ends in the same error or in none. -/
theorem Refines.add (h : indexed.Refines pool) (set : FileSet) :
    (indexed.add set).1.Refines (pool.add set).1 ∧ (indexed.add set).2 = (pool.add set).2 := by
  obtain ⟨hgrown, herror⟩ := h.addDefinitions set.definitions
  have hsize : pool.messages.length = indexed.messages.size := by rw [h.messages_eq]; simp
  rw [IndexedPool.add, Pool.add]
  cases hadded : indexed.addDefinitions set.definitions with
  | mk grown error =>
      cases hadded' : pool.addDefinitions set.definitions with
      | mk grown' error' =>
          rw [hadded, hadded'] at hgrown herror
          obtain rfl : error = error' := herror
          cases error with
          | none => exact ⟨hsize ▸ hgrown.resolveFrom _, rfl⟩
          | some e => exact ⟨hgrown, rfl⟩

theorem refines_addAll (sets : List FileSet) : (addAll sets).Refines (Pool.addAll sets) := by
  induction sets using List.reverseRecOn with
  | nil => exact .empty
  | append_singleton sets set ih =>
      rw [addAll, Pool.addAll, List.foldl_append, List.foldl_append]
      exact (ih.add set).1

end IndexedPool

end AtomTimeline
