import Mathlib.Tactic
import AtomTimeline.Schema.Pool

/-!
Pools that were built: by adding sets of files to the empty pool, one after the other.

* `MessageDescriptor.InOrder`: the fields of a message are in the order of their numbers, no two
  have one number, and none has zero. So `MessageDescriptor.field?_of_mem`: a field is found under
  its number.
* `Pool.Built.inOrder`: every message of a built pool is of this kind, also after an error.
-/

namespace AtomTimeline

/-- The fields are in the order of their numbers, which differ and are not zero. -/
structure FieldsInOrder (fields : List FieldDescriptor) : Prop where
  ascending : fields.Pairwise fun f g => f.number < g.number
  ne_zero : ∀ f ∈ fields, f.number ≠ 0

/-- The fields of the message are in the order of their numbers. -/
def MessageDescriptor.InOrder (m : MessageDescriptor) : Prop := FieldsInOrder m.fields

/-! ### Finding a field -/

lemma find?_of_ascending {fields : List FieldDescriptor}
    (h : fields.Pairwise fun f g => f.number < g.number) {f : FieldDescriptor} (hf : f ∈ fields) :
    fields.find? (fun g => g.number = f.number) = some f := by
  induction h with
  | nil => cases hf
  | @cons g gs hg _ ih =>
      rcases List.mem_cons.mp hf with rfl | hf
      · simp
      · have hne : g.number ≠ f.number := UInt32.ne_of_lt (hg f hf)
        rw [List.find?_cons_of_neg (by simpa using hne), ih hf]

namespace MessageDescriptor

variable {m : MessageDescriptor}

lemma field?_of_mem (h : m.InOrder) {f : FieldDescriptor} (hf : f ∈ m.fields) :
    m.field? f.number = some f := find?_of_ascending h.ascending hf

end MessageDescriptor

/-! ### Descriptors of declared fields -/

lemma mem_insertField {f g : FieldDescriptor} {fields : List FieldDescriptor}
    (h : g ∈ insertField f fields) : g = f ∨ g ∈ fields := by
  induction fields with
  | nil => exact Or.inl (List.mem_singleton.mp h)
  | cons first rest ih =>
      rw [insertField] at h
      split at h
      · exact List.mem_cons.mp h
      · split at h
        · rcases List.mem_cons.mp h with rfl | h
          · exact Or.inl rfl
          · exact Or.inr (List.mem_cons_of_mem first h)
        · rcases List.mem_cons.mp h with rfl | h
          · exact Or.inr List.mem_cons_self
          · exact (ih h).imp_right (List.mem_cons_of_mem first)

/-- A field is put in its place. -/
lemma FieldsInOrder.insertField {fields : List FieldDescriptor} (h : FieldsInOrder fields)
    {f : FieldDescriptor} (hf : f.number ≠ 0) : FieldsInOrder (insertField f fields) := by
  refine ⟨?_, fun g hg => ?_⟩
  · have hascending := h.ascending
    clear h
    induction hascending with
    | nil => exact List.pairwise_singleton _ f
    | @cons first rest hfirst hrest ih =>
        rw [AtomTimeline.insertField]
        split
        · next hlt =>
          refine List.pairwise_cons.mpr ⟨fun g hg => ?_, List.pairwise_cons.mpr ⟨hfirst, hrest⟩⟩
          rcases List.mem_cons.mp hg with rfl | hg
          · exact hlt
          · exact UInt32.lt_trans hlt (hfirst g hg)
        · next hnlt =>
          split
          · next heq =>
            exact List.pairwise_cons.mpr ⟨fun g hg => heq ▸ hfirst g hg, hrest⟩
          · next hne =>
            refine List.pairwise_cons.mpr ⟨fun g hg => ?_, ih⟩
            rcases mem_insertField hg with rfl | hg
            · exact UInt32.lt_of_le_of_ne (UInt32.not_lt.mp hnlt) (Ne.symm hne)
            · exact hfirst g hg
  · rcases mem_insertField hg with rfl | hg
    · exact hf
    · exact h.ne_zero g hg

lemma FieldDecl.number_ne_zero_of_descriptor {message : String} {f : FieldDecl}
    {d : FieldDescriptor} (h : f.descriptor message = .ok d) : d.number ≠ 0 := by
  rw [FieldDecl.descriptor] at h
  split at h
  · next hrange =>
    cases h
    intro hzero
    have hnat : (UInt32.ofNat f.number.toNat).toNat = 0 := congrArg UInt32.toNat hzero
    have hbound : Int32.maxValue.toInt = 2147483647 := by decide
    rw [UInt32.toNat_ofNat_of_lt' (show _ < 2 ^ 32 by omega)] at hnat
    omega
  · cases h

lemma FieldsInOrder.fieldDescriptors {message : String} {decls : List FieldDecl}
    {fields found : List FieldDescriptor} (h : FieldsInOrder fields)
    (hfound : fieldDescriptors message decls fields = .ok found) : FieldsInOrder found := by
  induction decls generalizing fields with
  | nil =>
      cases hfound
      exact h
  | cons f decls ih =>
      rw [AtomTimeline.fieldDescriptors] at hfound
      split at hfound
      · next d hd => exact ih (h.insertField (FieldDecl.number_ne_zero_of_descriptor hd)) hfound
      · cases hfound

/-! ### Pools -/

namespace Pool

/-- The pool was built by adding sets of files to the empty one. An addition that ended in an error
counts with what it added. -/
inductive Built : Pool → Prop where
  | empty : Built .empty
  | add {pool : Pool} (set : FileSet) : Built pool → Built (pool.add set).1

/-- The fields of all messages are in the order of their numbers. -/
def InOrder (pool : Pool) : Prop := ∀ m ∈ pool.messages, m.InOrder

variable {pool grown : Pool}

lemma InOrder.addDefinition (h : pool.InOrder) {d : Definition}
    (hgrown : pool.addDefinition d = .ok grown) : grown.InOrder := by
  cases d with
  | message fullName fields =>
      rw [Pool.addDefinition] at hgrown
      split at hgrown
      · cases hgrown
        exact h
      · split at hgrown
        · next found hfound =>
          cases hgrown
          intro m hm
          rcases List.mem_append.mp hm with hm | hm
          · exact h m hm
          · rw [List.mem_singleton.mp hm]
            exact FieldsInOrder.fieldDescriptors ⟨.nil, by simp⟩ hfound
        · cases hgrown
  | enum fullName values =>
      rw [Pool.addDefinition] at hgrown
      split at hgrown <;> cases hgrown <;> exact h

lemma InOrder.addDefinitions (h : pool.InOrder) (ds : List Definition) :
    (pool.addDefinitions ds).1.InOrder := by
  induction ds generalizing pool with
  | nil => exact h
  | cons d ds ih =>
      rw [Pool.addDefinitions]
      split
      · next grown hgrown => exact ih (h.addDefinition hgrown)
      · exact h

lemma inOrder_resolveFields {m : MessageDescriptor} (h : m.InOrder) (pool : Pool) :
    (pool.resolveFields m).InOrder := by
  refine ⟨List.pairwise_map.mpr h.ascending, ?_⟩
  intro f hf
  obtain ⟨g, hg, rfl⟩ := List.mem_map.mp hf
  exact h.ne_zero g hg

lemma InOrder.resolveFrom (h : pool.InOrder) (known : ℕ) : (pool.resolveFrom known).InOrder := by
  intro m hm
  rcases List.mem_append.mp hm with hm | hm
  · exact h m (List.mem_of_mem_take hm)
  · obtain ⟨n, hn, rfl⟩ := List.mem_map.mp hm
    exact inOrder_resolveFields (h n (List.mem_of_mem_drop hn)) pool

/-- **The messages of a built pool** have their fields in the order of numbers, whatever was added
and however it ended. -/
theorem Built.inOrder (h : pool.Built) : pool.InOrder := by
  induction h with
  | empty =>
      intro m hm
      cases hm
  | @add pool set _ ih =>
      have hadded := ih.addDefinitions set.definitions
      rw [Pool.add]
      split
      · next grown hgrown =>
        rw [hgrown] at hadded
        exact hadded.resolveFrom _
      · next grown e hgrown =>
        rw [hgrown] at hadded
        exact hadded

lemma mem_messages_of_findMessage? {name : String} {m : MessageDescriptor}
    (h : pool.findMessage? name = some m) : m ∈ pool.messages := List.mem_of_find?_eq_some h

end Pool

end AtomTimeline
