import Mathlib.Tactic
import AtomTimeline.Schema.Declaration

/-!
What a set of files declares, at whatever depth, and sets that declare the same in another order.

* `MessageDecl.Declares`, `FileSet.Declares`: a type is declared in a message, in one nested in it,
  or in a file. `FileSet.mem_definitions_iff`: just these types are listed.
* `FileSet.Rearranged`: the files, the messages and enums in them, and what is nested in a message
  stand in another order; the fields of a message and the values of an enum do not.
  `FileSet.Rearranged.definitions_perm`: the same types are listed, each as often.
-/

namespace AtomTimeline

/-- The full name of a declared type. -/
def Definition.fullName : Definition → String
  | .message fullName _ => fullName
  | .enum fullName _ => fullName

/-! ### Declared types -/

/-- A message in a scope declares a type: itself, an enum nested in it, or what a message nested in
it declares. -/
inductive MessageDecl.Declares : String → MessageDecl → Definition → Prop where
  | self {scope name : String} {fields : List FieldDecl} {nested : List MessageDecl}
    {enums : List EnumDecl} :
    Declares scope (.mk name fields nested enums) (.message (qualify scope name) fields)
  | enum {scope name : String} {fields : List FieldDecl} {nested : List MessageDecl}
    {enums : List EnumDecl} {e : EnumDecl} : e ∈ enums →
    Declares scope (.mk name fields nested enums) (e.definition (qualify scope name))
  | nested {scope name : String} {fields : List FieldDecl} {nested : List MessageDecl}
    {enums : List EnumDecl} {m : MessageDecl} {d : Definition} : m ∈ nested →
    Declares (qualify scope name) m d → Declares scope (.mk name fields nested enums) d

/-- A set of files declares a type: an enum of a file, or what a message of a file declares. -/
inductive FileSet.Declares (set : FileSet) : Definition → Prop where
  | message {file : FileDecl} {m : MessageDecl} {d : Definition} : file ∈ set →
    m ∈ file.messages → m.Declares file.scope d → Declares set d
  | enum {file : FileDecl} {e : EnumDecl} : file ∈ set → e ∈ file.enums →
    Declares set (e.definition file.scope)

mutual

lemma MessageDecl.mem_definitions_iff {scope : String} {d : Definition} :
    (m : MessageDecl) → (d ∈ m.definitions scope ↔ m.Declares scope d)
  | .mk name fields nested enums => by
    rw [MessageDecl.definitions, List.mem_append, List.mem_append, List.mem_singleton,
      List.mem_map, mem_definitionsOfAll_iff]
    constructor
    · rintro ((⟨m, hm, hd⟩ | ⟨e, he, rfl⟩) | rfl)
      · exact .nested hm hd
      · exact .enum he
      · exact .self
    · intro h
      cases h with
      | self => exact .inr rfl
      | enum he => exact .inl (.inr ⟨_, he, rfl⟩)
      | nested hm hd => exact .inl (.inl ⟨_, hm, hd⟩)

lemma mem_definitionsOfAll_iff {scope : String} {d : Definition} :
    (ms : List MessageDecl) → (d ∈ definitionsOfAll scope ms ↔ ∃ m ∈ ms, m.Declares scope d)
  | [] => by simp [definitionsOfAll]
  | m :: ms => by
    rw [definitionsOfAll, List.mem_append, MessageDecl.mem_definitions_iff m,
      mem_definitionsOfAll_iff ms, List.exists_mem_cons_iff]

end

/-- What is listed is what is declared. -/
theorem FileSet.mem_definitions_iff {set : FileSet} {d : Definition} :
    d ∈ set.definitions ↔ set.Declares d := by
  simp only [FileSet.definitions, List.mem_flatMap, FileDecl.definitions, List.mem_append,
    List.mem_map, mem_definitionsOfAll_iff]
  constructor
  · rintro ⟨file, hfile, ⟨m, hm, hd⟩ | ⟨e, he, rfl⟩⟩
    · exact .message hfile hm hd
    · exact .enum hfile he
  · intro h
    cases h with
    | message hfile hm hd => exact ⟨_, hfile, .inl ⟨_, hm, hd⟩⟩
    | enum hfile he => exact ⟨_, hfile, .inr ⟨_, he, rfl⟩⟩

/-! ### Another order -/

mutual

/-- What is nested in the message stands in another order. -/
inductive MessageDecl.Rearranged : MessageDecl → MessageDecl → Prop where
  | mk {name : String} {fields : List FieldDecl} {nested nested' : List MessageDecl}
    {enums enums' : List EnumDecl} : AllRearranged nested nested' → enums.Perm enums' →
    MessageDecl.Rearranged (.mk name fields nested enums) (.mk name fields nested' enums')

/-- The messages, and what is nested in each, stand in another order. -/
inductive AllRearranged : List MessageDecl → List MessageDecl → Prop where
  | nil : AllRearranged [] []
  | cons {m m' : MessageDecl} {ms ms' : List MessageDecl} : MessageDecl.Rearranged m m' →
    AllRearranged ms ms' → AllRearranged (m :: ms) (m' :: ms')
  | swap {m m' : MessageDecl} {ms : List MessageDecl} :
    AllRearranged (m :: m' :: ms) (m' :: m :: ms)
  | trans {ms ms' ms'' : List MessageDecl} : AllRearranged ms ms' → AllRearranged ms' ms'' →
    AllRearranged ms ms''

end

/-- The messages and enums of the file stand in another order. -/
structure FileDecl.Rearranged (file file' : FileDecl) : Prop where
  package_eq : file'.package = file.package
  messages : AllRearranged file.messages file'.messages
  enums : file.enums.Perm file'.enums

/-- The files, and what is in each, stand in another order. -/
def FileSet.Rearranged (set set' : FileSet) : Prop :=
  ∃ middle, List.Forall₂ FileDecl.Rearranged set middle ∧ middle.Perm set'

mutual

lemma MessageDecl.Rearranged.definitions_perm {m m' : MessageDecl} :
    m.Rearranged m' → ∀ scope, (m.definitions scope).Perm (m'.definitions scope)
  | .mk hnested henums => by
    intro scope
    rw [MessageDecl.definitions, MessageDecl.definitions]
    exact ((hnested.definitions_perm _).append (henums.map _)).append_right _

lemma AllRearranged.definitions_perm {ms ms' : List MessageDecl} :
    AllRearranged ms ms' → ∀ scope, (definitionsOfAll scope ms).Perm (definitionsOfAll scope ms')
  | .nil => fun _ => .refl _
  | .cons hm hms => by
    intro scope
    rw [definitionsOfAll, definitionsOfAll]
    exact (hm.definitions_perm scope).append (hms.definitions_perm scope)
  | .swap => by
    intro scope
    simp only [definitionsOfAll, ← List.append_assoc]
    exact List.perm_append_comm.append_right _
  | .trans hfirst hsecond =>
    fun scope => (hfirst.definitions_perm scope).trans (hsecond.definitions_perm scope)

end

lemma FileDecl.Rearranged.definitions_perm {file file' : FileDecl} (h : file.Rearranged file') :
    file.definitions.Perm file'.definitions := by
  have hscope : file'.scope = file.scope := by rw [FileDecl.scope, FileDecl.scope, h.package_eq]
  rw [FileDecl.definitions, FileDecl.definitions, hscope]
  exact (h.messages.definitions_perm _).append (h.enums.map _)

/-- Sets that differ in the order only list the same types, each as often. -/
theorem FileSet.Rearranged.definitions_perm {set set' : FileSet} (h : set.Rearranged set') :
    set.definitions.Perm set'.definitions := by
  obtain ⟨middle, hfiles, hperm⟩ := h
  have hmiddle : set.definitions.Perm (FileSet.definitions middle) := by
    clear hperm
    induction hfiles with
    | nil => exact .refl _
    | cons hfile _ ih => exact hfile.definitions_perm.append ih
  exact hmiddle.trans (hperm.flatMap_right _)

end AtomTimeline
