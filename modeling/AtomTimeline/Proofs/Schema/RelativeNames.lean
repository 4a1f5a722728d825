import Mathlib.Data.List.TakeWhile
import AtomTimeline.Proofs.Schema.BuiltPools
import AtomTimeline.Proofs.Schema.FailedAdditions

/-!
Relative type names, and what becomes of them when a set of files is added.

* `IsScope`: a name is in its own scope, in what stands in front of one of its dots, and in the
  empty scope. `Pool.mem_scopes_iff` and `Pool.scopes_descending`: just these are listed, the
  longest first.
* `Pool.Innermost`: the longest scope in which a relative name is known.
  `Pool.resolveName?_eq_some_iff`, `Pool.resolveName?_eq_none_iff`: the name is resolved there.
* `Pool.KeptAs`: how a declared type name is kept, and `Pool.keptAs_resolvedName`: so it is.
* `FieldDecl.IsLast`: of the fields declared for a number the last one counts. `Pool.fields_of_add`:
  the fields of a message that is new are just these, their type names kept so.
-/

namespace AtomTimeline

/-! ### Scopes -/

/-- The name is in the scope. -/
def IsScope (scope name : String) : Prop :=
  scope = name ∨ (∃ rest, name = qualify scope rest) ∨ scope = ""

namespace Pool

/-- A name without dots is in the empty scope; any other is cut at its last dot. -/
lemma enclosing_cases (name : List Char) :
    '.' ∉ name ∧ enclosing name = [] ∨
      ∃ last, '.' ∉ last ∧ name = enclosing name ++ '.' :: last := by
  have hsplit : name.reverse.takeWhile (· ≠ '.') ++ name.reverse.dropWhile (· ≠ '.') =
      name.reverse := List.takeWhile_append_dropWhile
  have hlast : '.' ∉ name.reverse.takeWhile (· ≠ '.') := fun h => by
    simpa using List.mem_takeWhile_imp h
  cases hdrop : name.reverse.dropWhile (· ≠ '.') with
  | nil =>
      rw [hdrop, List.append_nil] at hsplit
      rw [hsplit, List.mem_reverse] at hlast
      exact .inl ⟨hlast, by rw [enclosing, hdrop]; rfl⟩
  | cons c front =>
      have hc : c = '.' := by
        have hhead := List.head?_dropWhile_not (· ≠ '.') name.reverse
        rw [hdrop] at hhead
        simpa using hhead
      subst hc
      refine .inr ⟨(name.reverse.takeWhile (· ≠ '.')).reverse, by simpa using hlast, ?_⟩
      have hname := congrArg List.reverse hsplit
      rw [hdrop, List.reverse_reverse, List.reverse_append, List.reverse_cons,
        List.append_assoc] at hname
      rw [enclosing, hdrop]
      exact hname.symm

/-- What stands in front of a dot of a name stands in front of the last one, or in front of a dot of
that. -/
lemma enclosing_of_dot {s rest name : List Char} (h : name = s ++ '.' :: rest) :
    s = enclosing name ∨ ∃ more, enclosing name = s ++ '.' :: more := by
  rcases enclosing_cases name with ⟨hnone, -⟩ | ⟨last, hlast, hname⟩
  · exact absurd (by simp [h]) hnone
  · generalize enclosing name = around at hname
    rw [h] at hname
    rcases List.append_eq_append_iff.mp hname with ⟨more, rfl, hrest⟩ | ⟨more, rfl, hrest⟩
    · cases more with
      | nil => exact .inl (List.append_nil s).symm
      | cons c more =>
          rw [List.cons_append, List.cons.injEq] at hrest
          exact .inr ⟨more, by rw [← hrest.1]⟩
    · cases more with
      | nil => exact .inl (List.append_nil _)
      | cons c more =>
          rw [List.cons_append, List.cons.injEq] at hrest
          exact absurd (hrest.2 ▸ by simp) hlast

/-- The scopes that are listed are those a name is in. -/
lemma mem_scopes_iff {s name : List Char} :
    s ∈ scopes name ↔ s = name ∨ (∃ rest, name = s ++ '.' :: rest) ∨ s = [] := by
  induction name using scopes.induct with
  | case1 => simp [scopes]
  | case2 c cs ih =>
      rw [scopes, List.mem_cons, ih]
      generalize hname : c :: cs = name
      constructor
      · rintro (rfl | rfl | ⟨more, hmore⟩ | rfl)
        · exact .inl rfl
        · rcases enclosing_cases name with ⟨-, hnil⟩ | ⟨last, -, hlast⟩
          · exact .inr (.inr hnil)
          · exact .inr (.inl ⟨last, hlast⟩)
        · rcases enclosing_cases name with ⟨-, hnil⟩ | ⟨last, -, hlast⟩
          · rw [hnil] at hmore
            simp at hmore
          · refine .inr (.inl ⟨more ++ '.' :: last, hlast.trans ?_⟩)
            rw [hmore, List.append_assoc, List.cons_append]
        · exact .inr (.inr rfl)
      · rintro (rfl | ⟨rest, hrest⟩ | rfl)
        · exact .inl rfl
        · rcases enclosing_of_dot hrest with hs | hmore
          · exact .inr (.inl hs)
          · exact .inr (.inr (.inl hmore))
        · exact .inr (.inr (.inr rfl))

lemma length_le_of_mem_scopes {s name : List Char} (h : s ∈ scopes name) :
    s.length ≤ name.length := by
  rcases mem_scopes_iff.mp h with rfl | ⟨rest, rfl⟩ | rfl
  · exact Nat.le_refl _
  · simp
  · exact Nat.zero_le _

/-- The scopes are listed from the longest on. -/
lemma scopes_descending (name : List Char) :
    (scopes name).Pairwise fun s s' => s'.length < s.length := by
  induction name using scopes.induct with
  | case1 => simp [scopes]
  | case2 c cs ih =>
      rw [scopes]
      exact List.pairwise_cons.mpr ⟨fun s hs =>
        Nat.lt_of_le_of_lt (length_le_of_mem_scopes hs) length_enclosing_lt, ih⟩

lemma isScope_iff {scope name : String} :
    IsScope scope name ↔ scope.toList ∈ scopes name.toList := by
  rw [mem_scopes_iff, IsScope]
  refine or_congr String.toList_inj.symm (or_congr ⟨?_, ?_⟩ ?_)
  · rintro ⟨rest, rfl⟩
    exact ⟨rest.toList, by simp [qualify]⟩
  · rintro ⟨rest, hrest⟩
    exact ⟨String.ofList rest, String.toList_inj.mp (by simp [qualify, hrest])⟩
  · rw [← String.toList_inj]
    rfl

/-! ### The innermost scope -/

variable {pool : Pool} {scope around name : String}

/-- The longest scope around a place in which a relative name is known. -/
structure Innermost (pool : Pool) (around name scope : String) : Prop where
  isScope : IsScope scope around
  defined : pool.defines (qualify scope name) = true
  longest : ∀ other, IsScope other around → pool.defines (qualify other name) = true →
    other.length ≤ scope.length

/-- A relative name is resolved in the innermost scope where it is known. -/
theorem resolveName?_eq_some_iff {resolved : String} :
    pool.resolveName? around name = some resolved ↔
      ∃ scope, pool.Innermost around name scope ∧ resolved = qualify scope name := by
  have hdescending := scopes_descending around.toList
  rw [resolveName?, List.find?_map, Option.map_eq_some_iff]
  constructor
  · rintro ⟨s, hs, rfl⟩
    obtain ⟨hdefined, front, behind, hsplit, hfront⟩ := List.find?_eq_some_iff_append.mp hs
    rw [hsplit] at hdescending
    refine ⟨String.ofList s, ⟨isScope_iff.mpr (by simp [hsplit]), hdefined, ?_⟩, rfl⟩
    intro other hother hknown
    have hmem := isScope_iff.mp hother
    rw [hsplit, List.mem_append, List.mem_cons] at hmem
    have hlength : other.toList.length ≤ s.length := by
      rcases hmem with hmem | hmem | hmem
      · have hunknown := hfront _ hmem
        rw [Function.comp_apply, String.ofList_toList, hknown] at hunknown
        cases hunknown
      · rw [hmem]
      · have hbehind := (List.pairwise_append.mp hdescending).2.1
        exact Nat.le_of_lt ((List.pairwise_cons.mp hbehind).1 _ hmem)
    simpa only [String.length_ofList, String.length_toList] using hlength
  · rintro ⟨scope, hscope, rfl⟩
    have hmem := isScope_iff.mp hscope.isScope
    obtain ⟨front, behind, hsplit⟩ := List.append_of_mem hmem
    refine ⟨scope.toList, List.find?_eq_some_iff_append.mpr ⟨?_, front, behind, hsplit, ?_⟩, ?_⟩
    · rw [Function.comp_apply, String.ofList_toList]
      exact hscope.defined
    · intro s hs
      rw [hsplit] at hdescending
      have hlonger := (List.pairwise_append.mp hdescending).2.2 s hs _ List.mem_cons_self
      rw [Bool.not_eq_true', Bool.eq_false_iff]
      intro hknown
      have hle := hscope.longest (String.ofList s) (isScope_iff.mpr (by simp [hsplit, hs])) hknown
      simp only [String.length_ofList, String.length_toList] at hle hlonger
      omega
    · rw [String.ofList_toList]

lemma resolveName?_eq_none_iff :
    pool.resolveName? around name = none ↔
      ∀ scope, IsScope scope around → pool.defines (qualify scope name) = false := by
  simp only [resolveName?, List.find?_eq_none, List.forall_mem_map, Bool.not_eq_true, isScope_iff]
  constructor
  · intro h scope hscope
    simpa using h scope.toList hscope
  · intro h s hs
    exact h (String.ofList s) (by simpa using hs)

/-! ### Type names as they are kept -/

/-- The name is neither empty nor a full one. -/
def IsRelative (name : String) : Prop := name ≠ "" ∧ ∀ rest, name ≠ "." ++ rest

/-- How the type name of a field is kept in a message with a full name: a full one unchanged, a
relative one in the innermost scope where it is known, and unchanged if there is none. -/
inductive KeptAs (pool : Pool) (message declared : String) : String → Prop where
  | full {rest : String} : declared = "." ++ rest → KeptAs pool message declared declared
  | resolved {scope : String} : IsRelative declared → pool.Innermost message declared scope →
    KeptAs pool message declared (qualify scope declared)
  | unknown : IsRelative declared →
    (∀ scope, IsScope scope message → pool.defines (qualify scope declared) = false) →
      KeptAs pool message declared declared

lemma keptAs_resolvedName (pool : Pool) (message : String) {declared : String}
    (h : declared ≠ "") : pool.KeptAs message declared (pool.resolvedName message declared) := by
  rw [resolvedName]
  split
  · next hnil => exact absurd (String.toList_inj.mp hnil) h
  · next rest hdot =>
    have hfull : declared = "." ++ String.ofList rest := String.toList_inj.mp (by simp [hdot])
    exact .full hfull
  · next hother =>
    have hrelative : IsRelative declared := by
      refine ⟨h, fun rest hrest => hother rest.toList ?_⟩
      simp [hrest]
    cases hresolve : pool.resolveName? message declared with
    | none => exact .unknown hrelative (resolveName?_eq_none_iff.mp hresolve)
    | some resolved =>
        obtain ⟨scope, hscope, rfl⟩ := resolveName?_eq_some_iff.mp hresolve
        exact .resolved hrelative hscope

end Pool

/-! ### Fields -/

namespace FieldDecl

/-- The descriptor of a field whose number can be used, its type name as declared. -/
def described (f : FieldDecl) : FieldDescriptor where
  name := f.name
  number := UInt32.ofNat f.number.toNat
  type := f.type
  typeName := f.typeName
  repeated := f.label = .repeated

/-- The field is the last one declared for its number. -/
def IsLast (f : FieldDecl) (decls : List FieldDecl) : Prop :=
  ∃ earlier later, decls = earlier ++ f :: later ∧ ∀ g ∈ later, g.number ≠ f.number

variable {f : FieldDecl} {d : FieldDescriptor} {message : String} {decls : List FieldDecl}

lemma eq_described (h : f.descriptor message = .ok d) : d = f.described := by
  rw [descriptor] at h
  split at h
  · exact (Except.ok.inj h).symm
  · cases h

lemma Usable.toNat_number (h : f.Usable) : (f.described.number.toNat : Int) = f.number := by
  obtain ⟨hpos, hle⟩ := h
  have hbound : Int32.maxValue.toInt = 2147483647 := by decide
  rw [described, UInt32.toNat_ofNat_of_lt' (show _ < 2 ^ 32 by omega)]
  omega

/-- The last field for a number is the first one from behind. -/
lemma isLast_iff {number : Int} :
    decls.reverse.find? (fun g => g.number = number) = some f ↔
      f.number = number ∧ f.IsLast decls := by
  rw [List.find?_eq_some_iff_append]
  constructor
  · rintro ⟨hf, front, behind, hsplit, hfront⟩
    obtain rfl := of_decide_eq_true hf
    refine ⟨rfl, behind.reverse, front.reverse, ?_, fun g hg => ?_⟩
    · rw [← List.reverse_inj, hsplit]
      simp
    · simpa using hfront g (List.mem_reverse.mp hg)
  · rintro ⟨rfl, earlier, later, rfl, hlater⟩
    refine ⟨by simp, later.reverse, earlier.reverse, by simp, fun g hg => ?_⟩
    simpa using hlater g (List.mem_reverse.mp hg)

end FieldDecl

lemma find?_insertField (d : FieldDescriptor) (fields : List FieldDescriptor) (number : UInt32) :
    (insertField d fields).find? (fun f => f.number = number) =
      if d.number = number then some d else fields.find? fun f => f.number = number := by
  induction fields with
  | nil => by_cases h : d.number = number <;> simp [insertField, h]
  | cons f fields ih =>
      rw [insertField]
      split
      · by_cases h : d.number = number <;> simp [h]
      · split
        · next heq => by_cases h : d.number = number <;> simp [← heq, h]
        · next hne =>
          by_cases hf : f.number = number
          · have hd : ¬ d.number = number := fun hd => hne (hd.trans hf.symm)
            simp [hf, hd]
          · rw [List.find?_cons_of_neg (by simpa using hf), ih,
              List.find?_cons_of_neg (by simpa using hf)]

/-- Fields are declared one after the other, each with a number that can be used. -/
lemma fieldDescriptors_cons_eq_ok_iff {message : String} {f : FieldDecl} {decls : List FieldDecl}
    {fields found : List FieldDescriptor} :
    fieldDescriptors message (f :: decls) fields = .ok found ↔
      ∃ d, f.descriptor message = .ok d ∧
        fieldDescriptors message decls (insertField d fields) = .ok found := by
  rw [fieldDescriptors]
  cases f.descriptor message <;> simp

/-- Of declared fields that can be used, the last one for a number is found under it. -/
lemma find?_fieldDescriptors {message : String} {decls : List FieldDecl}
    {fields found : List FieldDescriptor} (h : fieldDescriptors message decls fields = .ok found)
    (number : UInt32) :
    found.find? (fun d => d.number = number) =
      ((decls.reverse.find? fun f => f.number = (number.toNat : Int)).map FieldDecl.described).or
        (fields.find? fun d => d.number = number) := by
  induction decls generalizing fields with
  | nil =>
      cases h
      rfl
  | cons f decls ih =>
      obtain ⟨d, hf, h⟩ := fieldDescriptors_cons_eq_ok_iff.mp h
      have hnumber := (FieldDecl.usable_of_descriptor hf).toNat_number
      obtain rfl := FieldDecl.eq_described hf
      rw [ih h, find?_insertField, List.reverse_cons, List.find?_append, Option.map_or,
        Option.or_assoc]
      congr 1
      by_cases hn : f.described.number = number
      · subst hn
        simp [hnumber]
      · have hne : ¬ f.number = number.toNat := by
          rw [← hnumber]
          exact fun h => hn (UInt32.toNat_inj.mp (by exact_mod_cast h))
        simp [hn, hne]

namespace Pool

variable {pool grown : Pool} {ds : List Definition} {set : FileSet}

/-- The descriptor says what the field declares; its type name is as it is kept in the message. -/
structure Describes (pool : Pool) (message : String) (f : FieldDecl) (d : FieldDescriptor) :
    Prop where
  name_eq : d.name = f.name
  number_eq : (d.number.toNat : Int) = f.number
  type_eq : d.type = f.type
  repeated_iff : d.repeated = true ↔ f.label = .repeated
  typeName_kept : f.typeName ≠ "" → pool.KeptAs message f.typeName d.typeName
  typeName_empty : f.typeName = "" → d.typeName = ""

lemma describes_described (pool : Pool) (message : String) {f : FieldDecl} (h : f.Usable) :
    pool.Describes message f
      { f.described with typeName := pool.resolvedName message f.typeName } where
  name_eq := rfl
  number_eq := h.toNat_number
  type_eq := rfl
  repeated_iff := decide_eq_true_iff
  typeName_kept := pool.keptAs_resolvedName message
  typeName_empty hnil := by
    rw [hnil]
    rfl

/-- A definition that was added is known. -/
lemma knows_of_addDefinition {d : Definition} (h : pool.addDefinition d = .ok grown) :
    grown.Knows d := by
  by_cases hknown : pool.Knows d
  · rw [addDefinition_of_knows hknown] at h
    cases h
    exact hknown
  · cases d with
    | message name fields =>
        rw [addDefinition, if_neg (show ¬ (pool.message? name).isSome from hknown)] at h
        cases hfields : fieldDescriptors name fields [] with
        | error e =>
            rw [hfields] at h
            cases h
        | ok found =>
            rw [hfields] at h
            cases h
            simp [Knows, Pool.message?]
    | enum name values =>
        rw [addDefinition, if_neg (show ¬ (pool.enum? name).isSome from hknown)] at h
        cases h
        simp [Knows, Pool.enum?]

/-- Definitions are added one after the other, each without an error. -/
lemma addDefinitions_cons_eq_iff {d : Definition} :
    pool.addDefinitions (d :: ds) = (grown, none) ↔
      ∃ middle, pool.addDefinition d = .ok middle ∧ middle.addDefinitions ds = (grown, none) := by
  rw [addDefinitions]
  cases pool.addDefinition d <;> simp

lemma addDefinitions_append (front behind : List Definition) (pool : Pool) :
    pool.addDefinitions (front ++ behind) = (grown, none) ↔
      ∃ middle, pool.addDefinitions front = (middle, none) ∧
        middle.addDefinitions behind = (grown, none) := by
  induction front generalizing pool with
  | nil => simp [addDefinitions]
  | cons d front ih =>
      rw [List.cons_append, addDefinitions, addDefinitions]
      cases pool.addDefinition d with
      | error e => simp
      | ok middle => exact ih middle

/-- Once definitions were all added, each of them is known. -/
lemma knows_of_success (h : pool.addDefinitions ds = (grown, none)) {d : Definition}
    (hd : d ∈ ds) : grown.Knows d := by
  induction ds generalizing pool with
  | nil => cases hd
  | cons first ds ih =>
      obtain ⟨middle, hfirst, hadded⟩ := addDefinitions_cons_eq_iff.mp h
      rcases List.mem_cons.mp hd with rfl | hd
      · exact ((addDefinitions_of_success hadded).1.knows_iff d).mpr
          (.inl (knows_of_addDefinition hfirst))
      · exact ih hadded hd

/-- The definition that made a type of a new name is the first one of the name. -/
lemma exists_first_definition (h : pool.addDefinitions ds = (grown, none)) {fullName : String}
    (hnew : pool.message? fullName = none) {m : MessageDescriptor}
    (hm : ds.findSome? (Definition.message? fullName) = some m) :
    ∃ front decls behind, ds = front ++ .message fullName decls :: behind ∧
      (∀ fields, .message fullName fields ∉ front) ∧
      ∃ found, fieldDescriptors fullName decls [] = .ok found ∧ m = ⟨fullName, found⟩ := by
  obtain ⟨front, d, behind, rfl, hd, hfront⟩ := List.findSome?_eq_some_iff.mp hm
  cases d with
  | enum name values => cases hd
  | message name decls =>
      rw [Definition.message?] at hd
      split at hd
      · next hname =>
        subst hname
        refine ⟨front, decls, behind, rfl, fun fields hmem => ?_, ?_⟩
        · obtain ⟨middle, hmiddle, -⟩ := (addDefinitions_append front _ pool).mp h
          have hknows := knows_of_success hmiddle hmem
          rw [(addDefinitions_of_success hmiddle).1.knows_iff] at hknows
          rcases hknows with hknown | hmade
          · simp [Knows, hnew] at hknown
          · simp only [Definition.MadeBy, List.findSome?_isSome_iff] at hmade
            obtain ⟨x, hx, hsome⟩ := hmade
            rw [hfront x hx] at hsome
            cases hsome
        · cases hfields : fieldDescriptors name decls [] with
          | error e =>
              rw [hfields] at hd
              cases hd
          | ok found =>
              rw [hfields] at hd
              exact ⟨found, rfl, (Option.some.inj hd).symm⟩
      · cases hd

/-- The descriptors of a message are those of the last fields declared for each number. -/
lemma mem_fieldDescriptors_iff {message : String} {decls : List FieldDecl}
    {found : List FieldDescriptor} (h : fieldDescriptors message decls [] = .ok found)
    {d : FieldDescriptor} : d ∈ found ↔ ∃ f : FieldDecl, f.IsLast decls ∧ d = f.described := by
  have hascending := (FieldsInOrder.fieldDescriptors ⟨.nil, by simp⟩ h).ascending
  have hfound := find?_fieldDescriptors h
  simp only [List.find?_nil, Option.or_none] at hfound
  constructor
  · intro hd
    have hat := hfound d.number
    rw [find?_of_ascending hascending hd, eq_comm, Option.map_eq_some_iff] at hat
    obtain ⟨f, hf, rfl⟩ := hat
    exact ⟨f, (FieldDecl.isLast_iff.mp hf).2, rfl⟩
  · rintro ⟨f, hlast, rfl⟩
    have hmem : f ∈ decls := by
      obtain ⟨earlier, later, rfl, -⟩ := hlast
      simp
    have hnumber := (usable_of_fieldDescriptors h _ hmem).toNat_number
    have hat := hfound f.described.number
    rw [FieldDecl.isLast_iff.mpr ⟨hnumber.symm, hlast⟩, Option.map_some] at hat
    exact List.mem_of_find?_eq_some hat

lemma fullName_of_findMessage? {name : String} {m : MessageDescriptor}
    (h : pool.findMessage? name = some m) : m.fullName = absolute name := by
  rw [findMessage?, message?] at h
  simpa using List.find?_some h

/-- **The fields of a new message** are the last ones that the first definition of its name declares
for each number, their type names resolved among all names that are known in the end. -/
theorem fields_of_add (h : (pool.add set).2 = none) {name : String} {m : MessageDescriptor}
    (hnew : pool.findMessage? name = none) (hm : (pool.add set).1.findMessage? name = some m) :
    ∃ front decls behind, set.definitions = front ++ .message m.fullName decls :: behind ∧
      (∀ fields, .message m.fullName fields ∉ front) ∧
      (∀ f : FieldDecl, f.IsLast decls →
        ∃ d ∈ m.fields, (pool.add set).1.Describes m.fullName f d) ∧
      ∀ d ∈ m.fields, ∃ f : FieldDecl, f.IsLast decls ∧
        (pool.add set).1.Describes m.fullName f d := by
  obtain ⟨grown, hadded, -⟩ := addDefinitions_of_add h
  rw [findMessage?] at hnew hm
  rw [(add_of_success h).message?, hnew, Option.none_or, Option.map_eq_some_iff] at hm
  obtain ⟨declared, hdeclared, rfl⟩ := hm
  obtain ⟨front, decls, behind, hsplit, hfirst, found, hfound, rfl⟩ :=
    exists_first_definition hadded hnew hdeclared
  have husable : ∀ f : FieldDecl, f.IsLast decls → f.Usable := by
    rintro f ⟨earlier, later, rfl, -⟩
    exact usable_of_fieldDescriptors hfound _ (by simp)
  refine ⟨front, decls, behind, hsplit, hfirst, fun f hf => ?_, fun d hd => ?_⟩
  · have hmem := (mem_fieldDescriptors_iff hfound).mpr ⟨f, hf, rfl⟩
    exact ⟨_, List.mem_map_of_mem hmem, describes_described _ _ (husable f hf)⟩
  · obtain ⟨plain, hplain, rfl⟩ := List.mem_map.mp hd
    obtain ⟨f, hf, rfl⟩ := (mem_fieldDescriptors_iff hfound).mp hplain
    exact ⟨f, hf, describes_described _ _ (husable f hf)⟩

end Pool

end AtomTimeline
