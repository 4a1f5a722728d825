import Mathlib.Tactic
import AtomTimeline.Schema.Pool

/-!
What is found in a pool after an addition, also after one that ends in an error.

* `Pool.Adds`: a pool answers as another one did, and for names that were new to that one as
  definitions say. The first usable definition of a name counts.
* `Pool.add_of_success`: so answers a pool after an addition without an error, with the type names
  of the new fields resolved.
* `Definition.Usable`: every number in the definition can be used.
* `Pool.add_of_error`: after an error, the pool answers so for the definitions in front of the first
  one that cannot be used and whose name is not known, type names as declared. Nothing is taken
  back, and the additions that follow take what was left behind for known.
-/

namespace AtomTimeline

/-- The number of the field can be used. -/
def FieldDecl.Usable (f : FieldDecl) : Prop := 0 < f.number ∧ f.number ≤ Int32.maxValue.toInt

namespace Definition

/-- Every field number in the definition can be used; the numbers of an enum always can. -/
def Usable : Definition → Prop
  | .message _ fields => ∀ f ∈ fields, f.Usable
  | .enum _ _ => True

/-- The message that a definition makes of a full name, type names as declared. -/
def message? (fullName : String) : Definition → Option MessageDescriptor
  | .message name fields =>
    if name = fullName then (fieldDescriptors name fields []).toOption.map (⟨name, ·⟩) else none
  | .enum _ _ => none

/-- The enum that a definition makes of a full name. -/
def enum? (fullName : String) : Definition → Option EnumDescriptor
  | .message _ _ => none
  | .enum name values => if name = fullName then some ⟨name, values⟩ else none

/-- Some definition of a list makes a type of the same kind and name. -/
def MadeBy (ds : List Definition) : Definition → Prop
  | .message name _ => (ds.findSome? (message? name)).isSome
  | .enum name _ => (ds.findSome? (enum? name)).isSome

lemma MadeBy.mono {ds more : List Definition} {d : Definition} (h : d.MadeBy ds) (hds : ds ⊆ more) :
    d.MadeBy more := by
  cases d <;>
  · simp only [MadeBy, List.findSome?_isSome_iff] at h ⊢
    obtain ⟨x, hx, hmade⟩ := h
    exact ⟨x, hds hx, hmade⟩

end Definition

/-! ### The field an error is about -/

lemma FieldDecl.descriptor_of_error {message : String} {f : FieldDecl} {e : InvalidFieldNumber}
    (h : f.descriptor message = .error e) : ¬ f.Usable ∧ e = ⟨message, f.name, f.number⟩ := by
  rw [FieldDecl.descriptor] at h
  split at h
  · cases h
  · next hrange => exact ⟨hrange, (Except.error.inj h).symm⟩

lemma FieldDecl.usable_of_descriptor {message : String} {f : FieldDecl} {d : FieldDescriptor}
    (h : f.descriptor message = .ok d) : f.Usable := by
  rw [FieldDecl.descriptor] at h
  split at h
  · next hrange => exact hrange
  · cases h

/-- The error names the first field whose number cannot be used. -/
lemma fieldDescriptors_of_error {message : String} {decls : List FieldDecl}
    {fields : List FieldDescriptor} {e : InvalidFieldNumber}
    (h : fieldDescriptors message decls fields = .error e) :
    ∃ usable f others, decls = usable ++ f :: others ∧ (∀ g ∈ usable, g.Usable) ∧ ¬ f.Usable ∧
      e = ⟨message, f.name, f.number⟩ := by
  induction decls generalizing fields with
  | nil => cases h
  | cons f decls ih =>
      rw [fieldDescriptors] at h
      cases hf : f.descriptor message with
      | error e' =>
          rw [hf] at h
          cases h
          exact ⟨[], f, decls, rfl, by simp, FieldDecl.descriptor_of_error hf⟩
      | ok d =>
          rw [hf] at h
          obtain ⟨usable, g, others, rfl, husable, hg⟩ := ih h
          refine ⟨f :: usable, g, others, rfl, fun x hx => ?_, hg⟩
          rcases List.mem_cons.mp hx with rfl | hx
          · exact FieldDecl.usable_of_descriptor hf
          · exact husable x hx

lemma usable_of_fieldDescriptors {message : String} {decls : List FieldDecl}
    {fields found : List FieldDescriptor} (h : fieldDescriptors message decls fields = .ok found) :
    ∀ f ∈ decls, f.Usable := by
  induction decls generalizing fields with
  | nil => simp
  | cons f decls ih =>
      rw [fieldDescriptors] at h
      cases hf : f.descriptor message with
      | error e =>
          rw [hf] at h
          cases h
      | ok d =>
          rw [hf] at h
          exact List.forall_mem_cons.2 ⟨FieldDecl.usable_of_descriptor hf, ih h⟩

namespace Pool

variable {pool grown : Pool} {d : Definition} {ds : List Definition} {set : FileSet}
  {e : InvalidFieldNumber}

/-! ### Answers after an addition -/

/-- The pool answers as the earlier one did, and for names that were new to that one as the
definitions say, each message changed in the same way. A name without its leading dot is looked up
under its full name, so this is what `findMessage?` and `findEnum?` answer to every name. -/
structure Adds (earlier : Pool) (ds : List Definition)
    (change : MessageDescriptor → MessageDescriptor) (later : Pool) : Prop where
  message? (fullName : String) :
    later.message? fullName =
      (earlier.message? fullName).or ((ds.findSome? (Definition.message? fullName)).map change)
  enum? (fullName : String) :
    later.enum? fullName =
      (earlier.enum? fullName).or (ds.findSome? (Definition.enum? fullName))

/-- The name of a definition is known, as a message or as an enum. -/
def Knows (pool : Pool) : Definition → Prop
  | .message fullName _ => (pool.message? fullName).isSome
  | .enum fullName _ => (pool.enum? fullName).isSome

namespace Adds

variable {change : MessageDescriptor → MessageDescriptor}

lemma nil (pool : Pool) : pool.Adds [] id pool := ⟨by simp, by simp⟩

lemma cons {middle later : Pool} (hfirst : pool.Adds [d] id middle)
    (hrest : middle.Adds ds id later) : pool.Adds (d :: ds) id later where
  message? fullName := by
    rw [hrest.message?, hfirst.message?, Option.or_assoc]
    cases hd : Definition.message? fullName d <;> simp [hd]
  enum? fullName := by
    rw [hrest.enum?, hfirst.enum?, Option.or_assoc]
    cases hd : Definition.enum? fullName d <;> simp [hd]

/-- What is known was known before or is made by the definitions. -/
lemma knows_iff {later : Pool} (h : pool.Adds ds change later) (d : Definition) :
    later.Knows d ↔ pool.Knows d ∨ d.MadeBy ds := by
  cases d with
  | message fullName fields =>
      simp only [Knows, Definition.MadeBy, h.message?, Option.isSome_or, Option.isSome_map,
        Bool.or_eq_true]
  | enum fullName values =>
      simp only [Knows, Definition.MadeBy, h.enum?, Option.isSome_or, Bool.or_eq_true]

/-- Of two pools with the same definitions added, the one that knew more knows more. -/
lemma knows_of_more {later more more' : Pool} (h : pool.Adds ds id later)
    (h' : more.Adds ds id more') (hmore : ∀ d, pool.Knows d → more.Knows d) :
    ∀ d, later.Knows d → more'.Knows d := by
  intro d hd
  rw [h.knows_iff] at hd
  rw [h'.knows_iff]
  exact hd.imp_left (hmore d)

end Adds

/-! ### One definition -/

/-- A definition that can be added adds what it makes of its name, unless the name is known. -/
lemma addDefinition_of_ok (h : pool.addDefinition d = .ok grown) :
    pool.Adds [d] id grown ∧ ∃ new, grown.messages = pool.messages ++ new := by
  cases d with
  | message name fields =>
      rw [addDefinition] at h
      split at h
      · next hknown =>
        cases h
        refine ⟨⟨fun fullName => ?_, fun fullName => by simp [Definition.enum?]⟩, [], by simp⟩
        by_cases hname : name = fullName
        · subst hname
          rw [Option.or_of_isSome hknown]
        · simp [Definition.message?, hname]
      · next hnew =>
        cases hfields : fieldDescriptors name fields [] with
        | error e =>
            rw [hfields] at h
            cases h
        | ok found =>
            rw [hfields] at h
            cases h
            refine ⟨⟨fun fullName => ?_, fun fullName => by simp [Definition.enum?, Pool.enum?]⟩,
              _, rfl⟩
            simp only [Pool.message?, List.find?_append, List.findSome?_singleton, Option.map_id]
            congr 1
            by_cases hname : name = fullName
            · subst hname
              simp [Definition.message?, hfields, Except.toOption]
            · simp [Definition.message?, hname]
  | enum name values =>
      rw [addDefinition] at h
      split at h
      · next hknown =>
        cases h
        refine ⟨⟨fun fullName => by simp [Definition.message?], fun fullName => ?_⟩, [], by simp⟩
        by_cases hname : name = fullName
        · subst hname
          rw [Option.or_of_isSome hknown]
        · simp [Definition.enum?, hname]
      · cases h
        refine ⟨⟨fun fullName => by simp [Definition.message?, Pool.message?], fun fullName => ?_⟩,
          [], by simp⟩
        simp only [Pool.enum?, List.find?_append, List.findSome?_singleton]
        congr 1
        by_cases hname : name = fullName <;> simp [Definition.enum?, hname]

/-- A definition that can be added has only usable numbers, unless its name is known. -/
lemma usable_of_addDefinition (h : pool.addDefinition d = .ok grown) :
    d.Usable ∨ pool.Knows d := by
  cases d with
  | enum name values => exact .inl trivial
  | message name fields =>
      by_cases hknown : (pool.message? name).isSome
      · exact .inr hknown
      · rw [addDefinition, if_neg hknown] at h
        cases hfields : fieldDescriptors name fields [] with
        | error e =>
            rw [hfields] at h
            cases h
        | ok found => exact .inl (usable_of_fieldDescriptors hfields)

/-- A definition cannot be added if its name is new and a number in it cannot be used. -/
lemma addDefinition_of_error (h : pool.addDefinition d = .error e) :
    ∃ fields, d = .message e.message fields ∧ pool.message? e.message = none ∧
      ∃ usable f others, fields = usable ++ f :: others ∧ (∀ g ∈ usable, g.Usable) ∧
        ¬ f.Usable ∧ f.name = e.field ∧ f.number = e.number := by
  cases d with
  | enum name values =>
      rw [addDefinition] at h
      split at h <;> cases h
  | message name fields =>
      rw [addDefinition] at h
      split at h
      · cases h
      · next hnew =>
        cases hfields : fieldDescriptors name fields [] with
        | ok found =>
            rw [hfields] at h
            cases h
        | error e' =>
            rw [hfields] at h
            cases h
            obtain ⟨usable, f, others, hsplit, husable, hf, rfl⟩ :=
              fieldDescriptors_of_error hfields
            have hnone : pool.message? name = none := by simpa using hnew
            exact ⟨fields, rfl, hnone, usable, f, others, hsplit, husable, hf, rfl, rfl⟩

lemma addDefinition_of_knows (h : pool.Knows d) : pool.addDefinition d = .ok pool := by
  cases d <;> exact if_pos h

/-- What can be added to a pool can be added to one that knows more. -/
lemma exists_addDefinition_of_more {more : Pool} (hmore : ∀ d, pool.Knows d → more.Knows d)
    (h : pool.addDefinition d = .ok grown) : ∃ grown', more.addDefinition d = .ok grown' := by
  by_cases hknown : more.Knows d
  · exact ⟨more, addDefinition_of_knows hknown⟩
  · have hnew : ¬ pool.Knows d := fun hd => hknown (hmore d hd)
    cases d with
    | enum name values => exact ⟨_, if_neg hknown⟩
    | message name fields =>
        rw [addDefinition, if_neg (show ¬ (pool.message? name).isSome from hnew)] at h
        rw [addDefinition, if_neg (show ¬ (more.message? name).isSome from hknown)]
        cases hfields : fieldDescriptors name fields [] with
        | ok found => exact ⟨_, rfl⟩
        | error e =>
            rw [hfields] at h
            cases h

/-! ### A list of definitions -/

/-- Definitions that can all be added are added. -/
lemma addDefinitions_of_success (h : pool.addDefinitions ds = (grown, none)) :
    pool.Adds ds id grown ∧ ∃ new, grown.messages = pool.messages ++ new := by
  induction ds generalizing pool with
  | nil =>
      cases h
      exact ⟨Adds.nil _, [], by simp⟩
  | cons d ds ih =>
      rw [addDefinitions] at h
      cases hd : pool.addDefinition d with
      | error e =>
          rw [hd] at h
          cases h
      | ok middle =>
          rw [hd] at h
          obtain ⟨hfirst, new, hnew⟩ := addDefinition_of_ok hd
          obtain ⟨hrest, newer, hnewer⟩ := ih h
          exact ⟨hfirst.cons hrest, new ++ newer, by rw [hnewer, hnew, List.append_assoc]⟩

/-- Of definitions not all of which can be added, those in front of the first that cannot are. -/
lemma addDefinitions_of_error (h : pool.addDefinitions ds = (grown, some e)) :
    ∃ front bad behind, ds = front ++ bad :: behind ∧ pool.addDefinitions front = (grown, none) ∧
      grown.addDefinition bad = .error e := by
  induction ds generalizing pool with
  | nil => cases h
  | cons d ds ih =>
      rw [addDefinitions] at h
      cases hd : pool.addDefinition d with
      | error e' =>
          rw [hd] at h
          cases h
          exact ⟨[], d, ds, rfl, rfl, hd⟩
      | ok middle =>
          rw [hd] at h
          obtain ⟨front, bad, behind, rfl, hfront, hbad⟩ := ih h
          refine ⟨d :: front, bad, behind, rfl, ?_, hbad⟩
          rw [addDefinitions, hd]
          exact hfront

/-- Of definitions that can all be added, each has only usable numbers, unless its name was known or
one in front of it has made it so. -/
lemma usable_of_addDefinitions (h : pool.addDefinitions ds = (grown, none)) {before after}
    (hsplit : ds = before ++ d :: after) : d.Usable ∨ pool.Knows d ∨ d.MadeBy before := by
  induction before generalizing pool ds with
  | nil =>
      subst hsplit
      rw [List.nil_append, addDefinitions] at h
      cases hd : pool.addDefinition d with
      | error e =>
          rw [hd] at h
          cases h
      | ok middle => exact (usable_of_addDefinition hd).imp_right .inl
  | cons first before ih =>
      subst hsplit
      rw [List.cons_append, addDefinitions] at h
      cases hfirst : pool.addDefinition first with
      | error e =>
          rw [hfirst] at h
          cases h
      | ok middle =>
          rw [hfirst] at h
          have hknows := (addDefinition_of_ok hfirst).1.knows_iff d
          rcases ih h rfl with husable | hmiddle | hmade
          · exact .inl husable
          · exact .inr ((hknows.1 hmiddle).imp_right fun hmade => hmade.mono (by simp))
          · exact .inr (.inr (hmade.mono (List.subset_cons_self _ _)))

lemma addDefinitions_of_knows (h : ∀ d ∈ ds, pool.Knows d) :
    pool.addDefinitions ds = (pool, none) := by
  induction ds with
  | nil => rfl
  | cons d ds ih =>
      rw [addDefinitions, addDefinition_of_knows (h d List.mem_cons_self)]
      exact ih fun x hx => h x (List.mem_cons_of_mem d hx)

lemma exists_addDefinitions_of_more {more : Pool} (hmore : ∀ d, pool.Knows d → more.Knows d)
    (h : pool.addDefinitions ds = (grown, none)) :
    ∃ grown', more.addDefinitions ds = (grown', none) := by
  induction ds generalizing pool more with
  | nil => exact ⟨more, rfl⟩
  | cons d ds ih =>
      rw [addDefinitions] at h
      cases hd : pool.addDefinition d with
      | error e =>
          rw [hd] at h
          cases h
      | ok middle =>
          rw [hd] at h
          obtain ⟨middle', hd'⟩ := exists_addDefinition_of_more hmore hd
          rw [addDefinitions, hd']
          exact ih ((addDefinition_of_ok hd).1.knows_of_more (addDefinition_of_ok hd').1 hmore) h

/-! ### Resolving -/

variable {known : ℕ}

lemma message?_resolveFrom {earlier : Pool} {new : List MessageDescriptor}
    (h : pool.messages = earlier.messages ++ new) (fullName : String) :
    (pool.resolveFrom earlier.messages.length).message? fullName =
      (earlier.message? fullName).or
        ((new.find? fun m => m.fullName = fullName).map pool.resolveFields) := by
  simp only [message?, resolveFrom, h, List.take_left, List.drop_left, List.find?_append,
    List.find?_map]
  rfl

/-- Resolving changes no name, and so nothing in what other names are resolved to. -/
lemma resolveFields_resolveFrom {earlier : Pool} {new : List MessageDescriptor}
    (h : pool.messages = earlier.messages ++ new) :
    (pool.resolveFrom earlier.messages.length).resolveFields = pool.resolveFields := by
  have hdefines : (pool.resolveFrom earlier.messages.length).defines = pool.defines := by
    funext fullName
    rw [defines, defines, message?_resolveFrom h]
    congr 1
    simp [message?, h]
  funext m
  simp only [resolveFields, resolvedName, resolveName?, hdefines]

/-! ### A set of files -/

lemma addDefinitions_of_add (h : (pool.add set).2 = none) :
    ∃ grown, pool.addDefinitions set.definitions = (grown, none) ∧
      (pool.add set).1 = grown.resolveFrom pool.messages.length := by
  rw [add] at h ⊢
  cases hadded : pool.addDefinitions set.definitions with
  | mk grown error =>
      rw [hadded] at h
      cases error with
      | none => exact ⟨grown, rfl, rfl⟩
      | some e => cases h

/-- **After an addition without an error** the pool answers as before, and for new names as the set
defines them, with all type names resolved that are known now. -/
theorem add_of_success (h : (pool.add set).2 = none) :
    pool.Adds set.definitions (pool.add set).1.resolveFields (pool.add set).1 := by
  obtain ⟨grown, hadded, hresolved⟩ := addDefinitions_of_add h
  obtain ⟨hgrown, new, hnew⟩ := addDefinitions_of_success hadded
  rw [hresolved, resolveFields_resolveFrom hnew]
  refine ⟨fun fullName => ?_, hgrown.enum?⟩
  have hfound : (pool.message? fullName).or (new.find? fun m => m.fullName = fullName) =
      (pool.message? fullName).or
        (set.definitions.findSome? (Definition.message? fullName)) := by
    simpa only [message?, hnew, List.find?_append, Option.map_id, id] using
      hgrown.message? fullName
  rw [message?_resolveFrom hnew]
  cases hearlier : pool.message? fullName with
  | some m => rfl
  | none =>
      rw [hearlier, Option.none_or, Option.none_or] at hfound
      rw [hfound]

/-- An addition succeeds on a pool that knows more than one on which it does. -/
lemma add_of_more {more : Pool} (hmore : ∀ d, pool.Knows d → more.Knows d)
    (h : (pool.add set).2 = none) : (more.add set).2 = none := by
  obtain ⟨grown, hadded, -⟩ := addDefinitions_of_add h
  obtain ⟨grown', hadded'⟩ := exists_addDefinitions_of_more hmore hadded
  rw [add, hadded']

lemma addDefinitions_of_add_error (h : (pool.add set).2 = some e) :
    pool.addDefinitions set.definitions = ((pool.add set).1, some e) := by
  rw [add] at h ⊢
  cases hadded : pool.addDefinitions set.definitions with
  | mk grown error =>
      rw [hadded] at h
      cases error with
      | none => cases h
      | some e' =>
          cases h
          rfl

/-- **After an addition that ends in an error**, the error names the first number that cannot be
used, in the first definition that has one and whose name is not known. A definition in front of it
has none, or its name was known, or one still further in front made it known. The pool answers as
before, and for new names as the definitions in front of that one say, type names as declared; it
is the same as before if they define no new name. An addition that would have succeeded without this
one succeeds, and only adds to what was left behind. -/
theorem add_of_error (h : (pool.add set).2 = some e) :
    ∃ front fields behind,
      set.definitions = front ++ .message e.message fields :: behind ∧
      (∃ usable f others, fields = usable ++ f :: others ∧ (∀ g ∈ usable, g.Usable) ∧
        ¬ f.Usable ∧ f.name = e.field ∧ f.number = e.number) ∧
      (pool.add set).1.message? e.message = none ∧
      (∀ before d after, front = before ++ d :: after →
        d.Usable ∨ pool.Knows d ∨ d.MadeBy before) ∧
      pool.Adds front id (pool.add set).1 ∧
      ((∀ d ∈ front, pool.Knows d) → (pool.add set).1 = pool) ∧
      ∀ next, (pool.add next).2 = none →
        ((pool.add set).1.add next).2 = none ∧
        pool.Adds next.definitions (pool.add next).1.resolveFields (pool.add next).1 ∧
        (pool.add set).1.Adds next.definitions ((pool.add set).1.add next).1.resolveFields
          ((pool.add set).1.add next).1 := by
  have hadded := addDefinitions_of_add_error h
  generalize (pool.add set).1 = grown at hadded ⊢
  obtain ⟨front, bad, behind, hsplit, hfront, hbad⟩ := addDefinitions_of_error hadded
  obtain ⟨fields, rfl, hnew, hfield⟩ := addDefinition_of_error hbad
  have hadds := (addDefinitions_of_success hfront).1
  refine ⟨front, fields, behind, hsplit, hfield, hnew,
    fun before d after => usable_of_addDefinitions hfront, hadds, fun hknown => ?_,
    fun next hnext => ?_⟩
  · rw [addDefinitions_of_knows hknown] at hfront
    exact (congrArg Prod.fst hfront).symm
  · have hknows : ∀ d, pool.Knows d → grown.Knows d := by
      intro d hd
      rw [hadds.knows_iff]
      exact .inl hd
    have hmore : (grown.add next).2 = none := add_of_more hknows hnext
    exact ⟨hmore, add_of_success hnext, add_of_success hmore⟩

/-- A message that can be added, and in the same file one with a number that cannot be used. -/
def halfUsable : FileSet :=
  [{ package := "", enums := []
     messages := [.mk "A" [] [] [], .mk "B" [⟨"x", 0, .int32, "", .optional⟩] [] []] }]

/-- Another message under the name of the first one, with a field. -/
def otherA : FileSet :=
  [{ package := "", enums := [], messages := [.mk "A" [⟨"y", 1, .int32, "", .optional⟩] [] []] }]

theorem add_halfUsable_of_error :
    (Pool.empty.add halfUsable).2 = some ⟨".B", "x", 0⟩ ∧
      ∃ front fields behind,
        halfUsable.definitions = front ++ .message ".B" fields :: behind ∧
        Pool.empty.Adds front id (Pool.empty.add halfUsable).1 := by
  have h : (Pool.empty.add halfUsable).2 = some ⟨".B", "x", 0⟩ := by decide
  obtain ⟨front, fields, behind, hsplit, -, -, -, hadds, -⟩ := add_of_error h
  exact ⟨h, front, fields, behind, hsplit, hadds⟩

/-- An addition that ends in an error is not taken back: the message in front of the unusable one is
found after it, and keeps another one out that takes its name later. -/
theorem add_not_taken_back :
    (¬ ∀ (pool : Pool) (set : FileSet) (e : InvalidFieldNumber), (pool.add set).2 = some e →
      ∀ name, (pool.add set).1.findMessage? name = pool.findMessage? name ∧
        (pool.add set).1.findEnum? name = pool.findEnum? name) ∧
    ¬ ∀ (pool : Pool) (set : FileSet) (e : InvalidFieldNumber), (pool.add set).2 = some e →
      ∀ next, ((pool.add set).1.add next).2 = none →
        ∀ name, ((pool.add set).1.add next).1.findMessage? name =
          (pool.add next).1.findMessage? name := by
  have herror : (Pool.empty.add halfUsable).2 = some ⟨".B", "x", 0⟩ := by decide
  refine ⟨fun h => ?_, fun h => ?_⟩
  · have hfound := (h .empty halfUsable _ herror ".A").1
    exact absurd hfound (by decide)
  · have hfound := h .empty halfUsable _ herror otherA (by decide) ".A"
    exact absurd hfound (by decide)

end Pool

end AtomTimeline
