import AtomTimeline.Proofs.Schema.IndexedPools

/-!
What is found through the index of a pool, whatever was added.

* `IndexedPool.Coherent`: the index leads to messages of the right names, no name stands twice, and
  every field stands under its own number.
* `IndexedPool.Extends`: the messages of a pool stay where and as they are, and so do its enums.
  `IndexedPool.extends_add`: also after an addition that ends in an error.
* `Pool.isSome_findMessage?_add`, `Pool.isSome_findEnum?_add`: an addition without an error makes
  just those names known that are declared at some depth.
* `IndexedPool.addAll_spec`: so the index can be relied on after any additions.
-/

namespace AtomTimeline

namespace IndexedPool

/-- The index leads to messages of the right names, no two messages share a name, and every field
stands under its own number. -/
structure Coherent (pool : IndexedPool) : Prop where
  indexed (fullName : String) (position : ℕ) : pool.index[fullName]? = some position →
    ∃ m, pool.messages[position]? = some m ∧ m.fullName = fullName
  nodup : (pool.messages.toList.map IndexedMessage.fullName).Nodup
  keyed : ∀ m ∈ pool.messages, m.fields.Keyed

variable {indexed grown : IndexedPool} {pool : Pool}

lemma Refines.coherent (h : indexed.Refines pool) : indexed.Coherent where
  indexed fullName position hposition := by
    rw [h.index_eq] at hposition
    obtain ⟨hlt, hname, -⟩ := Array.findIdx?_eq_some_iff_getElem.mp hposition
    exact ⟨_, Array.getElem?_eq_getElem hlt, of_decide_eq_true hname⟩
  nodup := h.nodup
  keyed := h.keyed

/-! ### What stays -/

/-- The messages stand where they stood, unchanged, and so do the enums. -/
structure Extends (later earlier : IndexedPool) : Prop where
  messages : ∃ new, later.messages = earlier.messages ++ new
  enums {fullName : String} {e : EnumDescriptor} : earlier.enums[fullName]? = some e →
    later.enums[fullName]? = some e

namespace Extends

variable {later earlier : IndexedPool}

lemma refl (indexed : IndexedPool) : indexed.Extends indexed := ⟨⟨#[], by simp⟩, id⟩

lemma trans {middle : IndexedPool} (h : later.Extends middle) (h' : middle.Extends earlier) :
    later.Extends earlier := by
  obtain ⟨new, hnew⟩ := h.messages
  obtain ⟨new', hnew'⟩ := h'.messages
  exact ⟨⟨new' ++ new, by rw [hnew, hnew', Array.append_assoc]⟩, fun he => h.enums (h'.enums he)⟩

lemma findMessage? (h : later.Extends earlier) {pool pool' : Pool} (hlater : later.Refines pool)
    (hearlier : earlier.Refines pool') {name : String} {m : IndexedMessage}
    (hm : earlier.findMessage? name = some m) : later.findMessage? name = some m := by
  obtain ⟨new, hnew⟩ := h.messages
  rw [IndexedPool.findMessage?, hearlier.message?_eq_find?] at hm
  rw [IndexedPool.findMessage?, hlater.message?_eq_find?, hnew, Array.find?_append, hm,
    Option.some_or]

end Extends

lemma extends_addDefinition {d : Definition} (h : indexed.addDefinition d = .ok grown) :
    grown.Extends indexed := by
  cases d with
  | message fullName decls =>
      rw [addDefinition] at h
      split at h
      · cases h
        exact .refl _
      · split at h
        · cases h
          exact ⟨⟨#[_], Array.push_eq_append⟩, id⟩
        · cases h
  | enum fullName values =>
      cases h
      refine ⟨⟨#[], by simp⟩, fun {name e} he => ?_⟩
      have hmem : name ∈ indexed.enums := by
        rw [Std.HashMap.mem_iff_isSome_getElem?, he]
        rfl
      rw [Std.HashMap.getElem?_insertIfNew, if_neg, he]
      rintro ⟨heq, hnew⟩
      exact hnew (beq_iff_eq.mp heq ▸ hmem)

lemma extends_addDefinitions (indexed : IndexedPool) (ds : List Definition) :
    (indexed.addDefinitions ds).1.Extends indexed := by
  induction ds generalizing indexed with
  | nil => exact .refl _
  | cons d ds ih =>
      rw [addDefinitions]
      split
      · next grown hgrown => exact (ih grown).trans (extends_addDefinition hgrown)
      · exact .refl _

/-- Only new messages are resolved. -/
lemma Extends.resolveFrom (h : grown.Extends indexed) :
    (grown.resolveFrom indexed.messages.size).Extends indexed := by
  obtain ⟨new, hnew⟩ := h.messages
  refine ⟨⟨new.map grown.resolveFields, ?_⟩, h.enums⟩
  rw [← Array.toList_inj, toList_resolveFrom, hnew, Array.toList_append, Array.toList_append,
    ← Array.length_toList, List.take_left, List.drop_left, Array.toList_map]

/-- An addition leaves everything that stands in the pool as it is. -/
theorem extends_add (indexed : IndexedPool) (set : FileSet) :
    (indexed.add set).1.Extends indexed := by
  have hadded := indexed.extends_addDefinitions set.definitions
  rw [add]
  split
  · next grown hgrown =>
    rw [hgrown] at hadded
    exact hadded.resolveFrom
  · next grown e hgrown =>
    rw [hgrown] at hadded
    exact hadded

lemma extends_addAll (sets more : List FileSet) :
    (addAll (sets ++ more)).Extends (addAll sets) := by
  induction more using List.reverseRecOn with
  | nil => exact (List.append_nil sets).symm ▸ .refl _
  | append_singleton more set ih =>
      rw [← List.append_assoc, addAll, List.foldl_append]
      exact (extends_add _ set).trans ih

/-! ### What is found -/

end IndexedPool

lemma Pool.knows_or_madeBy_of_declares {pool : Pool} {set : FileSet} (h : (pool.add set).2 = none)
    {d : Definition} (hd : set.Declares d) : pool.Knows d ∨ d.MadeBy set.definitions := by
  obtain ⟨grown, hadded, -⟩ := addDefinitions_of_add h
  have hgrown := knows_of_success hadded (FileSet.mem_definitions_iff.mpr hd)
  exact ((addDefinitions_of_success hadded).1.knows_iff d).mp hgrown

/-- After an addition without an error a message is found just if it was found before or is declared
at some depth. -/
lemma Pool.isSome_findMessage?_add {pool : Pool} {set : FileSet} (h : (pool.add set).2 = none)
    (name : String) :
    ((pool.add set).1.findMessage? name).isSome ↔
      (pool.findMessage? name).isSome ∨
        ∃ decls, set.Declares (.message (Pool.absolute name) decls) := by
  have hknows := (add_of_success h).knows_iff (.message (absolute name) [])
  simp only [Knows, Definition.MadeBy] at hknows
  rw [findMessage?, findMessage?, hknows]
  refine ⟨Or.imp_right fun hmade => ?_, ?_⟩
  · obtain ⟨d, hd, hsome⟩ := List.findSome?_isSome_iff.mp hmade
    cases d with
    | enum => cases hsome
    | message fullName decls =>
        obtain rfl : fullName = absolute name := Definition.fullName_of_message? hsome
        exact ⟨decls, FileSet.mem_definitions_iff.mp hd⟩
  · rintro (hbefore | ⟨decls, hdeclares⟩)
    · exact .inl hbefore
    · exact knows_or_madeBy_of_declares h hdeclares

/-- After an addition without an error an enum is found just if it was found before or is declared
at some depth. -/
lemma Pool.isSome_findEnum?_add {pool : Pool} {set : FileSet} (h : (pool.add set).2 = none)
    (name : String) :
    ((pool.add set).1.findEnum? name).isSome ↔
      (pool.findEnum? name).isSome ∨
        ∃ values, set.Declares (.enum (Pool.absolute name) values) := by
  have hknows := (add_of_success h).knows_iff (.enum (absolute name) [])
  simp only [Knows, Definition.MadeBy] at hknows
  rw [findEnum?, findEnum?, hknows]
  refine ⟨Or.imp_right fun hmade => ?_, ?_⟩
  · obtain ⟨d, hd, hsome⟩ := List.findSome?_isSome_iff.mp hmade
    cases d with
    | message => cases hsome
    | enum fullName values =>
        obtain rfl : fullName = absolute name := Definition.fullName_of_enum? hsome
        exact ⟨values, FileSet.mem_definitions_iff.mp hd⟩
  · rintro (hbefore | ⟨values, hdeclares⟩)
    · exact .inl hbefore
    · exact knows_or_madeBy_of_declares h hdeclares

namespace IndexedPool

/-- **An index of positions can be relied on** after any additions, with or without errors: its
entries lead to messages of the right names, no two messages share a name, and every field stands
under its own number. What was found under a name once is found under it from then on, unchanged. An
addition without an error makes just those names known that the set declares at some depth, also
inside a message whose own name was known. The answers and errors are those of a pool without an
index. -/
theorem addAll_spec (sets : List FileSet) :
    (addAll sets).Coherent ∧
      (∀ more name,
        (∀ m, (addAll sets).findMessage? name = some m →
          (addAll (sets ++ more)).findMessage? name = some m) ∧
        ∀ e, (addAll sets).findEnum? name = some e →
          (addAll (sets ++ more)).findEnum? name = some e) ∧
      (∀ set, ((addAll sets).add set).2 = none → ∀ name,
        ((((addAll sets).add set).1.findMessage? name).isSome ↔
          ((addAll sets).findMessage? name).isSome ∨
            ∃ decls, set.Declares (.message (Pool.absolute name) decls)) ∧
        ((((addAll sets).add set).1.findEnum? name).isSome ↔
          ((addAll sets).findEnum? name).isSome ∨
            ∃ values, set.Declares (.enum (Pool.absolute name) values))) ∧
      (∀ name,
        ((addAll sets).findMessage? name).map IndexedMessage.descriptor =
          (Pool.addAll sets).findMessage? name ∧
        (addAll sets).findEnum? name = (Pool.addAll sets).findEnum? name) ∧
      ∀ set, ((addAll sets).add set).2 = ((Pool.addAll sets).add set).2 := by
  have hrefines := refines_addAll sets
  refine ⟨hrefines.coherent, fun more name => ⟨fun m hm => ?_, fun e he => ?_⟩,
    fun set hset name => ?_, fun name => ⟨hrefines.map_message? _, hrefines.enum?_eq _⟩,
    fun set => (hrefines.add set).2⟩
  · exact (extends_addAll sets more).findMessage? (refines_addAll _) hrefines hm
  · exact (extends_addAll sets more).enums he
  · obtain ⟨hadded, herror⟩ := hrefines.add set
    rw [herror] at hset
    have hmessage := Pool.isSome_findMessage?_add hset name
    have henum := Pool.isSome_findEnum?_add hset name
    rw [Pool.findMessage?, Pool.findMessage?, ← hadded.map_message?, ← hrefines.map_message?,
      Option.isSome_map, Option.isSome_map] at hmessage
    rw [Pool.findEnum?, Pool.findEnum?, ← hadded.enum?_eq, ← hrefines.enum?_eq] at henum
    exact ⟨hmessage, henum⟩

/-- A message of a known name, with another one nested in it. -/
def nestedInA : FileSet :=
  [{ package := "", enums := [], messages := [.mk "A" [] [.mk "N" [] [] []] []] }]

/-- After an addition that ended in an error, the message that it left is kept, and what is nested
in another one of the name is added. -/
theorem addAll_spec_nestedInA :
    ((addAll [Pool.halfUsable]).findMessage? "A").isSome ∧
      ((addAll [Pool.halfUsable]).add nestedInA).2 = none ∧
      (((addAll [Pool.halfUsable]).add nestedInA).1.findMessage? "A.N").isSome := by
  obtain ⟨-, -, hfound, hanswers, herrors⟩ := addAll_spec [Pool.halfUsable]
  have herror : ((addAll [Pool.halfUsable]).add nestedInA).2 = none := by
    rw [herrors]
    decide
  refine ⟨?_, herror, ?_⟩
  · rw [← Option.isSome_map, (hanswers "A").1]
    decide
  · refine ((hfound nestedInA herror "A.N").1).mpr (.inr ⟨[], ?_⟩)
    exact .message List.mem_cons_self List.mem_cons_self (.nested List.mem_cons_self .self)

end IndexedPool

end AtomTimeline
