import AtomTimeline.Proofs.Schema.Declarations
import AtomTimeline.Proofs.Schema.RelativeNames

/-!
The order of declarations in a set of files, and what is found after the set was added.

* `FileSet.NewTo`: no full name is declared twice or already known.
* `Pool.addDefinitions_success_iff`: definitions of this kind are added just if each of them can be
  used by itself, so in any order.
* `Pool.answers_of_rearranged`: a set that differs in the order only leaves the same answers.
* `Pool.resolved_in_any_order`: type names are resolved among all names that are known in the end,
  and so in any order.
-/

namespace AtomTimeline

lemma exists_fieldDescriptors_iff {message : String} {decls : List FieldDecl} :
    (∃ found, fieldDescriptors message decls [] = .ok found) ↔ ∀ f ∈ decls, FieldDecl.Usable f := by
  constructor
  · rintro ⟨found, hfound⟩
    exact usable_of_fieldDescriptors hfound
  · intro h
    cases hfields : fieldDescriptors message decls [] with
    | ok found => exact ⟨found, rfl⟩
    | error e =>
        obtain ⟨usable, f, others, rfl, -, hf, -⟩ := fieldDescriptors_of_error hfields
        exact absurd (h f (by simp)) hf

/-- What is found is found in any order if there is only one that can be found. -/
lemma findSome?_perm {α β : Type} {f : α → Option β} {as bs : List α} (hperm : as.Perm bs)
    (hone : ∀ a ∈ as, ∀ b ∈ as, (f a).isSome → (f b).isSome → a = b) :
    as.findSome? f = bs.findSome? f := by
  cases hfound : as.findSome? f with
  | none =>
      rw [List.findSome?_eq_none_iff] at hfound
      exact (List.findSome?_eq_none_iff.mpr fun b hb => hfound b (hperm.mem_iff.mpr hb)).symm
  | some x =>
      obtain ⟨a, ha, hx⟩ := List.exists_of_findSome?_eq_some hfound
      have hsome : (bs.findSome? f).isSome :=
        List.findSome?_isSome_iff.mpr ⟨a, hperm.mem_iff.mp ha, by rw [hx]; rfl⟩
      obtain ⟨y, hy⟩ := Option.isSome_iff_exists.mp hsome
      obtain ⟨b, hb, hyb⟩ := List.exists_of_findSome?_eq_some hy
      obtain rfl := hone a ha b (hperm.mem_iff.mpr hb) (by rw [hx]; rfl) (by rw [hyb]; rfl)
      rw [hy, ← hyb, hx]

/-- Full names that are declared once and not known yet. -/
structure DefinitionsNewTo (pool : Pool) (ds : List Definition) : Prop where
  nodup : (ds.map Definition.fullName).Nodup
  unknown : ∀ d ∈ ds, pool.defines d.fullName = false

/-- No full name is declared twice in the set or known to the pool. -/
def FileSet.NewTo (set : FileSet) (pool : Pool) : Prop := DefinitionsNewTo pool set.definitions

namespace DefinitionsNewTo

variable {pool grown : Pool} {d : Definition} {ds ds' : List Definition}

lemma perm (h : DefinitionsNewTo pool ds) (hperm : ds.Perm ds') : DefinitionsNewTo pool ds' where
  nodup := (hperm.map _).nodup_iff.mp h.nodup
  unknown d hd := h.unknown d (hperm.mem_iff.mpr hd)

lemma eq_of_fullName_eq (h : DefinitionsNewTo pool ds) {d' : Definition} (hd : d ∈ ds)
    (hd' : d' ∈ ds) (heq : d.fullName = d'.fullName) : d = d' :=
  List.inj_on_of_nodup_map h.nodup hd hd' heq

lemma not_knows (h : DefinitionsNewTo pool ds) (hd : d ∈ ds) : ¬ pool.Knows d := by
  have hunknown := h.unknown d hd
  rw [Pool.defines, Bool.or_eq_false_iff] at hunknown
  cases d with
  | message name fields => exact Bool.eq_false_iff.mp hunknown.1
  | enum name values => exact Bool.eq_false_iff.mp hunknown.2

/-- In any order the definitions make the same of a name. -/
lemma findSome?_eq {α : Type} {f : Definition → Option α} {name : String}
    (h : DefinitionsNewTo pool ds) (hperm : ds.Perm ds')
    (hname : ∀ d, (f d).isSome → d.fullName = name) : ds'.findSome? f = ds.findSome? f := by
  refine (findSome?_perm hperm fun d hd d' hd' hsome hsome' => ?_).symm
  exact h.eq_of_fullName_eq hd hd' ((hname d hsome).trans (hname d' hsome').symm)

end DefinitionsNewTo

namespace Definition

variable {name : String} {d : Definition}

/-- A definition makes a message of its own name only. -/
lemma fullName_of_message? (h : (d.message? name).isSome) : d.fullName = name := by
  cases d with
  | enum => cases h
  | message =>
      rw [message?] at h
      split at h
      · assumption
      · cases h

/-- A definition makes an enum of its own name only. -/
lemma fullName_of_enum? (h : (d.enum? name).isSome) : d.fullName = name := by
  cases d with
  | message => cases h
  | enum =>
      rw [enum?] at h
      split at h
      · assumption
      · cases h

end Definition

namespace Pool

variable {pool grown : Pool} {ds ds' : List Definition} {set set' : FileSet}

/-! ### What is added -/

/-- A definition of a new name is added just if it can be used, and then no other name becomes
known. -/
lemma addDefinition_of_unknown {d : Definition} (h : ¬ pool.Knows d) :
    (∃ grown, pool.addDefinition d = .ok grown) ↔ d.Usable := by
  cases d with
  | enum name values =>
      rw [addDefinition, if_neg (show ¬ (pool.enum? name).isSome from h)]
      exact ⟨fun _ => trivial, fun _ => ⟨_, rfl⟩⟩
  | message name fields =>
      rw [addDefinition, if_neg (show ¬ (pool.message? name).isSome from h), Definition.Usable,
        ← exists_fieldDescriptors_iff]
      cases fieldDescriptors name fields [] <;> simp

lemma Adds.defines_eq {change : MessageDescriptor → MessageDescriptor} {earlier later : Pool}
    (h : earlier.Adds ds change later) (fullName : String) :
    later.defines fullName =
      (earlier.defines fullName || (ds.findSome? (Definition.message? fullName)).isSome ||
        (ds.findSome? (Definition.enum? fullName)).isSome) := by
  rw [defines, defines, h.message?, h.enum?, Option.isSome_or, Option.isSome_or, Option.isSome_map]
  ac_rfl

/-- Definitions of names that are new and differ are added just if each of them can be used. -/
theorem addDefinitions_success_iff (hnew : DefinitionsNewTo pool ds) :
    (pool.addDefinitions ds).2 = none ↔ ∀ d ∈ ds, d.Usable := by
  induction ds generalizing pool with
  | nil => simp [addDefinitions]
  | cons d ds ih =>
      rw [List.forall_mem_cons,
        ← addDefinition_of_unknown (hnew.not_knows List.mem_cons_self), addDefinitions]
      cases hd : pool.addDefinition d with
      | error e => simp
      | ok middle =>
          have hnodup := List.nodup_cons.mp hnew.nodup
          have hmiddle : DefinitionsNewTo middle ds := by
            refine ⟨hnodup.2, fun other hother => ?_⟩
            have hne : d.fullName ≠ other.fullName := fun heq =>
              hnodup.1 (heq ▸ List.mem_map_of_mem hother)
            rw [(addDefinition_of_ok hd).1.defines_eq,
              hnew.unknown other (List.mem_cons_of_mem d hother), List.findSome?_singleton,
              List.findSome?_singleton, Bool.eq_false_of_not_eq_true fun hmade =>
                hne (Definition.fullName_of_message? hmade),
              Bool.eq_false_of_not_eq_true fun hmade => hne (Definition.fullName_of_enum? hmade)]
            rfl
          simpa using ih hmiddle

/-- What names are resolved to depends on nothing but which names are known. -/
lemma resolveFields_congr {pool' : Pool} (h : pool.defines = pool'.defines) :
    pool.resolveFields = pool'.resolveFields := by
  funext m
  simp only [resolveFields, resolvedName, resolveName?, h]

/-! ### The answers -/

lemma add_success_of_rearranged (hnew : set.NewTo pool) (horder : set.Rearranged set')
    (h : (pool.add set).2 = none) : (pool.add set').2 = none := by
  have hperm := horder.definitions_perm
  obtain ⟨grown, hadded, -⟩ := addDefinitions_of_add h
  have husable := (addDefinitions_success_iff hnew).mp (by rw [hadded])
  have hadded' : (pool.addDefinitions set'.definitions).2 = none :=
    (addDefinitions_success_iff (hnew.perm hperm)).mpr fun d hd =>
      husable d (hperm.mem_iff.mpr hd)
  rw [add]
  split
  · rfl
  · next e he =>
    rw [he] at hadded'
    cases hadded'

/-- Sets that differ in the order only leave the same answers, if no name is declared twice or known
already. -/
theorem answers_of_rearranged (hnew : set.NewTo pool) (horder : set.Rearranged set')
    (h : (pool.add set).2 = none) (name : String) :
    (pool.add set').1.findMessage? name = (pool.add set).1.findMessage? name ∧
      (pool.add set').1.findEnum? name = (pool.add set).1.findEnum? name := by
  have hperm := horder.definitions_perm
  have hadds := add_of_success h
  have hadds' := add_of_success (add_success_of_rearranged hnew horder h)
  have hmessages : ∀ fullName, set'.definitions.findSome? (Definition.message? fullName) =
      set.definitions.findSome? (Definition.message? fullName) := fun _ =>
    hnew.findSome?_eq hperm fun _ => Definition.fullName_of_message?
  have henums : ∀ fullName, set'.definitions.findSome? (Definition.enum? fullName) =
      set.definitions.findSome? (Definition.enum? fullName) := fun _ =>
    hnew.findSome?_eq hperm fun _ => Definition.fullName_of_enum?
  have hresolve : (pool.add set').1.resolveFields = (pool.add set).1.resolveFields := by
    refine resolveFields_congr (funext fun fullName => ?_)
    rw [hadds.defines_eq, hadds'.defines_eq, hmessages, henums]
  constructor
  · rw [findMessage?, findMessage?, hadds.message?, hadds'.message?, hmessages, hresolve]
  · rw [findEnum?, findEnum?, hadds.enum?, hadds'.enum?, henums]

/-- **The type names of new messages** are resolved among all names that are known once the whole
set was added: a full one is kept, a relative one stands in the innermost scope where it is known,
and is kept if there is none. So the answers do not depend on the order of the files, nor on that of
the messages, enums and nested types in them, if no full name is declared twice or known already. -/
theorem resolved_in_any_order (h : (pool.add set).2 = none) :
    (∀ name m, pool.findMessage? name = none → (pool.add set).1.findMessage? name = some m →
      ∃ front decls behind, set.definitions = front ++ .message m.fullName decls :: behind ∧
        (∀ fields, .message m.fullName fields ∉ front) ∧
        (∀ f : FieldDecl, f.IsLast decls →
          ∃ d ∈ m.fields, (pool.add set).1.Describes m.fullName f d) ∧
        ∀ d ∈ m.fields, ∃ f : FieldDecl, f.IsLast decls ∧
          (pool.add set).1.Describes m.fullName f d) ∧
    (set.NewTo pool → ∀ set', set.Rearranged set' →
      (pool.add set').2 = none ∧
      ∀ name, (pool.add set').1.findMessage? name = (pool.add set).1.findMessage? name ∧
        (pool.add set').1.findEnum? name = (pool.add set).1.findEnum? name) :=
  ⟨fun _ _ hnew hm => fields_of_add h hnew hm, fun hnew _ horder =>
    ⟨add_success_of_rearranged hnew horder h, answers_of_rearranged hnew horder h⟩⟩

/-- Two enums of one name, one nested deeper, and a message that means it by its relative name. -/
def shadowing : FileSet :=
  [{ package := "p", messages := [], enums := [⟨"Kind", [("PLAIN", 0)]⟩] },
    { package := "p", enums := []
      messages := [.mk "Outer" [⟨"kind", 1, .enum, "Kind", .optional⟩]
        [.mk "Inner" [⟨"kind", 1, .enum, "Kind", .optional⟩] [] []] [⟨"Kind", [("NESTED", 1)]⟩]] }]

theorem resolved_in_any_order_shadowing :
    (Pool.empty.add shadowing).2 = none ∧
      (∃ m, (Pool.empty.add shadowing).1.findMessage? "p.Outer.Inner" = some m ∧
        ∃ d ∈ m.fields, d.number = 1 ∧
          (Pool.empty.add shadowing).1.KeptAs m.fullName "Kind" d.typeName) ∧
      ∀ name, (Pool.empty.add shadowing.reverse).1.findMessage? name =
        (Pool.empty.add shadowing).1.findMessage? name := by
  have h : (Pool.empty.add shadowing).2 = none := by decide
  have hnew : shadowing.NewTo .empty := ⟨by decide, by decide⟩
  have horder : shadowing.Rearranged shadowing.reverse :=
    ⟨shadowing,
      .cons ⟨rfl, .nil, .refl _⟩
        (.cons ⟨rfl, .cons (.mk (.cons (.mk .nil (.refl _)) .nil) (.refl _)) .nil, .refl _⟩ .nil),
      (List.reverse_perm shadowing).symm⟩
  obtain ⟨hnames, hany⟩ := resolved_in_any_order h
  refine ⟨h, ?_, fun name => ((hany hnew _ horder).2 name).1⟩
  obtain ⟨m, hm⟩ := Option.isSome_iff_exists.mp
    (show ((Pool.empty.add shadowing).1.findMessage? "p.Outer.Inner").isSome by decide)
  obtain ⟨front, decls, behind, hsplit, -, hfields, -⟩ := hnames _ m (by decide) hm
  have hname : m.fullName = ".p.Outer.Inner" := fullName_of_findMessage? hm
  have hmem : Definition.message m.fullName decls ∈ shadowing.definitions := by simp [hsplit]
  have hdefinitions : shadowing.definitions =
      [.enum ".p.Kind" [("PLAIN", 0)],
        .message ".p.Outer.Inner" [⟨"kind", 1, .enum, "Kind", .optional⟩],
        .enum ".p.Outer.Kind" [("NESTED", 1)],
        .message ".p.Outer" [⟨"kind", 1, .enum, "Kind", .optional⟩]] := by decide
  obtain rfl : decls = [⟨"kind", 1, .enum, "Kind", .optional⟩] := by
    simpa [hdefinitions, hname] using hmem
  obtain ⟨d, hd, hdescribed⟩ := hfields _ ⟨[], [], rfl, by simp⟩
  have hnumber : (d.number.toNat : Int) = 1 := hdescribed.number_eq
  exact ⟨m, hm, d, hd, UInt32.toNat_inj.mp (by exact_mod_cast hnumber),
    hdescribed.typeName_kept (by decide)⟩

end Pool

end AtomTimeline
