import AtomTimeline.Proofs.Session.Draining

/-!
Adding importers to a session, and who owns a field then.

* `Session.RegisteredAs` is the invariant of a session to which these importers were added one after
  the other: a field is owned by the first one that lists it. Every call that comes to an end
  without a failed check keeps it (`Session.RegisteredAs.run`).
* `Session.RegisteredAs.register_eq_none_iff`: adding an importer fails just if warnings are written
  and it lists twice a field that has no owner. Without a failure it makes no difference whether
  warnings are written (`Session.register_false`).
* `Session.ofImporters` is a session with given importers, the only one to which adding them can
  lead (`Session.eq_ofImporters_of_run`).
-/

namespace AtomTimeline

/-- The importer that a call registers. -/
def Session.Call.registered? {ι : Type} : Session.Call ι → Option ι
  | .register _ i => some i
  | _ => none

namespace Session

/-! ### Claiming fields -/

section

variable {warns : Bool} {place : ℕ} {fields : List UInt32} {owners : Std.HashMap UInt32 ℕ}

/-- A field that has an owner keeps it, and one that has none and is listed gets the new one. -/
lemma getElem?_claim (h : (claim warns place fields owners).1 = none) (field : UInt32) :
    (claim warns place fields owners).2[field]? =
      owners[field]?.or (if field ∈ fields then some place else none) := by
  induction fields generalizing owners with
  | nil => simp [claim]
  | cons first fields ih =>
      rw [claim] at h ⊢
      cases hfirst : owners[first]? with
      | none =>
          simp only [hfirst] at h ⊢
          rw [ih h, Std.HashMap.getElem?_insert]
          by_cases hfield : field = first
          · subst hfield
            simp [hfirst]
          · have hne : (first == field) = false := beq_eq_false_iff_ne.mpr fun h => hfield h.symm
            simp [hfield, hne]
      | some owner =>
          simp only [hfirst] at h ⊢
          split at h
          · cases h
          · next hgo =>
            rw [if_neg hgo, ih h]
            by_cases hfield : field = first
            · subst hfield
              simp [hfirst]
            · simp [hfield]

/-- Claiming fields fails on one that this importer owns already, if warnings are written. -/
lemma claim_eq_none_iff
    (hle : ∀ (field : UInt32) owner, owners[field]? = some owner → owner ≤ place) :
    (claim warns place fields owners).1 = none ↔
      (warns = true → (∀ field ∈ fields, owners[field]? ≠ some place) ∧
        (fields.filter fun field => owners[field]? = none).Nodup) := by
  induction fields generalizing owners with
  | nil => simp [claim]
  | cons first fields ih =>
      rw [claim]
      cases hfirst : owners[first]? with
      | none =>
          have hinsert : ∀ (field : UInt32) owner,
              (owners.insert first place)[field]? = some owner → owner ≤ place := by
            intro field owner h
            rw [Std.HashMap.getElem?_insert] at h
            split at h
            · exact (Option.some.inj h).ge
            · exact hle field owner h
          simp only
          rw [ih hinsert]
          refine imp_congr_right fun _ => ?_
          by_cases hmem : first ∈ fields
          · have htwice :
                ¬ ((first :: fields).filter fun field => owners[field]? = none).Nodup := by
              rw [List.filter_cons_of_pos (by simp [hfirst])]
              exact fun h => (List.nodup_cons.mp h).1 (List.mem_filter.mpr ⟨hmem, by simp [hfirst]⟩)
            refine iff_of_false (fun h => h.1 first hmem ?_) fun h => htwice h.2
            exact Std.HashMap.getElem?_insert_self
          · have hsame : ∀ field ∈ fields,
                (owners.insert first place)[field]? = owners[field]? := by
              intro field hfield
              rw [Std.HashMap.getElem?_insert, if_neg]
              rw [beq_iff_eq]
              rintro rfl
              exact hmem hfield
            have hfilter : (fields.filter fun field => (owners.insert first place)[field]? = none) =
                fields.filter fun field => owners[field]? = none :=
              List.filter_congr fun field hfield => by rw [hsame field hfield]
            rw [hfilter, List.filter_cons_of_pos (by simp [hfirst]), List.nodup_cons,
              List.forall_mem_cons]
            refine and_congr ?_ ?_
            · rw [hfirst]
              refine ⟨fun h => ⟨by simp, fun field hfield => hsame field hfield ▸ h field hfield⟩,
                fun h field hfield => ?_⟩
              rw [hsame field hfield]
              exact h.2 field hfield
            · exact ⟨fun h => ⟨fun hin => hmem (List.mem_filter.mp hin).1, h⟩, And.right⟩
      | some owner =>
          have howner := hle first owner hfirst
          simp only
          rw [List.forall_mem_cons, List.filter_cons_of_neg (by simp [hfirst])]
          split
          · next hfail =>
            refine iff_of_false (Option.some_ne_none _) fun h => (h hfail.1).1.1 ?_
            rw [hfirst, Nat.le_antisymm howner hfail.2]
          · next hgo =>
            rw [ih hle]
            refine imp_congr_right fun hwarns => and_congr_left' ⟨fun h => ⟨?_, h⟩, And.right⟩
            rw [hfirst]
            exact fun heq => hgo ⟨hwarns, (Option.some.inj heq).ge⟩

/-- The owner that is looked up in vain is the importer that is to be added. -/
lemma claim_fatal (hle : ∀ (field : UInt32) owner, owners[field]? = some owner → owner ≤ place)
    {fatal : FatalCheck} (h : (claim warns place fields owners).1 = some fatal) :
    fatal = .outOfBounds place place := by
  induction fields generalizing owners with
  | nil => cases h
  | cons first fields ih =>
      rw [claim] at h
      cases hfirst : owners[first]? with
      | none =>
          simp only [hfirst] at h
          refine ih (fun field owner howner => ?_) h
          rw [Std.HashMap.getElem?_insert] at howner
          split at howner
          · exact (Option.some.inj howner).ge
          · exact hle field owner howner
      | some owner =>
          simp only [hfirst] at h
          split at h
          · next hfail =>
            rw [← Option.some.inj h, Nat.le_antisymm (hle first owner hfirst) hfail.2]
          · exact ih hle h

/-- Where no warnings are written, nothing fails. -/
lemma claim_false_eq_none : (claim false place fields owners).1 = none := by
  induction fields generalizing owners with
  | nil => rfl
  | cons first fields ih =>
      rw [claim]
      split
      · exact ih
      · rw [if_neg (by simp)]
        exact ih

lemma claim_false (h : (claim warns place fields owners).1 = none) :
    claim false place fields owners = claim warns place fields owners := by
  induction fields generalizing owners with
  | nil => rfl
  | cons first fields ih =>
      rw [claim] at h
      rw [claim, claim]
      cases hfirst : owners[first]? with
      | none =>
          simp only [hfirst] at h ⊢
          exact ih h
      | some owner =>
          simp only [hfirst] at h ⊢
          split at h
          · cases h
          · next hgo =>
            rw [if_neg hgo, if_neg (by simp)]
            exact ih h

end

/-! ### Adding importers -/

variable {ι : Type} [Importer ι] {s after : Session ι} {warns : Bool} {i : ι} {is : List ι}
  {fatal : Option FatalCheck}

lemma register_of_claim (h : (claim warns s.importers.size (Importer.fields i) s.owners).1 = none) :
    s.register warns i =
      (none, { s with
        importers := s.importers.push i
        owners := (claim warns s.importers.size (Importer.fields i) s.owners).2 }) := by
  rw [register]
  split
  · next hclaim =>
    rw [hclaim] at h
    cases h
  · next hclaim => rw [hclaim]

lemma register_fatal (s : Session ι) (warns : Bool) (i : ι) :
    (s.register warns i).1 = (claim warns s.importers.size (Importer.fields i) s.owners).1 := by
  rw [register]
  split <;> next hclaim => rw [hclaim]

/-- Unless adding an importer fails, it makes no difference whether warnings are written. -/
lemma register_false (h : (s.register warns i).1 = none) :
    s.register false i = s.register warns i := by
  rw [register_fatal] at h
  rw [register, register, claim_false h]

lemma context_register (s : Session ι) (warns : Bool) (i : ι) :
    (s.register warns i).2.context = s.context := by
  rw [register]
  split <;> rfl

/-- The importers were registered one after the other: each has its place, and a field is owned by
the first one that lists it. -/
structure RegisteredAs (s : Session ι) (is : List ι) : Prop where
  size_eq : s.importers.size = is.length
  owners_eq (field : UInt32) : s.owners[field]? = is.findIdx? fun i => field ∈ Importer.fields i

namespace RegisteredAs

lemma initial : (Session.initial : Session ι).RegisteredAs [] where
  size_eq := rfl
  owners_eq _ := Std.HashMap.getElem?_empty

lemma placeOf?_eq (h : s.RegisteredAs is) (field : UInt32) :
    s.placeOf? field = is.findIdx? fun i => field ∈ Importer.fields i := by
  rw [placeOf?, owner?, h.owners_eq]
  cases hfound : is.findIdx? fun i => field ∈ Importer.fields i with
  | none => rfl
  | some place =>
      obtain ⟨hlt, -⟩ := List.findIdx?_eq_some_iff_getElem.mp hfound
      have hplace : place < s.importers.size := by rwa [h.size_eq]
      simp [hplace]

/-- All owners are there. -/
lemma lt_of_owners (h : s.RegisteredAs is) {field : UInt32} {place : ℕ}
    (howner : s.owners[field]? = some place) : place < s.importers.size := by
  rw [h.owners_eq] at howner
  rw [h.size_eq]
  exact (List.findIdx?_eq_some_iff_getElem.mp howner).1

/-- **Adding an importer fails** just if warnings are written and it lists a field twice that has no
owner. -/
theorem register_eq_none_iff (h : s.RegisteredAs is) (warns : Bool) (i : ι) :
    (s.register warns i).1 = none ↔
      (warns = true →
        ((Importer.fields i).filter fun field => s.placeOf? field = none).Nodup) := by
  have hfilter : ((Importer.fields i).filter fun field => s.owners[field]? = none) =
      (Importer.fields i).filter fun field => s.placeOf? field = none :=
    List.filter_congr fun field _ => by rw [h.owners_eq, h.placeOf?_eq]
  rw [register_fatal, claim_eq_none_iff fun _ _ howner => (h.lt_of_owners howner).le, hfilter]
  refine imp_congr_right fun _ => and_iff_right fun field _ howner => ?_
  exact absurd (h.lt_of_owners howner) (lt_irrefl _)

/-- Adding an importer that lists no field twice does not fail. -/
lemma register_of_nodup (h : s.RegisteredAs is) (warns : Bool) (hi : (Importer.fields i).Nodup) :
    (s.register warns i).1 = none :=
  (h.register_eq_none_iff warns i).mpr fun _ => hi.filter _

/-- The check that fails says that the importer is not there. -/
lemma register_fatal_eq (h : s.RegisteredAs is) {fatal : FatalCheck}
    (hfatal : (s.register warns i).1 = some fatal) : fatal = .outOfBounds is.length is.length := by
  rw [register_fatal] at hfatal
  rw [← h.size_eq]
  exact claim_fatal (fun _ _ howner => (h.lt_of_owners howner).le) hfatal

/-- One more importer gets the next place, and the fields that have no owner. -/
lemma register (h : s.RegisteredAs is) (hreg : s.register warns i = (none, after)) :
    after.RegisteredAs (is ++ [i]) := by
  have hclaim := congrArg Prod.fst hreg
  rw [register_fatal] at hclaim
  rw [register_of_claim hclaim] at hreg
  obtain rfl := congrArg Prod.snd hreg
  refine ⟨?_, fun field => ?_⟩
  · rw [Array.size_push, h.size_eq, List.length_append]
    rfl
  · rw [getElem?_claim hclaim, h.owners_eq, h.size_eq, List.findIdx?_append,
      List.findIdx?_singleton]
    by_cases hfield : field ∈ Importer.fields i <;> simp [hfield]

/-- Neither places nor owners depend on anything else. -/
lemma of_eq (h : s.RegisteredAs is) (hsize : after.importers.size = s.importers.size)
    (howners : after.owners = s.owners) : after.RegisteredAs is :=
  ⟨hsize.trans h.size_eq, fun field => howners ▸ h.owners_eq field⟩

lemma push (h : s.RegisteredAs is) (b : Bytes) : (s.push b).RegisteredAs is :=
  push_induction (P := fun after => after.RegisteredAs is) (fun _ _ _ hs => hs.of_eq rfl rfl)
    (fun s packet hs => hs.of_eq (by rw [importers_entered]) (owners_entered s packet))
    (fun _ _ _ _ _ _ _ hs => hs.of_eq (Array.size_setIfInBounds) rfl) s h b

lemma drain (h : s.RegisteredAs is) (hdrain : s.drain = some (fatal, after)) :
    after.RegisteredAs is :=
  drain_preserves (P := fun after => after.RegisteredAs is) (fun _ _ _ _ hs => hs.of_eq rfl rfl)
    (fun _ _ _ _ _ _ hs => hs.of_eq (Array.size_setIfInBounds) rfl) hdrain h

lemma importTrace (h : s.RegisteredAs is) {source : Source} {outcome : TraceOutcome}
    (himport : s.importTrace source = some (outcome, after)) : after.RegisteredAs is := by
  have hpushed := foldl_push_induction (P := fun after => after.RegisteredAs is)
    (fun _ b hs => hs.push b) source.packets.1 s h
  simp only [Session.importTrace] at himport
  split at himport
  · cases himport
    exact hpushed
  · obtain ⟨⟨fatal, drained⟩, hdrain, heq⟩ := Option.map_eq_some_iff.mp himport
    cases heq
    exact hpushed.drain hdrain

lemma call (h : s.RegisteredAs is) {c : Call ι} (hcall : s.call c = some (none, after)) :
    after.RegisteredAs (is ++ c.registered?.toList) := by
  cases c with
  | register warns i => exact h.register (Option.some.inj hcall)
  | push b =>
      cases hcall
      exact (List.append_nil is).symm ▸ h.push b
  | importTrace source =>
      obtain ⟨⟨outcome, reached⟩, himport, heq⟩ := Option.map_eq_some_iff.mp hcall
      cases congrArg Prod.snd heq
      exact (List.append_nil is).symm ▸ h.importTrace himport
  | endOfFile => exact (List.append_nil is).symm ▸ h.drain hcall

/-- **A field is owned by the first registered importer that lists it**, whatever calls were
made. -/
theorem run (h : s.RegisteredAs is) {calls : List (Call ι)}
    (hrun : s.run calls = some (none, after)) :
    after.RegisteredAs (is ++ calls.filterMap Call.registered?) := by
  induction calls generalizing s is with
  | nil =>
      cases hrun
      exact (List.append_nil is).symm ▸ h
  | cons c calls ih =>
      rw [Session.run] at hrun
      split at hrun
      · cases hrun
      · cases hrun
      · next mid hcall =>
        have hnext := ih (h.call hcall) hrun
        rw [List.append_assoc] at hnext
        cases c <;> exact hnext

end RegisteredAs

/-! ### A session with given importers -/

/-- A session with the given importers. -/
def ofImporters (is : List ι) : Session ι := is.foldl (fun s i => (s.register false i).2) initial

lemma importers_ofImporters (is : List ι) : (ofImporters is).importers = is.toArray := by
  have key : ∀ s : Session ι, (is.foldl (fun s i => (s.register false i).2) s).importers =
      s.importers ++ is.toArray := by
    induction is with
    | nil => exact fun s => by simp
    | cons i is ih =>
        intro s
        rw [List.foldl_cons, ih, register_of_claim claim_false_eq_none]
        simp
  rw [ofImporters, key]
  simp [initial]

lemma context_ofImporters (is : List ι) : (ofImporters is).context = .initial := by
  have key : ∀ s : Session ι, (is.foldl (fun s i => (s.register false i).2) s).context =
      s.context := by
    induction is with
    | nil => exact fun s => rfl
    | cons i is ih => exact fun s => (ih _).trans (context_register s false i)
  exact key initial

/-- Adding importers leads nowhere else, if it does not fail. -/
theorem eq_ofImporters_of_run
    (h : initial.run (is.map (Call.register warns)) = some (none, after)) :
    after = ofImporters is := by
  have key : ∀ s : Session ι, s.run (is.map (Call.register warns)) = some (none, after) →
      after = is.foldl (fun s i => (s.register false i).2) s := by
    clear h
    induction is with
    | nil =>
        intro s hs
        cases hs
        rfl
    | cons i is ih =>
        intro s hs
        rw [List.map_cons, run] at hs
        split at hs
        · cases hs
        · cases hs
        · next mid hcall =>
          have hreg : s.register warns i = (none, mid) := Option.some.inj hcall
          have hfalse := register_false (congrArg Prod.fst hreg)
          rw [ih mid hs, List.foldl_cons, hfalse, hreg]
  exact key initial h

end Session

end AtomTimeline
