import AtomTimeline.Proofs.Args.PlacedMessages

/-!
For which value of which message each argument of a payload is delivered.

* `Pool.OccursAt`: a message is met at an address, the places of the values that lead to it.
  Messages at different addresses may be alike.
* `DeliveredValue`: an argument, with the message at its address and the value it is delivered for.
  `Pool.exists_delivers`: of each message the values that are delivered are the first ones in it
  that are no messages, in their order and each once, and all of them if reading ends without an
  error.
* `Pool.Delivers.map_key_eq`: so the values of a repeated field that are delivered of a message have
  the positions 0, 1, 2, … there.
* `Pool.parseMessage_keys`: flat keys are full keys without positions, positions are as said, and if
  no field that is not repeated occurs twice in one message, no two arguments have the same key.
-/

namespace AtomTimeline

/-! ### Addresses -/

namespace Pool

/-- Following an address from one message leads to another: each number in it is the place of a
value among those of the message that is reached there. -/
inductive LeadsTo (pool : Pool) : PlacedMessage → List ℕ → PlacedMessage → Prop
  | here {o : PlacedMessage} : LeadsTo pool o [] o
  | inner {o place : PlacedMessage} {n : ℕ} {address : List ℕ} {key : Key} {d : FieldDescriptor}
    {content : Bytes} {m : MessageDescriptor} :
    o.entries[n]? = some (key, ⟨d, .lengthDelimited content⟩) → d.type = .message → o.level < 64 →
      pool.findMessage? d.typeName = some m → LeadsTo pool (o.inner key m content) address place →
      LeadsTo pool o (n :: address) place

/-- The message is met at the address in the payload. -/
def OccursAt (pool : Pool) (b : Bytes) (typeName : String) (address : List ℕ)
    (place : PlacedMessage) : Prop :=
  ∃ m, pool.findMessage? typeName = some m ∧ pool.LeadsTo ⟨0, .root, m, b⟩ address place

variable {pool : Pool}

lemma LeadsTo.reflTransGen {o place : PlacedMessage} {address : List ℕ}
    (h : pool.LeadsTo o address place) : Relation.ReflTransGen pool.Contains o place := by
  induction h with
  | here => exact .refl
  | inner hentry htype hlevel hm _ ih =>
      exact ih.head (.intro (List.mem_of_getElem? hentry) htype hlevel hm)

lemma exists_leadsTo_of_reflTransGen {o place : PlacedMessage}
    (h : Relation.ReflTransGen pool.Contains o place) :
    ∃ address, pool.LeadsTo o address place := by
  induction h using Relation.ReflTransGen.head_induction_on with
  | refl => exact ⟨[], .here⟩
  | head hcontains _ ih =>
      obtain ⟨address, haddress⟩ := ih
      obtain ⟨hentry, htype, hlevel, hm⟩ := hcontains
      obtain ⟨n, hn⟩ := List.mem_iff_getElem?.1 hentry
      exact ⟨n :: address, .inner hn htype hlevel hm haddress⟩

/-- A message is met if it is met at some address. -/
theorem occurs_iff_exists_occursAt {b : Bytes} {typeName : String} {place : PlacedMessage} :
    pool.Occurs b typeName place ↔ ∃ address, pool.OccursAt b typeName address place := by
  constructor
  · rintro ⟨m, hfound, hplace⟩
    obtain ⟨address, haddress⟩ := exists_leadsTo_of_reflTransGen hplace
    exact ⟨address, m, hfound, haddress⟩
  · rintro ⟨address, m, hfound, haddress⟩
    exact ⟨m, hfound, haddress.reflTransGen⟩

end Pool

/-! ### Deliveries -/

/-- An argument and what it is delivered for: a value of the message at an address. -/
structure DeliveredValue where
  address : List ℕ
  place : PlacedMessage
  element : Element
  arg : Arg

namespace DeliveredValue

/-- The value with the key it is delivered under. -/
def entry (x : DeliveredValue) : Key × Element := (x.arg.key, x.element)

/-- The delivery, its address read from the message that holds the first one as its `n`-th value. -/
def under (n : ℕ) (x : DeliveredValue) : DeliveredValue := { x with address := n :: x.address }

end DeliveredValue

/-- The values delivered of the message at an address, in their order. -/
def deliveredAt (ds : List DeliveredValue) (address : List ℕ) : List (Key × Element) :=
  (ds.filter fun x => x.address = address).map DeliveredValue.entry

section

variable {ds es : List DeliveredValue} {x : DeliveredValue} {n k : ℕ} {address : List ℕ}

lemma deliveredAt_append :
    deliveredAt (ds ++ es) address = deliveredAt ds address ++ deliveredAt es address := by
  simp [deliveredAt]

lemma deliveredAt_cons_self (h : x.address = address) :
    deliveredAt (x :: ds) address = x.entry :: deliveredAt ds address := by
  simp [deliveredAt, h]

lemma deliveredAt_cons_of_ne (h : x.address ≠ address) :
    deliveredAt (x :: ds) address = deliveredAt ds address := by
  simp [deliveredAt, h]

lemma deliveredAt_eq_nil (h : ∀ x ∈ ds, x.address ≠ address) : deliveredAt ds address = [] := by
  rw [deliveredAt, List.filter_eq_nil_iff.2 (by simpa using h), List.map_nil]

lemma deliveredAt_under_self :
    deliveredAt (ds.map (DeliveredValue.under n)) (n :: address) = deliveredAt ds address := by
  simp only [deliveredAt, List.filter_map, List.map_map, Function.comp_def, DeliveredValue.under,
    List.cons.injEq, true_and]
  rfl

lemma deliveredAt_under_nil : deliveredAt (ds.map (DeliveredValue.under n)) [] = [] := by
  refine deliveredAt_eq_nil fun x hx => ?_
  obtain ⟨y, -, rfl⟩ := List.mem_map.1 hx
  simp [DeliveredValue.under]

lemma deliveredAt_under_of_ne (h : k ≠ n) :
    deliveredAt (ds.map (DeliveredValue.under n)) (k :: address) = [] := by
  refine deliveredAt_eq_nil fun x hx => ?_
  obtain ⟨y, -, rfl⟩ := List.mem_map.1 hx
  simp [DeliveredValue.under, h.symm]

end

/-- The first list is what was read of the second one: its front, and all of it if the reading is
complete. -/
def ReadOf {α : Type} (complete : Prop) (read l : List α) : Prop :=
  read <+: l ∧ (complete → read = l)

namespace ReadOf

variable {α : Type} {complete : Prop} {read l : List α}

lemma nil_of_not (h : ¬ complete) : ReadOf complete [] l :=
  And.intro List.nil_prefix fun hcomplete => absurd hcomplete h

lemma nil : ReadOf complete ([] : List α) [] := And.intro List.nil_prefix fun _ => rfl

lemma append (h : ReadOf complete read l) (front : List α) :
    ReadOf complete (front ++ read) (front ++ l) :=
  ⟨(List.prefix_append_right_inj front).2 h.1, fun hcomplete => by rw [h.2 hcomplete]⟩

end ReadOf

namespace Pool

/-- What `ds` says is delivered for a message: every argument for a value of a message in it, under
the key the value has there, and of each message the first so many of its values that are no
messages; all of them if the reading was complete. -/
structure Delivers (pool : Pool) (o : PlacedMessage) (complete : Prop) (ds : List DeliveredValue) :
    Prop where
  origin : ∀ x ∈ ds, pool.LeadsTo o x.address x.place ∧
    pool.scalar? x.element.field x.element.value = some x.arg.value
  readOf : ∀ address place, pool.LeadsTo o address place →
    ReadOf complete (deliveredAt ds address) (ownEntries place.entries)

/-- The same of the values of a message from the `start`-th on, and of the messages among them. -/
structure DeliversFrom (pool : Pool) (o : PlacedMessage) (start : ℕ)
    (entries : List (Key × Element)) (complete : Prop) (ds : List DeliveredValue) : Prop where
  origin : ∀ x ∈ ds, pool.LeadsTo o x.address x.place ∧
    pool.scalar? x.element.field x.element.value = some x.arg.value
  le_head : ∀ x ∈ ds, ∀ n ∈ x.address.head?, start ≤ n
  readOf_own : ReadOf complete (deliveredAt ds []) (ownEntries entries)
  readOf_inner : ∀ n address place, start ≤ n → pool.LeadsTo o (n :: address) place →
    ReadOf complete (deliveredAt ds (n :: address)) (ownEntries place.entries)

variable {pool : Pool} {o : PlacedMessage} {start : ℕ} {entries : List (Key × Element)}
  {complete : Prop} {ds : List DeliveredValue}

namespace DeliversFrom

/-- Nothing is delivered where the reading ends in an error. -/
lemma refused (h : ¬ complete) : pool.DeliversFrom o start entries complete [] :=
  ⟨by simp, by simp, .nil_of_not h, fun _ _ _ _ _ => .nil_of_not h⟩

/-- Behind the last value nothing is left to deliver. -/
lemma nil (h : o.entries.length ≤ start) : pool.DeliversFrom o start [] complete [] where
  origin := by simp
  le_head := by simp
  readOf_own := .nil
  readOf_inner n address place hn hplace := by
    cases hplace with
    | inner hentry =>
        have hlt := (List.getElem?_eq_some_iff.1 hentry).1
        omega

/-- Nothing behind the `start`-th value is delivered for it. -/
lemma deliveredAt_start (h : pool.DeliversFrom o (start + 1) entries complete ds)
    {address : List ℕ} : deliveredAt ds (start :: address) = [] := by
  refine deliveredAt_eq_nil fun x hx haddress => ?_
  have hle := h.le_head x hx start (by rw [haddress]; rfl)
  omega

/-- In front of the others, the value at `start`, which is no message. -/
lemma cons_own (h : pool.DeliversFrom o (start + 1) entries complete ds) {key : Key} {e : Element}
    {value : ReadValue} (hentry : o.entries[start]? = some (key, e))
    (htype : e.field.type ≠ .message)
    (hvalue : pool.scalar? e.field e.value = some value) :
    pool.DeliversFrom o start ((key, e) :: entries) complete (⟨[], o, e, ⟨key, value⟩⟩ :: ds) where
  origin := List.forall_mem_cons.2 ⟨⟨.here, hvalue⟩, h.origin⟩
  le_head := List.forall_mem_cons.2
    ⟨by simp, fun x hx n hn => Nat.le_of_succ_le (h.le_head x hx n hn)⟩
  readOf_own := by
    rw [deliveredAt_cons_self rfl, ownEntries, List.filter_cons_of_pos (by simpa using htype)]
    exact h.readOf_own.append [(key, e)]
  readOf_inner n address place hn hplace := by
    rw [deliveredAt_cons_of_ne (by simp)]
    rcases Nat.eq_or_lt_of_le hn with rfl | hlt
    · -- the value itself holds no message
      cases hplace with
      | inner hinner hmessage =>
          rw [hentry] at hinner
          cases hinner
          exact absurd hmessage htype
    · exact h.readOf_inner n address place hlt hplace

variable {inner : PlacedMessage} {innerComplete : Prop} {innerDs : List DeliveredValue} {key : Key}
  {d : FieldDescriptor} {content : Bytes} {m : MessageDescriptor}

/-- What is delivered for the message at `start`, seen from the message that holds it. -/
lemma origin_under (hentry : o.entries[start]? = some (key, ⟨d, .lengthDelimited content⟩))
    (htype : d.type = .message) (hlevel : o.level < 64) (hm : pool.findMessage? d.typeName = some m)
    (hinner : pool.Delivers (o.inner key m content) innerComplete innerDs) :
    ∀ x ∈ innerDs.map (DeliveredValue.under start), pool.LeadsTo o x.address x.place ∧
      pool.scalar? x.element.field x.element.value = some x.arg.value := by
  intro x hx
  obtain ⟨y, hy, rfl⟩ := List.mem_map.1 hx
  obtain ⟨hplace, hvalue⟩ := hinner.origin y hy
  exact ⟨.inner hentry htype hlevel hm hplace, hvalue⟩

lemma readOf_under (hentry : o.entries[start]? = some (key, ⟨d, .lengthDelimited content⟩))
    (hm : pool.findMessage? d.typeName = some m)
    (hinner : pool.Delivers (o.inner key m content) innerComplete innerDs) {address : List ℕ}
    {place : PlacedMessage} (hplace : pool.LeadsTo o (start :: address) place) :
    ReadOf innerComplete (deliveredAt innerDs address) (ownEntries place.entries) := by
  cases hplace with
  | inner hentry' _ _ hm' hplace =>
      rw [hentry] at hentry'
      cases hentry'
      rw [hm] at hm'
      cases hm'
      exact hinner.readOf address place hplace

/-- The message at `start` is not read to its end. -/
lemma cons_message_of_not (h : ¬ complete)
    (hentry : o.entries[start]? = some (key, ⟨d, .lengthDelimited content⟩))
    (htype : d.type = .message) (hlevel : o.level < 64) (hm : pool.findMessage? d.typeName = some m)
    (hinner : pool.Delivers (o.inner key m content) complete innerDs) :
    pool.DeliversFrom o start entries complete (innerDs.map (DeliveredValue.under start)) where
  origin := origin_under hentry htype hlevel hm hinner
  le_head := by
    intro x hx n hn
    obtain ⟨y, -, rfl⟩ := List.mem_map.1 hx
    exact (Option.some.inj hn).le
  readOf_own := by
    rw [deliveredAt_under_nil]
    exact .nil_of_not h
  readOf_inner n address place hn hplace := by
    rcases eq_or_ne n start with rfl | hne
    · rw [deliveredAt_under_self]
      exact readOf_under hentry hm hinner hplace
    · rw [deliveredAt_under_of_ne hne]
      exact .nil_of_not h

/-- In front of the others, the message at `start`, which was read to its end. -/
lemma cons_message (h : pool.DeliversFrom o (start + 1) entries complete ds)
    (hentry : o.entries[start]? = some (key, ⟨d, .lengthDelimited content⟩))
    (htype : d.type = .message) (hlevel : o.level < 64) (hm : pool.findMessage? d.typeName = some m)
    (hinner : pool.Delivers (o.inner key m content) True innerDs) :
    pool.DeliversFrom o start ((key, ⟨d, .lengthDelimited content⟩) :: entries) complete
      (innerDs.map (DeliveredValue.under start) ++ ds) where
  origin x hx := by
    rcases List.mem_append.1 hx with hx | hx
    · exact origin_under hentry htype hlevel hm hinner x hx
    · exact h.origin x hx
  le_head x hx n hn := by
    rcases List.mem_append.1 hx with hx | hx
    · obtain ⟨y, -, rfl⟩ := List.mem_map.1 hx
      exact (Option.some.inj hn).le
    · exact Nat.le_of_succ_le (h.le_head x hx n hn)
  readOf_own := by
    rw [deliveredAt_append, deliveredAt_under_nil, List.nil_append, ownEntries,
      List.filter_cons_of_neg (by simpa using htype)]
    exact h.readOf_own
  readOf_inner n address place hn hplace := by
    rw [deliveredAt_append]
    rcases Nat.eq_or_lt_of_le hn with rfl | hlt
    · have hread := readOf_under hentry hm hinner hplace
      rw [deliveredAt_under_self, h.deliveredAt_start, List.append_nil, hread.2 trivial]
      exact ⟨List.prefix_rfl, fun _ => rfl⟩
    · rw [deliveredAt_under_of_ne hlt.ne', List.nil_append]
      exact h.readOf_inner n address place hlt hplace

end DeliversFrom

/-- A message among the values of another is refused, or read as a message that lies in that. -/
def ReadsInner (pool : Pool) (o : PlacedMessage) (nested : NestedReader) : Prop :=
  ∀ key d content, (key, (⟨d, .lengthDelimited content⟩ : Element)) ∈ o.entries →
    d.type = .message →
    (∃ fault, nested content d.typeName key = .ofError fault) ∨
      o.level < 64 ∧ ∃ m, pool.findMessage? d.typeName = some m ∧
        ∃ ds, ds.map DeliveredValue.arg = (nested content d.typeName key).args ∧
          pool.Delivers (o.inner key m content) ((nested content d.typeName key).error = none) ds

lemma scalar?_of_message {d : FieldDescriptor} (h : d.type = .message) (v : FieldValue) :
    pool.scalar? d v = none := by
  simp only [scalar?, h]

/-- **Of the values of a message**, those from the `start`-th on are delivered in their order up to
one that ends the reading. The induction is along these values. -/
lemma exists_deliversFrom {nested : NestedReader} (hnested : pool.ReadsInner o nested)
    (fault : Option ArgsError) (hentries : o.entries.drop start = entries) :
    ∃ ds, ds.map DeliveredValue.arg = (pool.parseElements nested fault entries).args ∧
      pool.DeliversFrom o start entries ((pool.parseElements nested fault entries).error = none)
        ds := by
  induction entries generalizing start with
  | nil => exact ⟨[], rfl, .nil (List.drop_eq_nil_iff.1 hentries)⟩
  | cons entry entries ih =>
      obtain ⟨key, e⟩ := entry
      have hentry : o.entries[start]? = some (key, e) := by
        rw [← List.head?_drop, hentries, List.head?_cons]
      have hrest : o.entries.drop (start + 1) = entries := by
        rw [← List.tail_drop, hentries, List.tail_cons]
      obtain ⟨ds, hargs, hds⟩ := ih hrest
      rw [parseElements, ArgsResult.andThen]
      rcases pool.parseElement_cases nested key e with
        ⟨refusal, hrefused⟩ | ⟨value, hvalue, hone⟩ | ⟨content, htype, hcontent, hinner⟩
      · rw [hrefused]
        exact ⟨[], rfl, .refused (by simp [ArgsResult.ofError])⟩
      · have htype : e.field.type ≠ .message := by
          intro hmessage
          rw [scalar?_of_message hmessage] at hvalue
          cases hvalue
        rw [hone]
        refine ⟨⟨[], o, e, ⟨key, value⟩⟩ :: ds, ?_, hds.cons_own hentry htype hvalue⟩
        rw [List.map_cons, hargs]
        rfl
      · obtain ⟨d, v⟩ := e
        obtain rfl : v = .lengthDelimited content := hcontent
        rw [hinner]
        rcases hnested key d content (List.mem_of_getElem? hentry) htype with
          ⟨refusal, hrefused⟩ | ⟨hlevel, m, hm, innerDs, hinnerArgs, hinnerDs⟩
        · simp only [hrefused]
          exact ⟨[], rfl, .refused (by simp [ArgsResult.ofError])⟩
        · cases herror : (nested content d.typeName key).error with
          | some refusal =>
              refine ⟨innerDs.map (DeliveredValue.under start), ?_, ?_⟩
              · rw [List.map_map, ← hinnerArgs]
                rfl
              · rw [herror] at hinnerDs
                simp only [herror]
                exact .cons_message_of_not (by simp) hentry htype hlevel hm hinnerDs
          | none =>
              refine ⟨innerDs.map (DeliveredValue.under start) ++ ds, ?_, ?_⟩
              · rw [List.map_append, List.map_map, hargs, ← hinnerArgs]
                rfl
              · simp only [herror] at hinnerDs
                exact hds.cons_message hentry htype hlevel hm hinnerDs

/-- So it is of a message whose inner messages are read so. -/
lemma exists_delivers_of_readsInner {levels : ℕ}
    (hnested : pool.ReadsInner o (pool.parseMessageAt levels)) {typeName : String}
    (hfound : pool.findMessage? typeName = some o.message) :
    ∃ ds, ds.map DeliveredValue.arg =
        (pool.parseMessageAt (levels + 1) o.content typeName o.key).args ∧
      pool.Delivers o
        ((pool.parseMessageAt (levels + 1) o.content typeName o.key).error = none) ds := by
  rw [parseMessageAt, hfound]
  obtain ⟨ds, hargs, hds⟩ := exists_deliversFrom hnested
    ((o.message.elements o.fields).2.or
      (if (scan o.content).malformed then some (.malformed typeName) else none)) List.drop_zero
  refine ⟨ds, hargs, hds.origin, fun address place hplace => ?_⟩
  cases address with
  | nil =>
      cases hplace
      exact hds.readOf_own
  | cons n address => exact hds.readOf_inner n address place (Nat.zero_le n) hplace

/-- **Of each message in a payload** the values that are delivered are the first ones in it that are
no messages, in their order and each once. The induction is on the levels left. -/
theorem exists_delivers {levels : ℕ} (hlevels : o.level + levels = 64) {typeName : String}
    (hfound : pool.findMessage? typeName = some o.message) :
    ∃ ds, ds.map DeliveredValue.arg =
        (pool.parseMessageAt (levels + 1) o.content typeName o.key).args ∧
      pool.Delivers o
        ((pool.parseMessageAt (levels + 1) o.content typeName o.key).error = none) ds := by
  induction levels generalizing o typeName with
  | zero =>
      have hnested : pool.ReadsInner o (pool.parseMessageAt 0) :=
        fun _ _ _ _ _ => .inl ⟨_, rfl⟩
      exact exists_delivers_of_readsInner hnested hfound
  | succ levels ih =>
      refine exists_delivers_of_readsInner (fun key d content _ _ => ?_) hfound
      cases hm : pool.findMessage? d.typeName with
      | none => exact .inl ⟨_, by rw [parseMessageAt, hm]⟩
      | some m =>
          have hinner : (o.inner key m content).level + levels = 64 := by
            simp only [PlacedMessage.inner]
            omega
          exact .inr ⟨by omega, m, rfl, ih hinner hm⟩

/-! ### Positions -/

lemma parseMessage_of_unknown {typeName : String} (h : pool.findMessage? typeName = none)
    {b : Bytes} : pool.parseMessage b typeName = .ofError (.unknownMessage typeName) := by
  rw [parseMessage, maxNesting, parseMessageAt, h]

/-- **The delivered values of a repeated field** of a message have the positions 0, 1, 2, … in
it. -/
theorem Delivers.map_key_eq (h : pool.Delivers o complete ds) {address : List ℕ}
    {place : PlacedMessage} (hplace : pool.LeadsTo o address place) {id : UInt32}
    {d : FieldDescriptor} (hfield : place.message.field? id = some d)
    (hrepeated : d.repeated = true) :
    ((deliveredAt ds address).filter fun e => e.2.field = d).map Prod.fst =
      (List.range ((deliveredAt ds address).countP fun e => e.2.field = d)).map
        (place.key.child d.name).atPosition := by
  have hread := (h.readOf address place hplace).1
  by_cases htype : d.type = .message
  · -- a message is no value that is delivered
    have hnone : ∀ e ∈ deliveredAt ds address, ¬ e.2.field = d := by
      rintro e he rfl
      have hown : e ∈ ownEntries place.entries := hread.subset he
      simp [ownEntries, htype] at hown
    rw [List.filter_eq_nil_iff.2 (by simpa using hnone),
      List.countP_eq_zero.2 (by simpa using hnone)]
    rfl
  · have hall : (ownEntries place.entries).filter (fun e => e.2.field = d) =
        place.entries.filter fun e => e.2.field = d := by
      rw [ownEntries, List.filter_filter]
      refine List.filter_congr fun e _ => ?_
      by_cases he : e.2.field = d
      · simp [he, htype]
      · simp [he]
    have hfront := (hread.filter fun e => e.2.field = d).map Prod.fst
    rw [hall, place.map_key_entries hfield hrepeated, List.prefix_iff_eq_take, ← List.map_take,
      List.take_range, List.length_map] at hfront
    rw [hfront, List.countP_eq_length_filter]
    congr 2
    have hle := (hread.filter fun e => e.2.field = d).length_le
    rw [hall] at hle
    rw [List.countP_eq_length_filter]
    omega

/-- **What keys say.** If all field names are identifiers and differ within each message, then
whatever the payload, and however reading ends:

* the flat key of an argument is its full key with every position removed;
* every argument is delivered for a value of the message at some address, under the key the value
  has there; of each message the values that are delivered are the first ones in it that are no
  messages, in their order and each once, and all of them if reading ends without an error; and
  among them the values of a repeated field have the positions 0, 1, 2, … of that field in that
  message;
* in front of an argument are those of the values in front of it in its message, if they are no
  messages;
* in each message that is met the values are given their keys in the order of the bytes, those of a
  repeated field the positions 0, 1, 2, … of that field in that message, also if they are messages;
* if no field that is not repeated occurs twice in one message, all full keys are different. -/
theorem parseMessage_keys (hpool : pool.WellNamed) (b : Bytes) (typeName : String) :
    (∀ arg ∈ (pool.parseMessage b typeName).args,
      PositionsRemoved arg.key.full.toList arg.key.flat.toList) ∧
    (∃ ds, ds.map DeliveredValue.arg = (pool.parseMessage b typeName).args ∧
      (∀ x ∈ ds, pool.OccursAt b typeName x.address x.place ∧
        pool.scalar? x.element.field x.element.value = some x.arg.value) ∧
      ∀ address place, pool.OccursAt b typeName address place →
        deliveredAt ds address <+: ownEntries place.entries ∧
        ((pool.parseMessage b typeName).error = none →
          deliveredAt ds address = ownEntries place.entries) ∧
        ∀ id d, place.message.field? id = some d → d.repeated = true →
          ((deliveredAt ds address).filter fun e => e.2.field = d).map Prod.fst =
            (List.range ((deliveredAt ds address).countP fun e => e.2.field = d)).map
              (place.key.child d.name).atPosition) ∧
    (∀ front arg back, (pool.parseMessage b typeName).args = front ++ arg :: back →
      ∃ address place, pool.OccursAt b typeName address place ∧
        ∃ before e after, place.entries = before ++ (arg.key, e) :: after ∧
          pool.scalar? e.field e.value = some arg.value ∧
            (ownKeys before).Sublist (front.map Arg.key)) ∧
    (∀ address place, pool.OccursAt b typeName address place →
      place.entries.map Prod.snd <+: place.values ∧
      ∀ id d, place.message.field? id = some d → d.repeated = true →
        (place.entries.filter fun e => e.2.field = d).map Prod.fst =
          (List.range (place.entries.countP fun e => e.2.field = d)).map
            (place.key.child d.name).atPosition) ∧
    ((∀ address place, pool.OccursAt b typeName address place → place.OnceEach) →
      ((pool.parseMessage b typeName).args.map (·.key.full)).Nodup) := by
  refine ⟨?_, ?_, ?_, ?_, ?_⟩
  · intro arg harg
    obtain ⟨way, hway, hkey⟩ := hpool.readsOnward 65 b typeName [] .nil arg harg
    rw [hkey, List.nil_append]
    exact Key.positionsRemoved_ofPath hway
  · cases hfound : pool.findMessage? typeName with
    | none =>
        refine ⟨[], ?_, by simp, ?_⟩
        · rw [parseMessage_of_unknown hfound]
          rfl
        · rintro address place ⟨m, hm, -⟩
          rw [hfound] at hm
          cases hm
    | some m =>
        obtain ⟨ds, hargs, hds⟩ :=
          exists_delivers (o := ⟨0, .root, m, b⟩) (Nat.zero_add 64) hfound
        refine ⟨ds, hargs, fun x hx => ?_, ?_⟩
        · obtain ⟨hplace, hvalue⟩ := hds.origin x hx
          exact ⟨⟨m, hfound, hplace⟩, hvalue⟩
        · rintro address place ⟨m', hm, hplace⟩
          cases hfound.symm.trans hm
          exact ⟨(hds.readOf address place hplace).1, (hds.readOf address place hplace).2,
            fun _ _ => hds.map_key_eq hplace⟩
  · intro front arg back hargs
    obtain ⟨place, hplace, hvalue⟩ := pool.exists_occurs_of_args_eq hargs
    obtain ⟨address, haddress⟩ := occurs_iff_exists_occursAt.1 hplace
    exact ⟨address, place, haddress, hvalue⟩
  · intro address place _
    exact ⟨place.prefix_elements, fun _ _ => place.map_key_entries⟩
  · intro honce
    cases hfound : pool.findMessage? typeName with
    | none => simp [parseMessage_of_unknown hfound, ArgsResult.ofError]
    | some m =>
        refine hpool.nodup_keys (o := ⟨0, .root, m, b⟩) (Nat.zero_add 64) hfound .nil rfl
          fun place hplace => ?_
        obtain ⟨address, haddress⟩ := exists_leadsTo_of_reflTransGen hplace
        exact honce address place ⟨m, hfound, haddress⟩

end Pool

/-! ### The messages of a chain -/

namespace Chain

lemma wellNamed_pool : pool.WellNamed := by
  have hplain : ∀ d ∈ type.fields, Identifier d.name := by decide
  have hnodup : (type.fields.map FieldDescriptor.name).Nodup := by decide
  constructor
  · intro m hm
    rw [pool_eq, List.mem_singleton] at hm
    exact hm ▸ hplain
  · intro m hm
    rw [pool_eq, List.mem_singleton] at hm
    exact hm ▸ hnodup

/-- The message within `value`. -/
def inner : MessageValue := .scalar weight (.sint32 5) .empty

/-- The places of `value` and of the message within it. -/
def outerPlace : PlacedMessage := ⟨0, .root, type, value.encode⟩

def innerPlace : PlacedMessage := outerPlace.inner ⟨"next", "next"⟩ type inner.encode

lemma inOrder_type : type.InOrder :=
  built_pool.inOrder type (by rw [pool_eq]; exact List.mem_cons_self)

lemma conforms_inner : inner.Conforms pool type 64 := .scalar List.mem_cons_self rfl .empty

lemma fields_outerPlace : outerPlace.fields = value.fields := by
  rw [PlacedMessage.fields, outerPlace,
    conforms_value.scan_encode inOrder_type length_encode_value]

lemma fields_innerPlace : innerPlace.fields = inner.fields := by
  have hlen : inner.encode.length < 2 ^ 64 := by
    simp [inner, MessageValue.encode, MessageValue.fields, writeFields, Field.write,
      FieldValue.write, Varint.write, Varint.groups, writeTag, FieldValue.wireType, WireType.code,
      ScalarValue.wire, weight, Zigzag.ofInt]
  rw [PlacedMessage.fields, innerPlace, PlacedMessage.inner,
    conforms_inner.scan_encode inOrder_type hlen]

lemma entries_outerPlace :
    outerPlace.entries =
      [(⟨"weight", "weight[0]"⟩, ⟨weight, (ScalarValue.sint32 (-3)).wire⟩),
        (⟨"next", "next"⟩, ⟨next, .lengthDelimited inner.encode⟩),
        (⟨"weight", "weight[1]"⟩, ⟨weight, (ScalarValue.sint32 7).wire⟩)] := by
  have helements : type.elements value.fields = (value.elements, none) :=
    conforms_value.elements_eq inOrder_type
  rw [PlacedMessage.entries, fields_outerPlace, outerPlace, helements]
  rfl

lemma entries_innerPlace :
    innerPlace.entries =
      [(⟨"next.weight", "next.weight[0]"⟩, ⟨weight, (ScalarValue.sint32 5).wire⟩)] := by
  have helements : type.elements inner.fields = (inner.elements, none) :=
    conforms_inner.elements_eq inOrder_type
  rw [PlacedMessage.entries, fields_innerPlace, innerPlace, PlacedMessage.inner, outerPlace,
    helements]
  rfl

/-- No other messages lie in `value`. -/
lemma places_of_value {place : PlacedMessage} (h : pool.Occurs value.encode ".Chain" place) :
    place = outerPlace ∨ place = innerPlace := by
  obtain ⟨m, hm, hplace⟩ := h
  have hfound : pool.findMessage? ".Chain" = some type := by rfl
  cases hfound.symm.trans hm
  induction hplace with
  | refl => exact .inl rfl
  | @tail a b _ hcontains ih =>
      obtain ⟨hentry, htype, -, hm⟩ := hcontains
      rcases ih with rfl | rfl
      · simp only [entries_outerPlace, List.mem_cons, Prod.mk.injEq, Element.mk.injEq,
          List.not_mem_nil, or_false] at hentry
        rcases hentry with ⟨-, rfl, -⟩ | ⟨rfl, rfl, hcontent⟩ | ⟨-, rfl, -⟩
        · cases htype
        · cases hcontent
          cases hfound.symm.trans hm
          exact .inr rfl
        · cases htype
      · simp only [entries_innerPlace, List.mem_singleton, Prod.mk.injEq, Element.mk.injEq]
          at hentry
        obtain ⟨-, rfl, -⟩ := hentry
        cases htype

lemma onceEach_of_value {place : PlacedMessage} (h : pool.Occurs value.encode ".Chain" place) :
    place.OnceEach := by
  have honce : ∀ (v : MessageValue) (id : UInt32) (d : FieldDescriptor), type.field? id = some d →
      d.repeated = false → v.fields.countP (·.id = 2) ≤ 1 → v.fields.countP (·.id = id) ≤ 1 := by
    intro v id d hfield hsingle hle
    have hmem : d ∈ type.fields := List.mem_of_find?_eq_some hfield
    have hid := MessageDescriptor.number_of_field? hfield
    simp only [type, List.mem_cons, List.not_mem_nil, or_false] at hmem
    rcases hmem with rfl | rfl
    · cases hsingle
    · exact hid ▸ hle
  intro id d hfield hsingle
  rcases places_of_value h with rfl | rfl
  · rw [fields_outerPlace]
    exact honce value id d hfield hsingle (by decide)
  · rw [fields_innerPlace]
    exact honce inner id d hfield hsingle (by decide)

lemma onceEach_of_address {address : List ℕ} {place : PlacedMessage}
    (h : pool.OccursAt value.encode ".Chain" address place) : place.OnceEach :=
  onceEach_of_value (Pool.occurs_iff_exists_occursAt.2 ⟨address, h⟩)

/-- The three keys of `value` are different. -/
theorem nodup_keys_value :
    pool.WellNamed ∧
      (∀ address place, pool.OccursAt value.encode ".Chain" address place → place.OnceEach) ∧
      ((pool.parseMessage value.encode ".Chain").args.map (·.key.full)).Nodup :=
  ⟨wellNamed_pool, fun _ _ => onceEach_of_address,
    (Pool.parseMessage_keys wellNamed_pool value.encode ".Chain").2.2.2.2 fun _ _ =>
      onceEach_of_address⟩

end Chain

end AtomTimeline
