import AtomTimeline.Proofs.Args.FieldByField

/-!
Arguments handed over one by one while a payload is read, to whatever takes them.

* A delegate is given by what it makes of its state and one more argument. `Pool.deliverMessage`
  reads a payload field by field and hands each argument over as soon as it is read; `Delivery` is
  the state that this leaves and the error that ended it.
* `ArgsResult.deliver` hands over arguments that were gathered first.
* `Pool.deliverMessage_eq`: that is the same, for every delegate and also where an error ends the
  reading. So all delegates are given the same arguments.
* `AtomSchema.heard_eq`: what is written down by a delegate that does nothing else.
-/

namespace AtomTimeline

variable {σ : Type}

/-- What delivering arguments leaves, and the error that ended it. -/
structure Delivery (σ : Type) where
  state : σ
  error : Option ArgsError

/-- What follows a delivery, unless that ended in an error. -/
def Delivery.andThen (first : Delivery σ) (second : σ → Delivery σ) : Delivery σ :=
  match first.error with
  | some _ => first
  | none => second first.state

/-- Arguments that were gathered, handed over one by one. -/
def ArgsResult.deliver (r : ArgsResult) (take : σ → Arg → σ) (s : σ) : Delivery σ :=
  ⟨r.args.foldl take s, r.error⟩

/-- How a message within another is delivered: its bytes, its type, its key and the state so far. -/
abbrev NestedDelivery (σ : Type) := Bytes → String → Key → σ → Delivery σ

namespace Pool

variable (pool : Pool) (take : σ → Arg → σ)

/-- Delivers one element: the message in it, or its value. -/
def deliverElement (nested : NestedDelivery σ) (key : Key) (e : Element) (s : σ) : Delivery σ :=
  let mismatch : Delivery σ := ⟨s, some (.wireTypeMismatch e.field.name e.value.wireType)⟩
  match e.field.type with
  | .message =>
    match e.value with
    | .lengthDelimited b => nested b e.field.typeName key s
    | _ => mismatch
  | _ =>
    match pool.scalar? e.field e.value with
    | some v => ⟨take s ⟨key, v⟩, none⟩
    | none => mismatch

/-- Delivers elements in order, up to the first that does not hold what it is declared to hold. -/
def deliverElements (nested : NestedDelivery σ) : List (Key × Element) → σ → Delivery σ
  | [], s => ⟨s, none⟩
  | (key, e) :: es, s =>
    (pool.deliverElement take nested key e s).andThen (deliverElements nested es)

/-- Delivers the fields of a message in order, `met` being what was met of each field, and after
them the error that the message does not end where its fields do. -/
def deliverFields (nested : NestedDelivery σ) (m : MessageDescriptor) (typeName : String)
    (under : Key) (malformed : Bool) : (met : Positions) → List Field → σ → Delivery σ
  | _, [], s => ⟨s, if malformed then some (.malformed typeName) else none⟩
  | met, f :: fs, s =>
    match m.elementsOf f with
    | .error e => ⟨s, some e⟩
    | .ok es =>
      (pool.deliverElements take nested (number under met es) s).andThen
        (deliverFields nested m typeName under malformed
          (es.foldl (fun met e => met.bump e.field.number) met) fs)

/-- Delivers a message with `levels` levels of messages left to it. -/
def deliverMessageAt : (levels : ℕ) → NestedDelivery σ
  | 0, _, _, under, s => ⟨s, some (.tooDeep under.full)⟩
  | levels + 1, b, typeName, under, s =>
    match pool.findMessage? typeName with
    | none => ⟨s, some (.unknownMessage typeName)⟩
    | some m =>
      pool.deliverFields take (deliverMessageAt levels) m typeName under (scan b).malformed []
        (scan b).fields s

/-- Delivers a message of the named type. -/
def deliverMessage (b : Bytes) (typeName : String) (s : σ) : Delivery σ :=
  pool.deliverMessageAt take (maxNesting + 1) b typeName .root s

end Pool

/-- Delivers an atom payload. -/
def AtomSchema.deliverAtom (schema : AtomSchema) (take : σ → Arg → σ) (payload : Bytes) (s : σ) :
    Delivery σ :=
  schema.pool.deliverMessage take payload schema.atomMessageName s

/-! ### Gathering first makes no difference -/

/-- Arguments that are gathered in two parts are handed over in two parts. -/
lemma ArgsResult.deliver_andThen (first : ArgsResult) (second : Unit → ArgsResult)
    (take : σ → Arg → σ) (s : σ) :
    (first.andThen second).deliver take s =
      (first.deliver take s).andThen fun s => (second ()).deliver take s := by
  obtain ⟨args, error⟩ := first
  cases error with
  | some e => rfl
  | none => simp [ArgsResult.andThen, deliver, Delivery.andThen]

namespace Pool

variable (pool : Pool) {take : σ → Arg → σ} {reader : NestedReader} {nested : NestedDelivery σ}

section

variable (h : ∀ b typeName key s,
  nested b typeName key s = (reader b typeName key).deliver take s)
include h

lemma deliverElement_eq (key : Key) (e : Element) (s : σ) :
    pool.deliverElement take nested key e s = (pool.parseElement reader key e).deliver take s := by
  obtain ⟨d, v⟩ := e
  cases htype : d.type with
  | message =>
      simp only [deliverElement, parseElement, htype]
      cases v with
      | lengthDelimited b => exact h b d.typeName key s
      | _ => rfl
  | _ =>
      simp only [deliverElement, parseElement, htype]
      cases pool.scalar? d v <;> rfl

lemma deliverElements_eq (es : List (Key × Element)) (s : σ) :
    pool.deliverElements take nested es s =
      (pool.parseElements reader none es).deliver take s := by
  induction es generalizing s with
  | nil => rfl
  | cons entry es ih =>
      obtain ⟨key, e⟩ := entry
      rw [deliverElements, parseElements, ArgsResult.deliver_andThen, pool.deliverElement_eq h]
      exact congrArg _ (funext ih)

/-- The fields of a message one by one are its elements, and after them what ended the elements. -/
lemma deliverFields_eq (m : MessageDescriptor) (typeName : String) (under : Key)
    (malformed : Bool) (met : Positions) (fs : List Field) (s : σ) :
    pool.deliverFields take nested m typeName under malformed met fs s =
      (pool.parseElements reader
        ((m.elements fs).2.or (if malformed then some (.malformed typeName) else none))
        (number under met (m.elements fs).1)).deliver take s := by
  induction fs generalizing met s with
  | nil => rfl
  | cons f fs ih =>
      rw [deliverFields, MessageDescriptor.elements]
      cases m.elementsOf f with
      | error e => rfl
      | ok es =>
          simp only [number_append, parseElements_append, ArgsResult.deliver_andThen]
          rw [pool.deliverElements_eq h]
          exact congrArg _ (funext fun s => ih _ s)

end

lemma deliverMessageAt_eq (take : σ → Arg → σ) (levels : ℕ) (b : Bytes) (typeName : String)
    (under : Key) (s : σ) :
    pool.deliverMessageAt take levels b typeName under s =
      (pool.parseMessageAt levels b typeName under).deliver take s := by
  induction levels generalizing b typeName under s with
  | zero => rfl
  | succ levels ih =>
      rw [deliverMessageAt, parseMessageAt]
      cases pool.findMessage? typeName with
      | none => rfl
      | some m => exact pool.deliverFields_eq ih m typeName under _ [] _ s

/-- **Every delegate is given the arguments that reading gathers**, in order, up to the error that
ends the reading, if one does. -/
theorem deliverMessage_eq (take : σ → Arg → σ) (b : Bytes) (typeName : String) (s : σ) :
    pool.deliverMessage take b typeName s = (pool.parseMessage b typeName).deliver take s :=
  pool.deliverMessageAt_eq take _ b typeName .root s

end Pool

namespace AtomSchema

variable (schema : AtomSchema)

lemma deliverAtom_eq (take : σ → Arg → σ) (payload : Bytes) (s : σ) :
    schema.deliverAtom take payload s = (schema.parseAtom payload).deliver take s :=
  schema.pool.deliverMessage_eq take payload schema.atomMessageName s

/-- A delegate that writes down what it is given has written the arguments of the atom in the end.
-/
lemma heard_eq (payload : Bytes) :
    schema.deliverAtom (fun heard arg => heard ++ [arg]) payload [] =
      ⟨(schema.parseAtom payload).args, (schema.parseAtom payload).error⟩ := by
  have hwritten : ∀ args heard : List Arg,
      args.foldl (fun heard arg => heard ++ [arg]) heard = heard ++ args := by
    intro args
    induction args with
    | nil => exact fun heard => (List.append_nil heard).symm
    | cons arg args ih =>
        intro heard
        rw [List.foldl_cons, ih, List.append_assoc, List.singleton_append]
  rw [deliverAtom_eq, ArgsResult.deliver, hwritten, List.nil_append]

end AtomSchema

end AtomTimeline
