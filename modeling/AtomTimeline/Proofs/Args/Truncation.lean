import AtomTimeline.Args.Untyped
import AtomTimeline.Proofs.Args.Edits
import AtomTimeline.Proofs.Wire.Iteration

/-!
Payloads that are cut off, and what is still delivered of them.

* `Pool.exists_walk_append`: on a walk of the front of a payload the same is met as on a walk of the
  whole, up to the cut; there it ends, with one fault at most.
* `Pool.parseMessage_append`: so reading the front delivers the first of the arguments that reading
  the whole delivers.
* `delivered_of_truncated`: neither fields nor arguments of a known or an unknown type become other
  ones by a cut.
-/

namespace AtomTimeline

namespace Pool

variable (pool : Pool)

/-- **On the front of a payload** the walk meets what it meets on the whole, up to the cut. A field
that is cut is a fault of the outermost message, since a nested message is in the front as a whole
or not at all. -/
theorem exists_walk_append (levels : ℕ) (front rest : Bytes) (typeName : String) (under : Key) :
    ∃ met atCut behind, pool.walk levels front typeName under = met ++ atCut ∧
      pool.walk levels (front ++ rest) typeName under = met ++ behind ∧
      (atCut = [] ∨ atCut = [.error (.malformed typeName)]) := by
  cases levels with
  | zero => exact ⟨_, [], [], (List.append_nil _).symm, (List.append_nil _).symm, .inl rfl⟩
  | succ levels =>
      rw [walk, walk]
      cases pool.findMessage? typeName with
      | none => exact ⟨_, [], [], (List.append_nil _).symm, (List.append_nil _).symm, .inl rfl⟩
      | some m =>
          obtain ⟨others, hothers⟩ := prefix_fields_scan front rest
          simp only [← hothers, walkFields_append, List.append_assoc]
          refine ⟨_, _, _, rfl, rfl, ?_⟩
          split
          · exact .inr rfl
          · exact .inl rfl

/-- **Reading the front of a payload** delivers the first of the arguments of the whole. It ends as
reading the whole does, or at the cut: without error, or with the message broken off there. -/
theorem parseMessage_append (front rest : Bytes) (typeName : String) :
    (pool.parseMessage front typeName).args <+:
        (pool.parseMessage (front ++ rest) typeName).args ∧
      (pool.parseMessage front typeName = pool.parseMessage (front ++ rest) typeName ∨
        (pool.parseMessage front typeName).error = none ∨
        (pool.parseMessage front typeName).error = some (.malformed typeName)) := by
  obtain ⟨met, atCut, behind, hfront, hwhole, hcut⟩ :=
    pool.exists_walk_append (maxNesting + 1) front rest typeName .root
  rw [parseMessage, parseMessage, parseMessageAt_eq_walk, parseMessageAt_eq_walk, hfront, hwhole,
    ArgsResult.ofFindings_append, ArgsResult.ofFindings_append]
  cases hstop : (ArgsResult.ofFindings met).error with
  | some e =>
      -- reading stops in front of the cut
      simp only [ArgsResult.andThen, hstop, true_or, and_true]
      exact List.prefix_refl _
  | none =>
      simp only [ArgsResult.andThen, hstop]
      have hargs : (ArgsResult.ofFindings atCut).args = [] := by rcases hcut with rfl | rfl <;> rfl
      rw [hargs, List.append_nil]
      refine ⟨List.prefix_append _ _, .inr ?_⟩
      rcases hcut with rfl | rfl
      · exact .inl rfl
      · exact .inr rfl

end Pool

/-- Of the front of a payload whose type is not known, the first of its arguments are made. -/
lemma prefix_untypedArgs (front rest : Bytes) :
    untypedArgs front <+: untypedArgs (front ++ rest) :=
  (prefix_fields_scan front rest).map untypedArg

/-- **A cut makes no field and no argument another.** Of the first `n` bytes of a message a reader
hands out the first of the fields that it hands out of the whole, and of these bytes as a payload
the first of the arguments are delivered, be the type known or not. With a known type reading ends
as it would have ended on the whole payload, or at the cut: without error, or with the message
broken off there. What stands behind bytes of which a reader comes to a clean end is read as on its
own: its fields follow theirs, and the end is clean just if its own is. -/
theorem delivered_of_truncated :
    (∀ (b : Bytes) n, ∃ fs gs last last', Yields Reader.next (.ofBytes (b.take n)) fs last ∧
      Yields Reader.next (.ofBytes b) gs last' ∧ fs <+: gs) ∧
    (∀ (pool : Pool) typeName (b : Bytes) n,
      (pool.parseMessage (b.take n) typeName).args <+: (pool.parseMessage b typeName).args ∧
        (pool.parseMessage (b.take n) typeName = pool.parseMessage b typeName ∨
          (pool.parseMessage (b.take n) typeName).error = none ∨
          (pool.parseMessage (b.take n) typeName).error = some (.malformed typeName))) ∧
    (∀ (b : Bytes) n, untypedArgs (b.take n) <+: untypedArgs b) ∧
    ∀ (a c : Bytes) fs last, Yields Reader.next (.ofBytes a) fs last → last.malformed = false →
      ∃ gs last' last'', Yields Reader.next (.ofBytes c) gs last' ∧
        Yields Reader.next (.ofBytes (a ++ c)) (fs ++ gs) last'' ∧
        last''.malformed = last'.malformed := by
  refine ⟨fun b n => ?_, fun pool typeName b n => ?_, fun b n => ?_,
    fun a c fs last ha hclean => ?_⟩
  · have hprefix := prefix_fields_scan (b.take n) (b.drop n)
    rw [List.take_append_drop] at hprefix
    exact ⟨_, _, _, _, Reader.yields_scan _, Reader.yields_scan _, hprefix⟩
  · have hread := pool.parseMessage_append (b.take n) (b.drop n) typeName
    rwa [List.take_append_drop] at hread
  · have hprefix := prefix_untypedArgs (b.take n) (b.drop n)
    rwa [List.take_append_drop] at hprefix
  · have hscan := (Reader.spelled_of_yields ha hclean).scan_append c
    have hyields := Reader.yields_scan (a ++ c)
    rw [hscan] at hyields
    exact ⟨_, _, _, Reader.yields_scan c, hyields, rfl⟩

/-- A message of one field, in front of one that breaks off behind its first field. -/
theorem delivered_of_broken_behind_clean :
    (∃ last, Yields Reader.next (.ofBytes [8, 5]) [⟨1, .varint 5⟩] last ∧ last.malformed = false) ∧
    ∃ gs last' last'', Yields Reader.next (.ofBytes [16, 7, 26, 9]) gs last' ∧
      Yields Reader.next (.ofBytes [8, 5, 16, 7, 26, 9]) (⟨1, .varint 5⟩ :: gs) last'' ∧
      last''.malformed = last'.malformed := by
  have hscan : scan [8, 5] = ⟨[⟨1, .varint 5⟩], none⟩ := by decide +kernel
  obtain ⟨last, hyields, hclean⟩ := Reader.exists_yields_of_spelled (scan_eq_clean_iff.mp hscan)
  exact ⟨⟨last, hyields, hclean⟩,
    delivered_of_truncated.2.2.2 [8, 5] [16, 7, 26, 9] _ last hyields hclean⟩

end AtomTimeline
