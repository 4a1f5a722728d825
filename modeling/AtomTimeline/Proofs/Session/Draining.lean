import AtomTimeline.Proofs.Session.Run

/-!
Draining the queue of a session: packets are taken out one after the other and handed back.

* `Session.drain_induction` is the induction along a drain that comes to an end. It ends with
  nothing waiting (`Session.sorter_of_drain`) or with a check that fails.
* `Session.HandsBack` hands back some packets, no check failing. `Session.exists_handsBack` and
  `Session.exists_drain_of_parse` are for importers that leave the queue alone meanwhile: what
  handing back one packet preserves holds in the end, and there is an end.
* `Session.drain_map`: a map of sessions that commutes with handing back one packet commutes with
  draining, whether this comes to an end or not.
-/

namespace AtomTimeline

/-- An importer may put packets into the queue; it takes none out. -/
structure Importer.OnlyQueues (ι : Type) [Importer ι] : Prop where
  tokenize : ∀ (i : ι) context offer, ∃ ps : List TimedPacket,
    (Importer.tokenize i context offer).2.2.sorter = ps.foldl Sorter.push context.sorter
  parse : ∀ (i : ι) context sorted, ∃ ps : List TimedPacket,
    (Importer.parse i context sorted).2.2.sorter = ps.foldl Sorter.push context.sorter

lemma Importer.OnlyQueues.sum {ι κ : Type} [Importer ι] [Importer κ] (hι : OnlyQueues ι)
    (hκ : OnlyQueues κ) : OnlyQueues (ι ⊕ κ) where
  tokenize
    | .inl i, context, offer => hι.tokenize i context offer
    | .inr k, context, offer => hκ.tokenize k context offer
  parse
    | .inl i, context, sorted => hι.parse i context sorted
    | .inr k, context, sorted => hκ.parse k context sorted

/-- Handed a packet back, an importer leaves the queue as it is. -/
def Importer.LeavesQueue (ι : Type) [Importer ι] : Prop :=
  ∀ (i : ι) context sorted, (Importer.parse i context sorted).2.2.sorter = context.sorter

lemma Importer.LeavesQueue.sum {ι κ : Type} [Importer ι] [Importer κ] (hι : LeavesQueue ι)
    (hκ : LeavesQueue κ) : LeavesQueue (ι ⊕ κ)
  | .inl i, context, sorted => hι i context sorted
  | .inr k, context, sorted => hκ k context sorted

namespace Session

variable {ι : Type} [Importer ι] {s mid after : Session ι} {p : TimedPacket} {sorter : Sorter}
  {fatal : Option FatalCheck} {check : FatalCheck}

/-! ### One packet after the other -/

lemma drain_of_empty (h : s.context.sorter = .empty) : s.drain = some (none, s) := by
  rw [drain, h]
  rfl

lemma drain_of_halted (hpop : s.context.sorter.pop? = some (p, sorter))
    (hparse : (s.withSorter sorter).parse p = (some check, after)) :
    s.drain = some (some check, after) := by
  rw [drain, hpop]
  simp only [hparse]

lemma drain_of_parsed (hpop : s.context.sorter.pop? = some (p, sorter))
    (hparse : (s.withSorter sorter).parse p = (none, mid)) : s.drain = mid.drain := by
  rw [drain, hpop]
  simp only [hparse]

/-- Induction along a drain that comes to an end. Nothing waits, or a check fails on the packet that
comes first, or the drain goes on behind that packet. -/
theorem drain_induction {P : Session ι → Option FatalCheck → Session ι → Prop}
    (empty : ∀ s : Session ι, s.context.sorter = .empty → P s none s)
    (halted : ∀ (s : Session ι) p sorter check after, s.context.sorter.pop? = some (p, sorter) →
      (s.withSorter sorter).parse p = (some check, after) → P s (some check) after)
    (parsed : ∀ (s : Session ι) p sorter mid fatal after,
      s.context.sorter.pop? = some (p, sorter) → (s.withSorter sorter).parse p = (none, mid) →
      P mid fatal after → P s fatal after)
    (h : s.drain = some (fatal, after)) : P s fatal after := by
  -- the drain is the least fixed point of its own step, so it is enough to look at one step
  refine drain.partial_correctness (fun s ended => P s ended.1 ended.2) ?_ s (fatal, after) h
  intro rest ih s ended hended
  cases hpop : s.context.sorter.pop? with
  | none =>
      simp only [hpop, Option.some.injEq] at hended
      subst hended
      exact empty s (Sorter.pop?_eq_none_iff.mp hpop)
  | some found =>
      obtain ⟨p, sorter⟩ := found
      cases hparse : (s.withSorter sorter).parse p with
      | mk fatal mid =>
          simp only [hpop, hparse] at hended
          cases fatal with
          | some check =>
              simp only [Option.some.injEq] at hended
              subst hended
              exact halted s p sorter check mid hpop hparse
          | none => exact parsed s p sorter mid _ _ hpop hparse (ih mid ended hended)

/-- What taking out packets and handing them back preserve, draining preserves. -/
theorem drain_preserves {P : Session ι → Prop}
    (hsorter : ∀ (s : Session ι) p sorter, s.context.sorter.pop? = some (p, sorter) → P s →
      P (s.withSorter sorter))
    (hhanded : ∀ (s : Session ι) (p : TimedPacket) place i field,
      s.recipient? (PacketView.decode p.blob) = some ((place, i), field) → P s →
        P (s.handed place i (p.handedFor field)))
    (h : s.drain = some (fatal, after)) (hs : P s) : P after := by
  have hstep : ∀ (s : Session ι) p sorter fatal mid, s.context.sorter.pop? = some (p, sorter) →
      (s.withSorter sorter).parse p = (fatal, mid) → P s → P mid := by
    intro s p sorter fatal mid hpop hparse hs
    have hmid := parse_induction hhanded (s.withSorter sorter) (hsorter s p sorter hpop hs) p
    rwa [hparse] at hmid
  refine drain_induction (P := fun s _ after => P s → P after) (fun _ _ h => h) ?_ ?_ h hs
  · exact fun s p sorter check after hpop hparse hs => hstep s p sorter _ _ hpop hparse hs
  · exact fun s p sorter mid _ _ hpop hparse ih hs => ih (hstep s p sorter _ _ hpop hparse hs)

/-- Draining the queue moves no field to another place. -/
lemma placeOf?_drain (h : s.drain = some (fatal, after)) : after.placeOf? = s.placeOf? :=
  drain_preserves (P := fun after => after.placeOf? = s.placeOf?) (fun _ _ _ _ h => h)
    (fun after _ place i _ _ h => (placeOf?_handed after place i _).trans h) h rfl

/-- Unless a check fails, nothing waits in the end. -/
lemma sorter_of_drain (h : s.drain = some (none, after)) : after.context.sorter = .empty := by
  refine drain_induction (P := fun _ fatal after => fatal = none → after.context.sorter = .empty)
    (fun _ hempty _ => hempty) ?_ (fun _ _ _ _ _ _ _ _ ih => ih) h rfl
  intro s p sorter check after _ _ hnone
  cases hnone

/-! ### Importers that leave the queue alone -/

/-- These packets are taken out of the queue one after the other and handed back, and no check
fails. -/
inductive HandsBack : Session ι → List TimedPacket → Session ι → Prop where
  | nil {s : Session ι} : HandsBack s [] s
  | cons {s mid after : Session ι} {p : TimedPacket} {sorter : Sorter} {queue : List TimedPacket} :
    s.context.sorter.pop? = some (p, sorter) → (s.withSorter sorter).parse p = (none, mid) →
      HandsBack mid queue after → HandsBack s (p :: queue) after

lemma HandsBack.drain_eq {queue : List TimedPacket} (h : s.HandsBack queue after) :
    s.drain = after.drain := by
  induction h with
  | nil => rfl
  | cons hpop hparse _ ih => exact (drain_of_parsed hpop hparse).trans ih

/-- Handing back packets that wait in front, if no check fails on the packet that comes first and it
leaves the queue alone: those behind them wait, and what handing back one packet preserves holds. -/
theorem exists_handsBack {P : Session ι → Prop}
    (hparse : ∀ (s : Session ι) p sorter, P s → s.context.sorter.pop? = some (p, sorter) →
      ∃ mid, (s.withSorter sorter).parse p = (none, mid) ∧ mid.context.sorter = sorter ∧ P mid)
    (h : P s) {front back : List TimedPacket} (hqueue : s.context.sorter.queue = front ++ back) :
    ∃ mid, s.HandsBack front mid ∧ mid.context.sorter.queue = back ∧ P mid := by
  induction front generalizing s with
  | nil => exact ⟨s, .nil, hqueue, h⟩
  | cons p front ih =>
      obtain ⟨sorter, hpop, hrest⟩ := Sorter.exists_pop? hqueue
      obtain ⟨next, hnext, hsorter, hP⟩ := hparse s p sorter h hpop
      obtain ⟨mid, hmid, hback⟩ := ih hP (hsorter ▸ hrest)
      exact ⟨mid, .cons hpop hnext hmid, hback⟩

/-- **Draining comes to an end** if no check fails on the packet that comes first and it leaves the
queue alone. What handing back one packet preserves holds then. -/
theorem exists_drain_of_parse {P : Session ι → Prop}
    (hparse : ∀ (s : Session ι) p sorter, P s → s.context.sorter.pop? = some (p, sorter) →
      ∃ mid, (s.withSorter sorter).parse p = (none, mid) ∧ mid.context.sorter = sorter ∧ P mid)
    (h : P s) :
    ∃ after, s.drain = some (none, after) ∧ after.context.sorter = .empty ∧ P after := by
  obtain ⟨after, hback, hqueue, hafter⟩ := exists_handsBack hparse h (List.append_nil _).symm
  have hempty := Sorter.queue_eq_nil_iff.mp hqueue
  exact ⟨after, hback.drain_eq.trans (drain_of_empty hempty), hempty, hafter⟩

lemma sorter_parse (hι : Importer.LeavesQueue ι) (s : Session ι) (p : TimedPacket) :
    (s.parse p).2.context.sorter = s.context.sorter :=
  parse_induction (P := fun after => after.context.sorter = s.context.sorter)
    (fun after _ _ i _ _ h => (hι i after.context _).trans h) s rfl p

/-- Draining comes to an end with importers that leave the queue alone, be it at a check that
fails. -/
theorem exists_drain (hι : Importer.LeavesQueue ι) (s : Session ι) :
    ∃ fatal after, s.drain = some (fatal, after) := by
  obtain ⟨queue, hqueue⟩ : ∃ queue, s.context.sorter.queue = queue := ⟨_, rfl⟩
  induction queue generalizing s with
  | nil => exact ⟨none, s, drain_of_empty (Sorter.queue_eq_nil_iff.mp hqueue)⟩
  | cons p queue ih =>
      obtain ⟨sorter, hpop, hrest⟩ := Sorter.exists_pop? hqueue
      have hsorter := sorter_parse hι (s.withSorter sorter) p
      cases hparse : (s.withSorter sorter).parse p with
      | mk fatal mid =>
          rw [hparse] at hsorter
          cases fatal with
          | some check => exact ⟨_, _, drain_of_halted hpop hparse⟩
          | none =>
              obtain ⟨fatal, after, hdrain⟩ := ih mid ((congrArg Sorter.queue hsorter).trans hrest)
              exact ⟨fatal, after, (drain_of_parsed hpop hparse).trans hdrain⟩

/-! ### Maps of sessions -/

/-- **Draining two sessions alike.** A map of sessions that keeps the queue, and that commutes with
handing back one packet, commutes with draining. -/
theorem drain_map {κ : Type} [Importer κ] {f : Session ι → Session κ}
    (hsorter : ∀ s, (f s).context.sorter = s.context.sorter)
    (hparse : ∀ s p sorter, ((f s).withSorter sorter).parse p =
      Prod.map id f ((s.withSorter sorter).parse p)) (s : Session ι) :
    (f s).drain = s.drain.map (Prod.map id f) := by
  have hforth : ∀ {fatal after}, s.drain = some (fatal, after) →
      (f s).drain = some (fatal, f after) := by
    refine fun h => drain_induction (P := fun s fatal after => (f s).drain = some (fatal, f after))
      ?_ ?_ ?_ h
    · exact fun s hempty => drain_of_empty ((hsorter s).trans hempty)
    · intro s p sorter check after hpop hhalt
      refine drain_of_halted ((congrArg Sorter.pop? (hsorter s)).trans hpop) ?_
      rw [hparse, hhalt]
      rfl
    · intro s p sorter mid fatal after hpop hmid ih
      rw [← ih]
      refine drain_of_parsed ((congrArg Sorter.pop? (hsorter s)).trans hpop) ?_
      rw [hparse, hmid]
      rfl
  -- an end of the second drain is one of the first, packet for packet
  have hback : ∀ {fatal image}, (f s).drain = some (fatal, image) → s.drain.isSome := by
    refine fun h => drain_induction (P := fun t _ _ => ∀ s, f s = t → s.drain.isSome) ?_ ?_ ?_ h
      s rfl
    · rintro _ hempty s rfl
      rw [drain_of_empty ((hsorter s).symm.trans hempty)]
      rfl
    · rintro _ p sorter check image hpop hhalt s rfl
      rw [hsorter] at hpop
      rw [hparse] at hhalt
      cases hs : (s.withSorter sorter).parse p with
      | mk fatal after =>
          obtain rfl : fatal = some check := by
            rw [hs] at hhalt
            exact congrArg Prod.fst hhalt
          rw [drain_of_halted hpop hs]
          rfl
    · rintro _ p sorter image fatal last hpop himage ih s rfl
      rw [hsorter] at hpop
      rw [hparse] at himage
      cases hs : (s.withSorter sorter).parse p with
      | mk none? mid =>
          rw [hs] at himage
          obtain rfl : none? = none := congrArg Prod.fst himage
          rw [drain_of_parsed hpop hs]
          exact ih mid (congrArg Prod.snd himage)
  cases hdrain : s.drain with
  | some ended => exact hforth hdrain
  | none =>
      cases himage : (f s).drain with
      | none => rfl
      | some ended =>
          have hsome := hback himage
          rw [hdrain] at hsome
          cases hsome

end Session

end AtomTimeline
