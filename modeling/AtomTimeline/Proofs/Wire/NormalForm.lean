import AtomTimeline.Proofs.Wire.Iteration

/-!
The shortest spelling of a message, which is the one that is written.

* `spelledFields_writeFields`: what is written is a spelling of the fields.
  `SpelledFields.fits`: all fields that can be read can be written.
* `SpelledFields.length_writeFields_le`: no spelling of the fields is shorter.
* `Reader.yields_written`: so fields that are written are read as they were, and if fields that were
  read are written again, the bytes have not become more.
-/

namespace AtomTimeline

variable {fs : List Field} {b : Bytes}

/-- What is written is a spelling of the fields. -/
lemma spelledFields_writeFields (h : ∀ f ∈ fs, f.Fits) : SpelledFields fs (writeFields fs) :=
  scan_eq_clean_iff.mp (scan_writeFields h)

/-- Fields that were spelled can be written. -/
lemma SpelledFields.fits (h : SpelledFields fs b) : ∀ f ∈ fs, f.Fits := by
  intro f hf
  have hscan : scan b = ⟨fs, none⟩ := scan_eq_clean_iff.mpr h
  exact (fits_of_mem_scan (b := b) (by rwa [hscan])).1

/-- **The written spelling is the shortest.** The induction is along the fields: the tag and the
value of each take no more bytes than in any other spelling. -/
theorem SpelledFields.length_writeFields_le (h : SpelledFields fs b) :
    (writeFields fs).length ≤ b.length := by
  induction fs generalizing b with
  | nil => exact Nat.zero_le _
  | cons f fs ih =>
      obtain ⟨part, rest, rfl, hpart, hrest⟩ := spelledFields_cons_iff.mp h
      have hfield := (Field.length_write_le_of_read (hpart.read_append [])).1
      have htail := ih hrest
      rw [writeFields] at htail ⊢
      rw [List.append_nil, List.length_nil] at hfield
      rw [List.flatMap_cons, List.length_append, List.length_append]
      omega

namespace Reader

/-- **Written fields are read as they were.** Fields with ids other than zero, holding any numbers
and any bytes whose length is a 64-bit number, are handed out as they were written, and the reader
ends without having met a malformed one. If a reader ends so on any other bytes, the fields it has
handed out are written in no more bytes than these, and are read from there as before. -/
theorem yields_written (fs : List Field) :
    ((∀ f ∈ fs, f.id ≠ 0 ∧ f.value.bytes.length < 2 ^ 64) →
      ∃ last, Yields next (ofBytes (writeFields fs)) fs last ∧ last.malformed = false) ∧
    ∀ b last, Yields next (ofBytes b) fs last → last.malformed = false →
      (∃ last', Yields next (ofBytes (writeFields fs)) fs last' ∧ last'.malformed = false) ∧
        (writeFields fs).length ≤ b.length := by
  constructor
  · intro h
    have hfits : ∀ f ∈ fs, f.Fits := fun f hf => ⟨(h f hf).1, (h f hf).2⟩
    exact exists_yields_of_spelled (spelledFields_writeFields hfits)
  · intro b last hyields hclean
    have hspelled := spelled_of_yields hyields hclean
    exact ⟨exists_yields_of_spelled (spelledFields_writeFields hspelled.fits),
      hspelled.length_writeFields_le⟩

/-- Two fields, the first of which has a tag and the second a length that is padded by a byte. -/
theorem yields_written_of_padded :
    (∀ f ∈ [⟨1, .varint 5⟩, ⟨2, .lengthDelimited [7, 9]⟩],
      Field.id f ≠ 0 ∧ f.value.bytes.length < 2 ^ 64) ∧
    (∃ last, Yields next (ofBytes [136, 0, 5, 18, 130, 0, 7, 9])
      [⟨1, .varint 5⟩, ⟨2, .lengthDelimited [7, 9]⟩] last ∧ last.malformed = false) ∧
    (∃ last, Yields next (ofBytes (writeFields [⟨1, .varint 5⟩, ⟨2, .lengthDelimited [7, 9]⟩]))
      [⟨1, .varint 5⟩, ⟨2, .lengthDelimited [7, 9]⟩] last ∧ last.malformed = false) ∧
    (writeFields [⟨1, .varint 5⟩, ⟨2, .lengthDelimited [7, 9]⟩]).length ≤ 8 := by
  have hids : ∀ f ∈ [⟨1, .varint 5⟩, ⟨2, .lengthDelimited [7, 9]⟩],
      Field.id f ≠ 0 ∧ f.value.bytes.length < 2 ^ 64 := by
    simp [FieldValue.bytes]
  have hscan : scan [136, 0, 5, 18, 130, 0, 7, 9] =
      ⟨[⟨1, .varint 5⟩, ⟨2, .lengthDelimited [7, 9]⟩], none⟩ := by decide +kernel
  obtain ⟨last, hyields, hclean⟩ := exists_yields_of_spelled (scan_eq_clean_iff.mp hscan)
  obtain ⟨hwritten, hagain⟩ := yields_written [⟨1, .varint 5⟩, ⟨2, .lengthDelimited [7, 9]⟩]
  exact ⟨hids, ⟨last, hyields, hclean⟩, hwritten hids, (hagain _ last hyields hclean).2⟩

end Reader

end AtomTimeline
