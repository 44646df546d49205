import ClassInstrument.Pool.Entry
import ClassInstrument.Proofs.Bytes.Levels
import ClassInstrument.Proofs.Bytes.Traverse
import ClassInstrument.Proofs.Text.RoundTrip

/-!
# Entries read back

Every entry that can be written is read back from its bytes, and reading gives no entry that
cannot be referred to.

* `Entry.reads_encode` — the round trip, whatever follows;
* `Entry.decode_ne_unusable` — what is read can be referred to.
-/

namespace ClassInstrument

open Decoder Traverse

/-- A byte is its own code. -/
@[simp] theorem Word.encode_byte (byte : UInt8) : Word.encode byte = [byte] := by
  show [UInt8.ofNat (byte.toNat / 256 ^ 0)] = [byte]
  simp

/-- What comes of the bytes behind a byte. -/
theorem Decoder.Replies.byte {α : Type} {f : UInt8 → Decoder α} {byte : UInt8} {fields : Bytes}
    {outcome : Except Failure α} (h : Replies (f byte) fields outcome) :
    Replies (Decoder.word >>= f) (byte :: fields) outcome := by
  have first := Reads.word byte
  rw [Word.encode_byte] at first
  exact first.replies_bind h

/-- What is read behind a byte. -/
theorem Decoder.Reads.byte {α : Type} {f : UInt8 → Decoder α} {byte : UInt8} {fields : Bytes}
    {value : α} (h : Reads (f byte) fields value) :
    Reads (Decoder.word >>= f) (byte :: fields) value :=
  replies_ok_iff.1 (replies_ok_iff.2 h).byte

/-- The bytes of a count are read as the count. -/
theorem reads_countField {what : String} {count : Nat} {bytes : Bytes}
    (h : countField what count = .ok bytes) :
    count < 65536 ∧ bytes = Bytes.ofNat 2 count
      ∧ Reads (word (α := UInt16)) bytes (UInt16.ofNat count) := by
  unfold countField at h
  split at h
  · next fits =>
    cases h
    exact ⟨fits, rfl, Reads.word_ofNat rfl (UInt16.toNat_ofNat_of_lt' fits)⟩
  · cases h

namespace Entry

theorem reads_decodeOne {α : Type} [Word α] (entry : α → Entry) (field : α) :
    Reads (decodeOne entry) (Word.encode field) (entry field) :=
  (Reads.word field).bind_pure (Reads.pure _)

theorem reads_decodeTwo {α β : Type} [Word α] [Word β] (entry : α → β → Entry) (first : α)
    (second : β) :
    Reads (decodeTwo entry) (Word.encode first ++ Word.encode second) (entry first second) :=
  (Reads.word first).bind ((Reads.word second).bind_pure (Reads.pure _))

theorem reads_decodeText {text : String} {count : Bytes}
    (h : countField "string constant bytes" (Text.encode text).length = .ok count) :
    Reads decodeText (count ++ Text.encode text) (.utf8 text) := by
  obtain ⟨fits, -, hcount⟩ := reads_countField h
  refine hcount.bind ((Reads.take_of_length ?_).bind_pure ?_)
  · rw [UInt16.toNat_ofNat_of_lt' fits]
  · rw [Text.decode?_encode]
    exact Reads.pure _

/-- **An entry is read back from its bytes**, in whichever slot it is going to be. -/
theorem reads_encode {entry : Entry} {bytes : Bytes} (usable : entry ≠ .unusable)
    (h : entry.encode = .ok bytes) (index : Nat) : Reads (decode index) bytes entry := by
  -- the tag comes first; what follows it is read by the form behind the tag
  have tagged : ∀ (tag : UInt8) (fields : Bytes),
      Reads (decodeTagged index tag) fields entry → Reads (decode index) (tag :: fields) entry :=
    fun tag fields hfields => Reads.byte hfields
  cases entry with
  | unusable => exact absurd rfl usable
  | utf8 text =>
    obtain ⟨count, hcount, h⟩ := bind_eq_ok_iff.1 h
    cases h
    exact tagged 1 _ (reads_decodeText hcount)
  | integer value => cases h; exact tagged 3 _ (reads_decodeOne _ value)
  | float bits => cases h; exact tagged 4 _ (reads_decodeOne _ bits)
  | long value => cases h; exact tagged 5 _ (reads_decodeOne _ value)
  | double bits => cases h; exact tagged 6 _ (reads_decodeOne _ bits)
  | classRef name => cases h; exact tagged 7 _ (reads_decodeOne _ name)
  | string text => cases h; exact tagged 8 _ (reads_decodeOne _ text)
  | fieldRef owner member => cases h; exact tagged 9 _ (reads_decodeTwo _ owner member)
  | methodRef owner member => cases h; exact tagged 10 _ (reads_decodeTwo _ owner member)
  | interfaceMethodRef owner member => cases h; exact tagged 11 _ (reads_decodeTwo _ owner member)
  | nameAndType name desc => cases h; exact tagged 12 _ (reads_decodeTwo _ name desc)
  | methodHandle kind reference => cases h; exact tagged 15 _ (reads_decodeTwo _ kind reference)
  | methodType desc => cases h; exact tagged 16 _ (reads_decodeOne _ desc)
  | dynamic bootstrap member => cases h; exact tagged 17 _ (reads_decodeTwo _ bootstrap member)
  | invokeDynamic bootstrap member =>
    cases h; exact tagged 18 _ (reads_decodeTwo _ bootstrap member)
  | module name => cases h; exact tagged 19 _ (reads_decodeOne _ name)
  | package name => cases h; exact tagged 20 _ (reads_decodeOne _ name)

/-! ### What reading gives -/

/-- A decoder that never gives a certain value. -/
theorem ne_of_bind {α β : Type} {d : Decoder α} {f : α → Decoder β} {c : Cursor} {r : β × Cursor}
    {bad : β} (hf : ∀ v c r, f v c = .ok r → r.1 ≠ bad) (h : (d >>= f) c = .ok r) : r.1 ≠ bad := by
  obtain ⟨value, rest, -, h⟩ := Decoder.bind_eq_ok_iff.1 h
  exact hf _ _ _ h

theorem decodeOne_ne_unusable {α : Type} [Word α] {entry : α → Entry}
    (usable : ∀ a, entry a ≠ .unusable) {c : Cursor} {r : Entry × Cursor}
    (h : decodeOne entry c = .ok r) : r.1 ≠ .unusable := by
  refine ne_of_bind (fun field c r h => ?_) h
  cases h
  exact usable field

theorem decodeTwo_ne_unusable {α β : Type} [Word α] [Word β] {entry : α → β → Entry}
    (usable : ∀ a b, entry a b ≠ .unusable) {c : Cursor} {r : Entry × Cursor}
    (h : decodeTwo entry c = .ok r) : r.1 ≠ .unusable := by
  refine ne_of_bind (fun first c r h => ne_of_bind (fun second c r h => ?_) h) h
  cases h
  exact usable first second

theorem decodeText_ne_unusable {c : Cursor} {r : Entry × Cursor} (h : decodeText c = .ok r) :
    r.1 ≠ .unusable := by
  refine ne_of_bind (fun length c r h => ne_of_bind (fun bytes c r h => ?_) h) h
  cases hd : Text.decode? bytes with
  | none => simp only [hd] at h; cases h
  | some text =>
    simp only [hd] at h
    cases h
    exact Entry.noConfusion

/-- **What is read can be referred to.** -/
theorem decode_ne_unusable {index : Nat} {c : Cursor} {r : Entry × Cursor}
    (h : decode index c = .ok r) : r.1 ≠ .unusable := by
  refine ne_of_bind (fun tag c r h => ?_) h
  unfold decodeTagged at h
  split at h
  · exact decodeText_ne_unusable h
  all_goals first
    | exact decodeOne_ne_unusable (fun _ => Entry.noConfusion) h
    | exact decodeTwo_ne_unusable (fun _ _ => Entry.noConfusion) h
    | exact nomatch h

end Entry

end ClassInstrument
