import ClassInstrument.Proofs.Bytes.Local
import ClassInstrument.Proofs.ClassFile.Skeleton
import ClassInstrument.Proofs.ClassFile.Stability

/-!
# No class in front of another

Everything in front of the end of a class file is read by decoders that do not see the end, so the
bytes of one class are never the front of the bytes of another: reading either comes to the same
parts at the same place, and only one of the two ends there.

* `Pool.local_decode`, `ClassSkeleton.local_decoder` — the formats that are read so;
* `Header.decode_append` — a header, with more bytes behind it;
* `ClassFile.no_accepted_front` — **a class file cut short or extended is none**.
-/

namespace ClassInstrument

open Decoder

/-! ### Formats that do not see the end -/

namespace Entry

theorem local_decodeText : Local decodeText := by
  refine Local.word.bind fun length => (Local.take _).bind fun bytes => ?_
  cases Text.decode? bytes with
  | some text => exact Local.pure _
  | none => exact Local.malformed _

theorem local_decodeOne {α : Type} [Word α] (entry : α → Entry) : Local (decodeOne entry) :=
  Local.word.bind fun field => Local.pure (entry field)

theorem local_decodeTwo {α β : Type} [Word α] [Word β] (entry : α → β → Entry) :
    Local (decodeTwo entry) :=
  Local.word.bind fun first => Local.word.bind fun second => Local.pure (entry first second)

theorem local_decode (index : Nat) : Local (decode index) := by
  refine Local.word.bind fun tag => ?_
  unfold decodeTagged
  split
  · exact local_decodeText
  all_goals first
    | exact local_decodeOne _
    | exact local_decodeTwo _
    | exact Local.malformed _

end Entry

namespace Pool

/-- One entry first, then the others. -/
theorem decodeUpTo_eq (count : Nat) (p : Pool) :
    decodeUpTo count p = if p.size < count then
        Entry.decode p.size >>= fun entry =>
          if entry.isWide && count ≤ p.size + 1 then Decoder.malformed .wideInLastSlot
          else decodeUpTo count (p.push entry)
      else pure p := by
  funext c
  rw [decodeUpTo]
  split
  · rw [bind_eq]
    cases Entry.decode p.size c with
    | error e => rfl
    | ok r =>
      show (if r.1.isWide && count ≤ p.size + 1 then _ else _)
        = (if r.1.isWide && count ≤ p.size + 1 then _ else _ : Decoder Pool) r.2
      split <;> rfl
  · rfl

/-- By induction on the slots that are still to be filled. -/
theorem local_decodeUpTo (count : Nat) (p : Pool) : Local (decodeUpTo count p) := by
  induction h : count - p.size using Nat.strongRecOn generalizing p with
  | ind left ih =>
    rw [decodeUpTo_eq]
    split
    · next room =>
      refine (Entry.local_decode _).bind fun entry => Local.ite (Local.malformed _) ?_
      refine ih _ ?_ _ rfl
      have grown : 0 < entry.width := by
        unfold Entry.width
        split <;> omega
      rw [size_push]
      omega
    · exact Local.pure p

theorem local_decode : Local decode :=
  Local.word.bind fun _ => Local.ite (Local.malformed _) (local_decodeUpTo _ _)

end Pool

namespace Header

theorem local_decodeAttributes (pool : Pool) : Local (decodeAttributes pool) := by
  refine Local.table (Local.word.bind fun index => (Local.ofExcept _).bind fun name => ?_)
  exact Local.word.bind fun length => (Local.take _).bind fun body => Local.pure _

end Header

namespace ClassFile

theorem local_decodeText (pool : Pool) : Local (decodeText pool) :=
  Local.word.bind fun _ => Local.ofExcept _

theorem local_decodeClassName (pool : Pool) : Local (decodeClassName pool) :=
  Local.word.bind fun _ => Local.ofExcept _

theorem local_decodeMember (pool : Pool) : Local (decodeMember pool) := by
  refine Local.word.bind fun access => (local_decodeText pool).bind fun name => ?_
  refine (local_decodeText pool).bind fun desc => ?_
  exact (Header.local_decodeAttributes pool).bind fun attributes => Local.pure _

end ClassFile

/-- The parts of a class behind its constant pool. -/
theorem ClassSkeleton.local_decoder (pool : Pool) : Local (decoder pool) := by
  refine Local.word.bind fun access => (ClassFile.local_decodeClassName pool).bind fun name => ?_
  refine Local.word.bind fun superIndex => (Local.ofExcept _).bind fun superName => ?_
  refine (ClassFile.local_decodeClassName pool).table.bind fun interfaces => ?_
  refine (ClassFile.local_decodeMember pool).table.bind fun fields => ?_
  refine (ClassFile.local_decodeMember pool).table.bind fun members => ?_
  exact (Header.local_decodeAttributes pool).bind fun attributes => Local.pure _

/-! ### Headers -/

namespace Header

/-- What is read in front of the body: the versions and the constants. -/
def opening : Decoder (UInt16 × UInt16 × Pool) := do
  let found ← Decoder.word
  if found != magic then Decoder.malformed (.magic found)
  else
    let minor ← Decoder.word
    let major ← Decoder.word
    if major < oldestMajor || newestMajor < major then
      fun _ => .error (.version major minor)
    else
      let pool ← Pool.decode
      return (minor, major, pool)

theorem local_opening : Local opening := by
  refine Local.word.bind fun found => Local.ite (Local.malformed _) ?_
  refine Local.word.bind fun minor => Local.word.bind fun major => Local.ite (Local.fail _) ?_
  exact Pool.local_decode.bind fun pool => Local.pure _

/-- The body is what the opening leaves over. -/
theorem decoder_eq :
    decoder = opening >>= fun parts c => .ok (⟨parts.1, parts.2.1, parts.2.2, c.rest⟩, c) := by
  unfold decoder opening
  rw [bind_assoc]
  congr 1
  funext found
  split
  · rfl
  · rw [bind_assoc]
    congr 1
    funext minor
    rw [bind_assoc]
    congr 1
    funext major
    split
    · rfl
    · rw [bind_assoc]
      rfl

theorem decode_eq (bytes : Bytes) :
    decode bytes = (opening (.start bytes)).map fun r => ⟨r.1.1, r.1.2.1, r.1.2.2, r.2.rest⟩ := by
  unfold decode onBytes
  rw [decoder_eq, bind_eq]
  cases opening (.start bytes) <;> rfl

/-- **A header with more bytes behind it**: unless bytes were missing, the new ones are simply at
the end of the body. -/
theorem decode_append (bytes more : Bytes) : decode bytes = .error .outOfBounds ∨
    decode (bytes ++ more) = (decode bytes).map fun h => { h with body := h.body ++ more } := by
  rw [decode_eq, decode_eq]
  rcases local_opening more (.start bytes) with short | same
  · exact .inl (by rw [short]; rfl)
  · right
    show Except.map _ (opening ((Cursor.start bytes).extend more)) = _
    rw [same]
    cases opening (.start bytes) <;> rfl

end Header

/-! ### Whole classes -/

namespace ClassFile

variable (options options' : ReadOptions) {more : Bytes}

/-- Reading the body of a class with more bytes behind it. -/
theorem bodyDecoder_append (minor major : UInt16) (pool : Pool) (body : Bytes)
    (longer : more ≠ []) :
    (bodyDecoder options minor major pool).onBytes body = .error .outOfBounds
      ∨ ∃ e, (bodyDecoder options' minor major pool).onBytes (body ++ more) = .error e
        ∧ ∀ c, (bodyDecoder options minor major pool).onBytes body = .ok c →
          e = .malformed .trailingData := by
  rw [ClassSkeleton.bodyDecoder_eq, ClassSkeleton.bodyDecoder_eq]
  obtain short | ⟨e, first, second⟩ | ⟨s, c, first, second⟩ :=
    (ClassSkeleton.local_decoder pool).onBytes_bind (ClassSkeleton.finish options minor major pool)
      (ClassSkeleton.finish options' minor major pool) body more
  · exact .inl short
  · exact .inr ⟨e, second, fun c read => nomatch first.symm.trans read⟩
  right
  have left : (c.extend more).rest ≠ [] := List.append_ne_nil_of_right_ne_nil _ longer
  rw [first, second, ClassSkeleton.finish_leftover options' minor major pool s left,
    classAttribute_options options' options]
  unfold ClassSkeleton.finish
  rw [bind_eq]
  cases s.attributes.foldlM (classAttribute pool options) ⟨.empty, .empty⟩ with
  | error e => exact ⟨e, rfl, fun c read => nomatch read⟩
  | ok read => exact ⟨.malformed .trailingData, rfl, fun _ _ => rfl⟩

/-- Reading a class with more bytes behind it: bytes were missing before, or it is refused, and then
for the leftover bytes if nothing was wrong without them. -/
theorem decode_append (bytes : Bytes) (longer : more ≠ []) :
    decode options bytes = .error .outOfBounds ∨ ∃ e, decode options' (bytes ++ more) = .error e
      ∧ ∀ c, decode options bytes = .ok c → e = .malformed .trailingData := by
  unfold decode
  rcases Header.decode_append bytes more with short | same
  · exact .inl (by rw [short]; rfl)
  rw [same]
  cases Header.decode bytes with
  | error e => exact .inr ⟨e, rfl, fun c read => nomatch read⟩
  | ok header =>
    exact bodyDecoder_append options options' header.minor header.major header.pool header.body longer

/-- **No class file is the front of another one**, however both are read: with more bytes at its end
it is refused for these, and a front of it is refused for the bytes that it lacks. -/
theorem no_accepted_front (bytes : Bytes) (longer : more ≠ []) :
    (∀ c, decode options bytes = .ok c →
        decode options' (bytes ++ more) = .error (.malformed .trailingData))
      ∧ ∀ c, decode options' (bytes ++ more) = .ok c →
        decode options bytes = .error .outOfBounds := by
  obtain short | ⟨e, refused, leftover⟩ := decode_append options options' bytes longer
  · exact ⟨fun c read => (nomatch short.symm.trans read), fun _ _ => short⟩
  · refine ⟨fun c read => ?_, fun c read => (nomatch refused.symm.trans read)⟩
    rw [refused, leftover c read]

/-- A small class file is refused with a byte behind it, and so is every proper front of it. -/
theorem refused_fronts_small : ∃ bytes, (∃ c, decode .all bytes = .ok c)
    ∧ decode .all (bytes ++ [0]) = .error (.malformed .trailingData)
    ∧ ∀ n < bytes.length, decode .all (bytes.take n) = .error .outOfBounds := by
  obtain ⟨bytes, pool, -, read⟩ := decode_small
  refine ⟨bytes, ⟨_, read⟩,
    (no_accepted_front .all .all bytes (List.cons_ne_nil 0 [])).1 _ read, fun n shorter => ?_⟩
  have behind : bytes.drop n ≠ [] := by
    rw [ne_eq, List.drop_eq_nil_iff]
    omega
  refine (no_accepted_front .all .all (bytes.take n) behind).2 (small pool) ?_
  rw [List.take_append_drop]
  exact read

end ClassFile

end ClassInstrument
