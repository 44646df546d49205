import ClassInstrument.Proofs.Code.Tables

/-!
# The table of frames read back

Every frame is written in full, so that nothing it says depends on the frame before it; only its
offset does.  Distances are taken from an ascending list of offsets and add up to the same
offsets again.

* `Frame.sites` — the allocation sites that a frame names;
* `StackMap.reads_frames` — frames that ascend are read at the offsets they were written for;
* `Code.yields_encodeFrames` — **the table of frames is read back**.
-/

namespace ClassInstrument

open Builder Decoder

/-! ### One frame -/

/-- The allocation sites that a frame names, in the order in which it names them. -/
def Frame.sites (frame : Frame) : List Label :=
  (frame.locals ++ frame.stack).filterMap VerificationType.site?

namespace Code

open BytecodeContext

/-- A verification type is read back with its label resolved. -/
theorem yields_encodeType (labels : LabelTable) (type : VerificationType) :
    Yields (encodeType labels type) fun bytes t => ∀ ctx : BytecodeContext, ctx.Serves t labels →
      Reads ctx.verificationType bytes (type.mapLabels labels.resolve) := by
  cases type with
  | top => exact Yields.pure fun t ctx _ => Reads.byte (Reads.pure _)
  | integer => exact Yields.pure fun t ctx _ => Reads.byte (Reads.pure _)
  | float => exact Yields.pure fun t ctx _ => Reads.byte (Reads.pure _)
  | long => exact Yields.pure fun t ctx _ => Reads.byte (Reads.pure _)
  | double => exact Yields.pure fun t ctx _ => Reads.byte (Reads.pure _)
  | null => exact Yields.pure fun t ctx _ => Reads.byte (Reads.pure _)
  | uninitializedThis => exact Yields.pure fun t ctx _ => Reads.byte (Reads.pure _)
  | object name =>
    refine (yields_addClass name).bind fun index => Yields.pure ?_
    rintro t ⟨-, named, -⟩ ctx serves
    rw [← serves.pool] at named
    refine Reads.byte (Reads.bind_pure ?_ (Reads.pure _))
    exact (Reads.word index).bind_pure (Reads.ofExcept named)
  | uninitialized site =>
    refine (Yields.ofExcept _).bind fun offset => Yields.pure fun t known ctx serves => ?_
    have place := serves.reads_targetAt site
    rw [LabelTable.resolve_of_offset known] at place
    rw [VerificationType.mapLabels, LabelTable.resolve_of_offset known]
    exact Reads.byte (place.bind_pure (Reads.pure _))

/-- The types of a frame, one behind the other. -/
theorem yields_encodeTypes (labels : LabelTable) (types : List VerificationType) :
    Yields (concat (encodeType labels) types) fun bytes t => types.length < 65536 →
      ∀ ctx : BytecodeContext, ctx.Serves t labels →
        Reads (table ctx.verificationType) (Bytes.ofNat 2 types.length ++ bytes)
          (types.map (·.mapLabels labels.resolve)) := by
  refine (Yields.concat fun type _ => yields_encodeType labels type).mono ?_
  rintro bytes t ⟨chunks, rfl, each⟩ fits ctx serves
  have rows : List.Forall₂ (fun bytes type => Reads ctx.verificationType bytes type) chunks
      (types.map (·.mapLabels labels.resolve)) := by
    rw [List.forall₂_map_right_iff]
    exact (each.imp fun _ _ row => row ctx serves).flip
  rw [← List.length_map (f := (·.mapLabels labels.resolve))] at fits ⊢
  exact Reads.table rows fits

/-- A full frame is read back with its distance. -/
theorem yields_encodeFrame (labels : LabelTable) (delta : Nat) (frame : Frame) :
    Yields (encodeFrame labels delta frame) fun bytes t => delta < 65536 →
      ∀ ctx : BytecodeContext, ctx.Serves t labels → Reads (FrameChange.decode ctx) bytes
        (delta, .full (frame.mapLabels labels.resolve).locals
          (frame.mapLabels labels.resolve).stack) := by
  refine (Yields.count _ _).bind fun localCount => ?_
  refine (yields_encodeTypes labels frame.locals).bind fun locals => ?_
  refine (Yields.count _ _).bind fun stackCount => ?_
  refine (yields_encodeTypes labels frame.stack).bind fun stack => Yields.pure ?_
  rintro t readStack ⟨fewEntries, rfl⟩ readLocals ⟨fewLocals, rfl⟩ near ctx serves
  have toNat : (UInt16.ofNat delta).toNat = delta := UInt16.toNat_ofNat_of_lt' near
  have whole : ∀ (a b c d e : Bytes), 255 :: a ++ b ++ c ++ d ++ e
      = 255 :: (a ++ ((b ++ c) ++ (d ++ e))) := by simp
  rw [whole]
  refine Reads.byte ((Reads.word_ofNat rfl toNat).bind ?_)
  refine (readLocals fewLocals ctx serves).bind ((readStack fewEntries ctx serves).bind_pure ?_)
  rw [toNat]
  exact Reads.pure _

/-! ### Ascending offsets -/

/-- The map after one more frame in full. -/
def addFrame (m : StackMap) (entry : Nat × Frame) : StackMap :=
  { current := entry.2
    previous := some entry.1
    frames := entry :: m.frames
    mentioned := entry.1 :: (entry.2.sites.map Label.index).reverse ++ m.mentioned }

/-- A distance leads from the frame before to the offset it was taken for. -/
theorem extend_delta {m : StackMap} {offset length : Nat} (frame : Frame)
    (behind : ∀ previous, m.previous = some previous → previous < offset)
    (inside : offset < length) :
    m.extend length (delta m.previous offset) (.full frame.locals frame.stack)
      = .ok (addFrame m (offset, frame)) := by
  have place : m.offset (delta m.previous offset) = offset := by
    unfold StackMap.offset delta
    cases known : m.previous with
    | none => rfl
    | some previous =>
      have := behind previous known
      show previous + (offset - previous - 1) + 1 = offset
      omega
  simp only [StackMap.extend, FrameChange.next?, place]
  rw [if_neg (by omega)]
  rfl

theorem delta_lt {previous : Option Nat} {offset : Nat} (h : offset < 65536) :
    delta previous offset < 65536 := by
  unfold delta
  split <;> omega

/-- Frames with their distances, behind a frame at a given offset. -/
def deltasFrom (previous : Option Nat) : List (Nat × Frame) → List (Nat × Frame)
  | [] => []
  | (offset, frame) :: frames =>
    (delta previous offset, frame) :: deltasFrom (some offset) frames

theorem withDeltas_eq (frames : List (Nat × Frame)) :
    withDeltas frames = deltasFrom none frames := by
  have general : ∀ (frames : List (Nat × Frame)) (previous : Option Nat),
      List.zipWith (fun previous (entry : Nat × Frame) => (delta previous entry.1, entry.2))
        (previous :: frames.map fun entry => some entry.1) frames
        = deltasFrom previous frames := by
    intro frames
    induction frames with
    | nil => exact fun _ => rfl
    | cons entry frames ih =>
      intro previous
      rw [List.map_cons, List.zipWith_cons_cons, ih]
      rfl
  exact general frames none

/-- **Frames that ascend are read at the offsets they were written for.** -/
theorem reads_frames {ctx : BytecodeContext} {labels : LabelTable} {frames : List (Nat × Frame)}
    {m : StackMap} {chunks : List Bytes}
    (ascending : frames.Pairwise fun a b => a.1 < b.1)
    (behind : ∀ previous, m.previous = some previous → ∀ entry ∈ frames, previous < entry.1)
    (inside : ∀ entry ∈ frames, entry.1 < ctx.length)
    (each : List.Forall₂ (fun entry bytes => Reads (FrameChange.decode ctx) bytes
      (entry.1, .full (entry.2.mapLabels labels.resolve).locals
        (entry.2.mapLabels labels.resolve).stack)) (deltasFrom m.previous frames) chunks) :
    Reads (iterate (StackMap.decodeNext ctx) frames.length m) chunks.flatten
      ((frames.map fun entry => (entry.1, entry.2.mapLabels labels.resolve)).foldl addFrame m) := by
  induction frames generalizing m chunks with
  | nil =>
    cases each
    exact fun _ _ => rfl
  | cons entry frames ih =>
    obtain ⟨offset, frame⟩ := entry
    obtain ⟨first, others⟩ := List.pairwise_cons.1 ascending
    cases each with
    | @cons _ chunk _ chunks one rest =>
      have step : Reads (StackMap.decodeNext ctx m) chunk
          (addFrame m (offset, frame.mapLabels labels.resolve)) := by
        refine one.bind_pure (Reads.ofExcept ?_)
        exact extend_delta (frame.mapLabels labels.resolve)
          (fun previous known => behind previous known _ List.mem_cons_self)
          (inside _ List.mem_cons_self)
      have next := ih (m := addFrame m (offset, frame.mapLabels labels.resolve)) others
        (by
          intro previous known entry member
          cases known
          exact first entry member)
        (fun entry member => inside entry (List.mem_cons_of_mem _ member)) rest
      exact step.cons_iterate next

/-! ### The whole table -/

/-- The frames that a class of some version has room for, with their labels resolved. -/
def writtenFrames (labels : LabelTable) (major : UInt16) (frames : List (Nat × Frame)) :
    List (Nat × Frame) :=
  if major < firstMajorWithFrames then []
  else frames.map fun entry => (entry.1, entry.2.mapLabels labels.resolve)

/-- Each frame with its distance. -/
theorem yields_encodeDeltas (labels : LabelTable) (previous : Option Nat)
    (frames : List (Nat × Frame)) :
    Yields (concat (fun (delta, frame) => encodeFrame labels delta frame)
      (deltasFrom previous frames)) fun bytes t => ∃ chunks, bytes = chunks.flatten
        ∧ ∀ ctx : BytecodeContext, ctx.Serves t labels → (∀ entry ∈ frames, entry.1 < 65536) →
          List.Forall₂ (fun entry bytes => Reads (FrameChange.decode ctx) bytes
            (entry.1, .full (entry.2.mapLabels labels.resolve).locals
              (entry.2.mapLabels labels.resolve).stack)) (deltasFrom previous frames) chunks := by
  refine (Yields.concat fun entry _ => yields_encodeFrame labels entry.1 entry.2).mono ?_
  rintro bytes t ⟨chunks, rfl, each⟩
  refine ⟨chunks, rfl, fun ctx serves fits => ?_⟩
  have near : ∀ entry ∈ deltasFrom previous frames, entry.1 < 65536 := by
    clear each
    induction frames generalizing previous with
    | nil => exact fun _ h => (nomatch h)
    | cons entry frames ih =>
      intro other member
      rcases List.mem_cons.1 member with rfl | member
      · exact delta_lt (fits _ List.mem_cons_self)
      · exact ih _ (fun e he => fits e (List.mem_cons_of_mem _ he)) other member
  have both := (List.forall₂_and_left (p := fun entry => entry.1 < 65536) _ _).2 ⟨near, each⟩
  exact both.imp fun entry bytes row => row.2 row.1 ctx serves

/-- **The table of frames is read back** from frames that ascend, in versions that have it. -/
theorem yields_encodeFrames (labels : LabelTable) (major : UInt16) (frames : List (Nat × Frame)) :
    Yields (encodeFrames labels major frames) fun attributes t =>
      ∀ (ctx : BytecodeContext) (header : MethodHeader) (entry : Frame), ctx.Serves t labels →
        (writtenFrames labels major frames ≠ [] → header.entryFrame = .ok entry) →
        (frames.Pairwise fun a b => a.1 < b.1) →
        (∀ frame ∈ frames, frame.1 < ctx.length) → ∀ marks : Marks, marks.frames = [] →
          takeOver ctx header attributes marks = .ok (addFrames marks
            ((writtenFrames labels major frames).foldl addFrame (StackMap.start entry))) := by
  refine Yields.ite (fun none => Yields.pure ?_) fun some => ?_
  · intro t ctx header entry _ _ _ _ marks unframed
    have nothing : writtenFrames labels major frames = [] := by
      unfold writtenFrames
      split
      · rfl
      · next new => simpa [new] using none
    rw [nothing]
    show Except.ok marks = .ok { marks with mentioned := marks.mentioned, frames := [] }
    rw [← unframed]
  · simp only [Bool.or_eq_true, decide_eq_true_eq, not_or] at some
    refine (Yields.count _ _).bind fun count => ?_
    rw [withDeltas_eq]
    refine (yields_encodeDeltas labels none frames).bind fun body => Yields.pure ?_
    rintro t ⟨chunks, rfl, each⟩ ⟨fits, rfl⟩ ctx header entry serves typed ascending inside marks _
    have short := serves.short
    have rows := reads_frames (m := StackMap.start entry) ascending (fun _ h => (nomatch h)) inside
      (each ctx serves fun frame member => by have := inside frame member; omega)
    have count : Reads Decoder.word (Bytes.ofNat 2 frames.length) (UInt16.ofNat frames.length) :=
      Reads.word_ofNat rfl (UInt16.toNat_ofNat_of_lt' fits)
    have whole : (StackMap.decode ctx entry).onBytes
        (Bytes.ofNat 2 frames.length ++ chunks.flatten)
          = .ok ((frames.map fun e => (e.1, e.2.mapLabels labels.resolve)).foldl addFrame
            (StackMap.start entry)) := by
      refine Reads.onBytes (count.bind ?_)
      rw [UInt16.toNat_ofNat_of_lt' fits]
      exact rows
    simp only [takeOver, List.foldlM_cons, List.foldlM_nil]
    show (decodeTable ctx header marks _ .frames >>= pure) = _
    have written : writtenFrames labels major frames ≠ [] := by
      rw [writtenFrames, if_neg some.1]
      simpa using some.2
    rw [decodeTable, typed written]
    show ((StackMap.decode ctx entry).onBytes _ >>= fun table =>
      Except.ok (ε := Failure) (addFrames marks table)) >>= pure = _
    rw [whole, writtenFrames, if_neg some.1]
    rfl

end Code

end ClassInstrument
