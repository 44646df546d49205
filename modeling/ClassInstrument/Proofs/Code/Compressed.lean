import ClassInstrument.Proofs.Code.Gathered
import ClassInstrument.Proofs.Code.Sequenced
import ClassInstrument.Proofs.Descriptor

/-!
# Compressed tables of frames

A table of frames can be written in many ways: for most frames several forms describe the same
change, and a class can be named by several entries of the constant pool.  Here are all the ways
that there are, given without the decoder, and that each of them is read as the frames it stands
for.

* `VerificationType.Spelled` — the bytes of a type;
* `Frame.Described` — the seven forms of a frame, by the frame before it;
* `StackMap.Rows`, `StackMap.Table` — frames one behind the other, each at its distance;
* `Frame.Described.reads`, `StackMap.Rows.reads` — one form and several are read;
* `StackMap.Alike` — what is read is what is read of the same frames in full, down to the order in
  which offsets are mentioned;
* `Code.decodeTable_compressed` — **every compression of a table of frames expands to the same
  frames**.
-/

namespace ClassInstrument

open Decoder

/-! ### Bytes that stand for types and frames -/

/-- The bytes of a type.  Its label is the offset of the instruction that it refers to. -/
inductive VerificationType.Spelled (ctx : BytecodeContext) : VerificationType → Bytes → Prop where
  | top : Spelled ctx .top [0]
  | integer : Spelled ctx .integer [1]
  | float : Spelled ctx .float [2]
  | double : Spelled ctx .double [3]
  | long : Spelled ctx .long [4]
  | null : Spelled ctx .null [5]
  | uninitializedThis : Spelled ctx .uninitializedThis [6]
  | object {index : UInt16} {name : String} (named : ctx.pool.className index = .ok name) :
      Spelled ctx (.object name) (7 :: Word.encode index)
  | uninitialized {offset : Nat} (inside : offset ≤ ctx.length) :
      Spelled ctx (.uninitialized ⟨offset⟩) (8 :: Bytes.ofNat 2 offset)

/-- The bytes of several types, one behind the other. -/
def VerificationType.AllSpelled (ctx : BytecodeContext) (types : List VerificationType)
    (bytes : Bytes) : Prop :=
  ∃ chunks, bytes = chunks.flatten
    ∧ List.Forall₂ (fun chunk type => Spelled ctx type chunk) chunks types

open VerificationType (Spelled AllSpelled)

/-- The bytes of a frame at a distance, described by the frame before it.  The first byte is the
form, and in two forms the distance as well. -/
inductive Frame.Described (ctx : BytecodeContext) (before : Frame) :
    Nat → Frame → Bytes → Prop where
  | same {delta : Nat} (near : delta ≤ 63) :
      Described ctx before delta ⟨before.locals, []⟩ [UInt8.ofNat delta]
  | sameExtended {delta : Nat} :
      Described ctx before delta ⟨before.locals, []⟩ (251 :: Bytes.ofNat 2 delta)
  | item {delta : Nat} {entry : VerificationType} {bytes : Bytes} (near : delta ≤ 63)
      (spelled : Spelled ctx entry bytes) :
      Described ctx before delta ⟨before.locals, [entry]⟩ (UInt8.ofNat (64 + delta) :: bytes)
  | itemExtended {delta : Nat} {entry : VerificationType} {bytes : Bytes}
      (spelled : Spelled ctx entry bytes) :
      Described ctx before delta ⟨before.locals, [entry]⟩ (247 :: (Bytes.ofNat 2 delta ++ bytes))
  | chop {delta : Nat} {locals removed : List VerificationType}
      (whole : before.locals = locals ++ removed) (some : 1 ≤ removed.length)
      (few : removed.length ≤ 3) :
      Described ctx before delta ⟨locals, []⟩
        (UInt8.ofNat (251 - removed.length) :: Bytes.ofNat 2 delta)
  | append {delta : Nat} {added : List VerificationType} {bytes : Bytes}
      (some : 1 ≤ added.length) (few : added.length ≤ 3) (spelled : AllSpelled ctx added bytes) :
      Described ctx before delta ⟨before.locals ++ added, []⟩
        (UInt8.ofNat (251 + added.length) :: (Bytes.ofNat 2 delta ++ bytes))
  | full {delta : Nat} {locals stack : List VerificationType} {localBytes stackBytes : Bytes}
      (fewLocals : locals.length < 65536) (spelledLocals : AllSpelled ctx locals localBytes)
      (fewEntries : stack.length < 65536) (spelledStack : AllSpelled ctx stack stackBytes) :
      Described ctx before delta ⟨locals, stack⟩
        (255 :: (Bytes.ofNat 2 delta ++ ((Bytes.ofNat 2 locals.length ++ localBytes)
          ++ (Bytes.ofNat 2 stack.length ++ stackBytes))))

namespace StackMap

/-- The offset at a distance behind the frame before; the first is counted from the start. -/
def place : Option Nat → Nat → Nat
  | none, delta => delta
  | some previous, delta => previous + delta + 1

/-- The bytes of frames one behind the other, each described by the one before it. -/
inductive Rows (ctx : BytecodeContext) :
    Option Nat → Frame → List (Nat × Frame) → Bytes → Prop where
  | nil {previous : Option Nat} {before : Frame} : Rows ctx previous before [] []
  | cons {previous : Option Nat} {before frame : Frame} {delta : Nat} {frames : List (Nat × Frame)}
      {front behind : Bytes} (first : Frame.Described ctx before delta frame front)
      (others : Rows ctx (some (place previous delta)) frame frames behind) :
      Rows ctx previous before ((place previous delta, frame) :: frames) (front ++ behind)

/-- The bytes of a whole table, for a method with a given frame at its start. -/
def Table (ctx : BytecodeContext) (entry : Frame) (frames : List (Nat × Frame)) (bytes : Bytes) :
    Prop :=
  ∃ rows, bytes = Bytes.ofNat 2 frames.length ++ rows ∧ Rows ctx none entry frames rows

end StackMap

/-! ### Types are read -/

section Types

variable {ctx : BytecodeContext}

theorem BytecodeContext.reads_offset (short : ctx.length ≤ 65535) {offset : Nat}
    (inside : offset ≤ ctx.length) : Reads ctx.targetAt (Bytes.ofNat 2 offset) ⟨offset⟩ := by
  have toNat : (UInt16.ofNat offset).toNat = offset :=
    UInt16.toNat_ofNat_of_lt' (by show offset < 65536; omega)
  refine (Reads.word_ofNat rfl toNat).bind_pure (Reads.ofExcept ?_)
  rw [toNat]
  exact BytecodeContext.target_of_le inside

theorem VerificationType.Spelled.reads (short : ctx.length ≤ 65535) {type : VerificationType}
    {bytes : Bytes} (h : Spelled ctx type bytes) : Reads ctx.verificationType bytes type := by
  cases h with
  | top | integer | float | double | long | null | uninitializedThis =>
    exact Reads.byte (Reads.pure _)
  | @object index name named =>
    refine Reads.byte (Reads.bind_pure ?_ (Reads.pure _))
    exact (Reads.word index).bind_pure (Reads.ofExcept named)
  | uninitialized inside =>
    exact Reads.byte ((BytecodeContext.reads_offset short inside).bind_pure (Reads.pure _))

theorem VerificationType.AllSpelled.times (short : ctx.length ≤ 65535)
    {types : List VerificationType} {bytes : Bytes} (h : AllSpelled ctx types bytes) :
    Reads (Decoder.times types.length ctx.verificationType) bytes types := by
  obtain ⟨chunks, rfl, each⟩ := h
  exact Reads.times (each.imp fun _ _ spelled => spelled.reads short)

theorem VerificationType.AllSpelled.table (short : ctx.length ≤ 65535)
    {types : List VerificationType} {bytes : Bytes} (h : AllSpelled ctx types bytes)
    (few : types.length < 65536) :
    Reads (Decoder.table ctx.verificationType) (Bytes.ofNat 2 types.length ++ bytes) types := by
  obtain ⟨chunks, rfl, each⟩ := h
  exact Reads.table (each.imp fun _ _ spelled => spelled.reads short) few

end Types

/-! ### Forms of a frame are read -/

namespace FrameChange

/-- A change from one frame to another.  What it does not name was there before. -/
structure Leads (change : FrameChange) (before frame : Frame) : Prop where
  next : change.next? before = some frame
  types : ∃ kept, frame.locals ++ frame.stack = kept ++ change.types ∧ kept ⊆ before.locals

section Forms

variable {ctx : BytecodeContext} {kind : UInt8}

theorem decodeBody_same (high : kind.toNat ≤ 63) :
    decodeBody ctx kind = pure (kind.toNat, .same) := by
  rw [decodeBody, if_pos (UInt8.le_iff_toNat_le.2 high)]

theorem decodeBody_item (low : 63 < kind.toNat) (high : kind.toNat ≤ 127) :
    decodeBody ctx kind = (ctx.verificationType >>= fun entry =>
      pure (kind.toNat - 64, .item entry)) := by
  have past : ¬ kind ≤ 63 := fun h => absurd (UInt8.le_iff_toNat_le.1 h) (Nat.not_le.2 low)
  rw [decodeBody, if_neg past, if_pos (UInt8.le_iff_toNat_le.2 high)]

/-- What comes behind the distance in the forms that have one of their own. -/
def decodeExtended (ctx : BytecodeContext) (kind : UInt8) (delta : Nat) :
    Decoder (Nat × FrameChange) := do
  if kind == 247 then
    let entry ← ctx.verificationType
    return (delta, .item entry)
  else if kind ≤ 250 then return (delta, .chop (251 - kind.toNat))
  else if kind == 251 then return (delta, .same)
  else if kind ≤ 254 then
    let locals ← Decoder.times (kind.toNat - 251) ctx.verificationType
    return (delta, .append locals)
  else
    let locals ← Decoder.table ctx.verificationType
    let stack ← Decoder.table ctx.verificationType
    return (delta, .full locals stack)

theorem decodeBody_extended (low : 247 ≤ kind.toNat) :
    decodeBody ctx kind
      = (Decoder.word (α := UInt16) >>= fun delta => decodeExtended ctx kind delta.toNat) := by
  have notSame : ¬ kind ≤ 63 := fun h => by
    have : kind.toNat ≤ 63 := UInt8.le_iff_toNat_le.1 h
    omega
  have notItem : ¬ kind ≤ 127 := fun h => by
    have : kind.toNat ≤ 127 := UInt8.le_iff_toNat_le.1 h
    omega
  have notReserved : ¬ kind < 247 := fun h => by
    have : kind.toNat < 247 := UInt8.lt_iff_toNat_lt.1 h
    omega
  rw [decodeBody, if_neg notSame, if_neg notItem, if_neg notReserved]
  rfl

theorem reads_extended (low : 247 ≤ kind.toNat) {delta : Nat} (near : delta < 65536)
    {bytes : Bytes} {change : FrameChange}
    (h : Reads (decodeExtended ctx kind delta) bytes (delta, change)) :
    Reads (decode ctx) (kind :: (Bytes.ofNat 2 delta ++ bytes)) (delta, change) := by
  have toNat : (UInt16.ofNat delta).toNat = delta := UInt16.toNat_ofNat_of_lt' near
  refine Reads.byte ?_
  rw [decodeBody_extended low]
  refine (Reads.word_ofNat rfl toNat).bind ?_
  rwa [toNat]

/-- Such a form with nothing behind the distance. -/
theorem reads_bare (low : 247 ≤ kind.toNat) {delta : Nat} (near : delta < 65536)
    {change : FrameChange} (h : decodeExtended ctx kind delta = pure (delta, change)) :
    Reads (decode ctx) (kind :: Bytes.ofNat 2 delta) (delta, change) := by
  have whole : Reads (decode ctx) (kind :: (Bytes.ofNat 2 delta ++ [])) (delta, change) := by
    refine reads_extended low near ?_
    rw [h]
    exact Reads.pure _
  rwa [List.append_nil] at whole

end Forms

end FrameChange

/-- The number of locals that a form adds or takes away. -/
theorem eq_one_two_three {count : Nat} (some : 1 ≤ count) (few : count ≤ 3) :
    count = 1 ∨ count = 2 ∨ count = 3 := by
  omega

open FrameChange in
/-- **Every form of a frame is read** with its distance, as a change to that frame. -/
theorem Frame.Described.reads {ctx : BytecodeContext} (short : ctx.length ≤ 65535)
    {before frame : Frame} {delta : Nat} {bytes : Bytes} (near : delta < 65536)
    (h : Frame.Described ctx before delta frame bytes) :
    ∃ change, Reads (decode ctx) bytes (delta, change) ∧ change.Leads before frame := by
  cases h with
  | same small =>
    have toNat : (UInt8.ofNat delta).toNat = delta :=
      UInt8.toNat_ofNat_of_lt' (by show delta < 256; omega)
    refine ⟨.same, Reads.byte ?_, rfl, before.locals, rfl, fun _ => id⟩
    rw [decodeBody_same (by omega), toNat]
    exact Reads.pure _
  | sameExtended =>
    exact ⟨.same, reads_bare (by decide) near rfl, rfl, before.locals, rfl, fun _ => id⟩
  | @item entry bytes small spelled =>
    have toNat : (UInt8.ofNat (64 + delta)).toNat = 64 + delta :=
      UInt8.toNat_ofNat_of_lt' (by show 64 + delta < 256; omega)
    refine ⟨.item entry, Reads.byte ?_, rfl, before.locals, rfl, fun _ => id⟩
    rw [decodeBody_item (by omega) (by omega), toNat, Nat.add_sub_cancel_left]
    exact (spelled.reads short).bind_pure (Reads.pure _)
  | @itemExtended entry bytes spelled =>
    refine ⟨.item entry, reads_extended (by decide) near ?_, rfl, before.locals, rfl, fun _ => id⟩
    exact (spelled.reads short).bind_pure (Reads.pure _)
  | @chop locals removed whole some few =>
    have change : (FrameChange.chop removed.length).Leads before ⟨locals, []⟩ := by
      refine ⟨?_, locals, by simp [types], fun type mem => ?_⟩
      · simp [next?, whole]
      · rw [whole]
        exact List.mem_append_left _ mem
    refine ⟨.chop removed.length, ?_, change⟩
    rcases eq_one_two_three some few with one | two | three
    · rw [one]
      exact reads_bare (by decide) near rfl
    · rw [two]
      exact reads_bare (by decide) near rfl
    · rw [three]
      exact reads_bare (by decide) near rfl
  | @append added bytes some few spelled =>
    have change : (FrameChange.append added).Leads before ⟨before.locals ++ added, []⟩ :=
      ⟨rfl, before.locals, by simp [types], fun _ => id⟩
    have times := spelled.times short
    refine ⟨.append added, ?_, change⟩
    rcases eq_one_two_three some few with one | two | three
    · rw [one] at times ⊢
      exact reads_extended (by decide) near (times.bind_pure (Reads.pure _))
    · rw [two] at times ⊢
      exact reads_extended (by decide) near (times.bind_pure (Reads.pure _))
    · rw [three] at times ⊢
      exact reads_extended (by decide) near (times.bind_pure (Reads.pure _))
  | @full locals stack localBytes stackBytes fewLocals spelledLocals fewEntries spelledStack =>
    refine ⟨.full locals stack, reads_extended (by decide) near ?_, rfl, [], rfl, by simp⟩
    exact (spelledLocals.table short fewLocals).bind
      ((spelledStack.table short fewEntries).bind_pure (Reads.pure _))

/-! ### The order of mentions -/

namespace Numbering

theorem mention_congr {N M : Numbering} (h : N.Equiv M) (offset : Nat) :
    (N.mention offset).Equiv (M.mention offset) := by
  unfold mention
  rw [h.size_eq]
  exact h.insertIfNew offset M.size

theorem foldl_mention_congr {N M : Numbering} (h : N.Equiv M) (offsets : List Nat) :
    (offsets.foldl mention N).Equiv (offsets.foldl mention M) := by
  induction offsets generalizing N M with
  | nil => exact h
  | cons offset offsets ih => exact ih (mention_congr h offset)

/-- An offset that has a number keeps it. -/
theorem mention_of_mem {N : Numbering} {offset : Nat} (known : offset ∈ N) :
    (N.mention offset).Equiv N := by
  refine Std.HashMap.Equiv.of_forall_getElem?_eq fun other => ?_
  rw [mention, Std.HashMap.getElem?_insertIfNew, if_neg (by simp [known])]

theorem foldl_mention_of_mem {N : Numbering} {offsets : List Nat}
    (known : ∀ offset ∈ offsets, offset ∈ N) : (offsets.foldl mention N).Equiv N := by
  induction offsets with
  | nil => exact .refl N
  | cons offset offsets ih =>
    have first := mention_of_mem (known offset List.mem_cons_self)
    have others := ih fun other mem => known other (List.mem_cons_of_mem _ mem)
    exact (foldl_mention_congr first offsets).trans others

/-- Mentions that give the same numbers, whatever was mentioned before. -/
def Alike (xs ys : List Nat) : Prop :=
  ∀ earlier, (ofMentions (earlier ++ xs)).Equiv (ofMentions (earlier ++ ys))

theorem ofMentions_append (xs ys : List Nat) :
    ofMentions (xs ++ ys) = ys.foldl mention (ofMentions xs) := by
  simp only [ofMentions, List.foldl_append]

/-- Offsets that were mentioned before may be mentioned again. -/
theorem Alike.append_known {xs ys : List Nat} (h : Alike xs ys) {again : List Nat}
    (known : ∀ offset ∈ again, offset ∈ xs) (more : List Nat) :
    Alike (xs ++ more) (ys ++ (again ++ more)) := by
  intro earlier
  have same := h earlier
  have listed : ∀ offset ∈ again, offset ∈ ofMentions (earlier ++ ys) := fun offset mem =>
    same.mem_iff.1 (mem_ofMentions.2 (List.mem_append_right _ (known offset mem)))
  have repeated : (ofMentions (earlier ++ ys ++ again)).Equiv (ofMentions (earlier ++ ys)) := by
    rw [ofMentions_append]
    exact foldl_mention_of_mem listed
  have both := foldl_mention_congr (same.trans repeated.symm) more
  rw [← ofMentions_append, ← ofMentions_append] at both
  simpa only [List.append_assoc] using both

end Numbering

/-! ### Tables are read -/

namespace StackMap

open Code (addFrame)

variable {ctx : BytecodeContext}

/-- What was read of a table, and what would have been read of the same frames in full. -/
structure Alike (m full : StackMap) : Prop where
  current : m.current = full.current
  previous : m.previous = full.previous
  frames : m.frames = full.frames
  mentioned : Numbering.Alike m.mentioned.reverse full.mentioned.reverse
  /-- The next frame may name these without a mention. -/
  known : ∀ site ∈ m.current.locals.filterMap VerificationType.site?, site.index ∈ m.mentioned

theorem alike_start {entry : Frame}
    (plain : entry.locals.filterMap VerificationType.site? = []) :
    (start entry).Alike (start entry) where
  current := rfl
  previous := rfl
  frames := rfl
  mentioned := fun _ => .refl _
  known := by simp [start, plain]

theorem offset_eq_place (m : StackMap) (delta : Nat) : m.offset delta = place m.previous delta := by
  unfold offset place
  cases m.previous <;> rfl

/-- The sites that a frame names are those that were known and those that the change names. -/
theorem sites_of_leads {change : FrameChange} {before frame : Frame}
    (leads : change.Leads before frame) :
    ∃ again, frame.sites = again ++ change.types.filterMap VerificationType.site?
      ∧ ∀ site ∈ again, site ∈ before.locals.filterMap VerificationType.site? := by
  obtain ⟨kept, whole, known⟩ := leads.types
  refine ⟨kept.filterMap VerificationType.site?, ?_, fun site mem => ?_⟩
  · rw [Frame.sites, whole, List.filterMap_append]
  · obtain ⟨type, inside, named⟩ := List.mem_filterMap.1 mem
    exact List.mem_filterMap.2 ⟨type, known inside, named⟩

/-- One more frame, by a change or in full. -/
theorem Alike.extend {m full : StackMap} (h : m.Alike full) {length delta : Nat}
    {change : FrameChange} {frame : Frame} (leads : change.Leads m.current frame)
    (inside : place m.previous delta < length) :
    ∃ read, m.extend length delta change = .ok read
      ∧ read.Alike (addFrame full (place m.previous delta, frame)) := by
  obtain ⟨again, sites, known⟩ := sites_of_leads leads
  refine ⟨_, by rw [StackMap.extend, leads.next, offset_eq_place]; exact if_neg (by omega), ?_⟩
  have mentioned : ∀ offset ∈ again.map Label.index, offset ∈ m.mentioned.reverse := by
    intro offset mem
    obtain ⟨site, inside, rfl⟩ := List.mem_map.1 mem
    exact List.mem_reverse.2 (h.known site (known site inside))
  have order := h.mentioned.append_known mentioned
    ((change.types.filterMap VerificationType.site?).map Label.index
      ++ [place m.previous delta])
  exact {
    current := rfl
    previous := rfl
    frames := by simp only [addFrame, h.frames]
    mentioned := by
      simp only [addFrame, sites, List.map_append]
      simpa using order
    known := fun site mem => by
      have named : site ∈ frame.sites := by
        rw [Frame.sites, List.filterMap_append]
        exact List.mem_append_left _ mem
      rw [sites] at named
      rcases List.mem_append.1 named with old | new
      · simp [h.known site (known site old)]
      · simp [List.mem_map_of_mem new] }

/-- **Frames are read as they are described**, each from the one before it. -/
theorem Rows.reads (short : ctx.length ≤ 65535) {frames : List (Nat × Frame)} {bytes : Bytes}
    {m full : StackMap} (rows : Rows ctx m.previous m.current frames bytes)
    (inside : ∀ entry ∈ frames, entry.1 < ctx.length) (alike : m.Alike full) :
    ∃ read, Reads (iterate (decodeNext ctx) frames.length m) bytes read
      ∧ read.Alike (frames.foldl addFrame full) := by
  induction frames generalizing m full bytes with
  | nil =>
    cases rows
    exact ⟨m, fun _ _ => rfl, alike⟩
  | cons entry frames ih =>
    cases rows with
    | @cons _ _ frame delta _ front behind first others =>
      have here := inside _ List.mem_cons_self
      have near : delta < 65536 := by
        have : delta ≤ place m.previous delta := by
          unfold place
          split <;> omega
        simp only at here
        omega
      obtain ⟨change, reads, leads⟩ := first.reads short near
      obtain ⟨next, extended, alike⟩ := alike.extend leads here
      have step : Reads (decodeNext ctx m) front next := reads.bind_pure (Reads.ofExcept extended)
      have current : next.current = frame := alike.current
      have previous : next.previous = some (place m.previous delta) := alike.previous
      rw [← current, ← previous] at others
      obtain ⟨read, rest, alike⟩ := ih others
        (fun entry member => inside entry (List.mem_cons_of_mem _ member)) alike
      exact ⟨read, step.cons_iterate rest, alike⟩

/-- Frames one behind the other are no more than offsets. -/
theorem Rows.length_le {previous : Option Nat} {before : Frame} {frames : List (Nat × Frame)}
    {bytes : Bytes} (rows : Rows ctx previous before frames bytes) {bound : Nat}
    (inside : ∀ entry ∈ frames, entry.1 < bound) (room : place previous 0 ≤ bound) :
    place previous 0 + frames.length ≤ bound := by
  induction rows with
  | nil => exact room
  | @cons previous _ frame delta frames _ _ first others ih =>
    have here : place previous delta < bound := inside _ List.mem_cons_self
    have later : place previous delta + 1 + frames.length ≤ bound :=
      ih (fun entry member => inside entry (List.mem_cons_of_mem _ member)) here
    have ahead : place previous 0 ≤ place previous delta := by
      unfold place
      split <;> omega
    rw [List.length_cons]
    omega

/-- Offsets ascend from frame to frame. -/
theorem Rows.ascending {previous : Option Nat} {before : Frame} {frames : List (Nat × Frame)}
    {bytes : Bytes} (rows : Rows ctx previous before frames bytes) :
    (∀ entry ∈ frames, place previous 0 ≤ entry.1) ∧ frames.Pairwise fun a b => a.1 < b.1 := by
  induction rows with
  | nil => exact ⟨fun _ h => (nomatch h), .nil⟩
  | @cons previous _ frame delta frames _ _ first others ih =>
    obtain ⟨behind, ascending⟩ := ih
    have ahead : place previous 0 ≤ place previous delta := by
      unfold place
      split <;> omega
    have later : ∀ entry ∈ frames, place previous delta < entry.1 := behind
    refine ⟨fun entry member => ?_, List.pairwise_cons.2 ⟨later, ascending⟩⟩
    rcases List.mem_cons.1 member with rfl | member
    · exact ahead
    · exact Nat.le_of_lt (Nat.lt_of_le_of_lt ahead (later entry member))

/-- A table is read as the frames that it describes. -/
theorem Table.reads (short : ctx.length ≤ 65535) {entry : Frame} {frames : List (Nat × Frame)}
    {bytes : Bytes} (table : Table ctx entry frames bytes)
    (plain : entry.locals.filterMap VerificationType.site? = [])
    (inside : ∀ frame ∈ frames, frame.1 < ctx.length) :
    ∃ read, (decode ctx entry).onBytes bytes = .ok read
      ∧ read.Alike (frames.foldl addFrame (start entry)) := by
  obtain ⟨body, rfl, rows⟩ := table
  have few : frames.length < 65536 := by
    have := rows.length_le inside (Nat.zero_le _)
    simp only [place] at this
    omega
  obtain ⟨read, reads, alike⟩ := Rows.reads (m := start entry) short rows inside (alike_start plain)
  refine ⟨read, Reads.onBytes ((Reads.count few).bind ?_), alike⟩
  rw [UInt16.toNat_ofNat_of_lt' few]
  exact reads

end StackMap

/-! ### The frame at the start -/

/-- The frame at the start of a method of some type. -/
def MethodHeader.implicitFrame (m : MethodHeader) (type : MethodType) : Frame :=
  ⟨(if m.access.isStatic then [] else [m.receiver]) ++ type.params.map FieldType.verificationType,
    []⟩

theorem MethodHeader.entryFrame_of_valid {m : MethodHeader} {type : MethodType}
    (named : type.WellNamed) (valid : type.toText = m.desc) :
    m.entryFrame = .ok (m.implicitFrame type) := by
  have parsed : methodType m.desc = .ok type := by
    rw [methodType, MethodType.parse_eq_ok_iff.2 ⟨named, valid⟩]
    rfl
  rw [entryFrame, parsed]
  rfl

/-- No allocation site is named at the start. -/
theorem MethodHeader.sites_implicitFrame (m : MethodHeader) (type : MethodType) :
    (m.implicitFrame type).locals.filterMap VerificationType.site? = [] := by
  have params : (type.params.map FieldType.verificationType).filterMap VerificationType.site?
      = [] := by
    refine List.filterMap_eq_nil_iff.2 fun t mem => ?_
    obtain ⟨param, -, rfl⟩ := List.mem_map.1 mem
    cases param <;> rfl
  have receiver : m.receiver.site? = none := by
    unfold MethodHeader.receiver
    split <;> rfl
  rw [implicitFrame, List.filterMap_append, params, List.append_nil]
  split
  · rfl
  · simp [receiver]

namespace Code

/-! ### The whole table -/

theorem decodeTable_frames {ctx : BytecodeContext} {header : MethodHeader} {entry : Frame}
    (entered : header.entryFrame = .ok entry) (marks : Marks) (body : Bytes) :
    decodeTable ctx header marks body .frames
      = ((StackMap.decode ctx entry).onBytes body).map (addFrames marks) := by
  rw [decodeTable, entered]
  rfl

theorem takeOver_frames (ctx : BytecodeContext) (header : MethodHeader) (body : Bytes)
    (marks : Marks) : takeOver ctx header [⟨"StackMapTable", body⟩] marks
      = decodeTable ctx header marks body .frames := by
  simp [takeOver, CodeTable.ofName?]

/-- What is written for frames, with each of them in full, and where it can be read. -/
def WrittenFor (ctx : BytecodeContext) (frames : List (Nat × Frame)) (attributes : List Attribute) :
    Prop :=
  ∃ labels major written t t', t.WellFormed ∧ ¬ major < firstMajorWithFrames
    ∧ encodeFrames labels major written t = .ok attributes t' ∧ ctx.Serves t' labels
    ∧ frames = written.map fun entry => (entry.1, entry.2.mapLabels labels.resolve)

/-- The table that is written is one attribute, unless there is nothing to write. -/
theorem yields_encodeFrames_one (labels : LabelTable) {major : UInt16}
    {frames : List (Nat × Frame)} (recent : ¬ major < firstMajorWithFrames) (some : frames ≠ []) :
    Builder.Yields (encodeFrames labels major frames) fun attributes _ =>
      ∃ body, attributes = [⟨"StackMapTable", body⟩] := by
  refine Builder.Yields.ite (fun none => ?_) fun _ => ?_
  · simp [recent, some] at none
  · refine (Builder.Yields.count _ _).bind fun count => ?_
    refine (Builder.Yields.concat fun entry _ => yields_encodeFrame labels entry.1 entry.2).bind ?_
    exact fun body => Builder.Yields.pure fun _ _ _ => ⟨_, rfl⟩

/-- What is written in full is read as the frames, one after the other. -/
theorem decodeTable_written {ctx : BytecodeContext} {frames : List (Nat × Frame)}
    {attributes : List Attribute} (written : WrittenFor ctx frames attributes) (some : frames ≠ [])
    (ascending : frames.Pairwise fun a b => a.1 < b.1)
    (inside : ∀ frame ∈ frames, frame.1 < ctx.length) {header : MethodHeader} {entry : Frame}
    (entered : header.entryFrame = .ok entry) (marks : Marks) :
    ∃ body, attributes = [⟨"StackMapTable", body⟩] ∧ decodeTable ctx header marks body .frames
      = .ok (addFrames marks (frames.foldl addFrame (StackMap.start entry))) := by
  obtain ⟨labels, major, sources, t, t', wf, recent, run, serves, rfl⟩ := written
  have nonempty : sources ≠ [] := by simpa using some
  obtain ⟨-, -, one⟩ := yields_encodeFrames_one labels recent nonempty t attributes t' wf run
  obtain ⟨body, rfl⟩ := one t' (le_refl t')
  obtain ⟨-, -, read⟩ := yields_encodeFrames labels major sources t _ t' wf run
  -- a table replaces earlier frames, so that there may as well be none
  have taken := read t' (le_refl t') ctx header entry serves (fun _ => entered)
    (by simpa [List.pairwise_map] using ascending)
    (fun frame member => inside (frame.1, frame.2.mapLabels labels.resolve)
      (List.mem_map.2 ⟨frame, member, rfl⟩)) { marks with frames := [] } rfl
  have resolved : writtenFrames labels major sources
      = sources.map fun entry => (entry.1, entry.2.mapLabels labels.resolve) := if_neg recent
  rw [resolved] at taken
  refine ⟨body, rfl, ?_⟩
  rw [takeOver_frames, decodeTable_frames entered] at taken
  rw [decodeTable_frames entered]
  obtain ⟨found, decoded, same⟩ := Traverse.map_eq_ok_iff.1 taken
  rw [decoded]
  simp only [addFrames, Marks.mk.injEq, List.append_cancel_right_eq] at same
  simp [Except.map, addFrames, same.1, same.2.2.1]

/-- **Every compression of a table of frames expands to the same frames.**  For a method with a
valid descriptor, the bytes of any frames at ascending offsets in the code, each in any form that
describes it by the frame before it, are read as exactly these frames at these offsets.  That is
what is read of the table that is written for them, every one in full, and the offsets that are
mentioned on the way get the same numbers. -/
theorem decodeTable_compressed {ctx : BytecodeContext} {header : MethodHeader} {type : MethodType}
    {frames : List (Nat × Frame)} {bytes : Bytes} (named : type.WellNamed)
    (valid : type.toText = header.desc) (short : ctx.length ≤ 65535)
    (inside : ∀ frame ∈ frames, frame.1 < ctx.length)
    (table : StackMap.Table ctx (header.implicitFrame type) frames bytes) (marks : Marks) :
    ∃ read, decodeTable ctx header marks bytes .frames = .ok read
      ∧ read = { marks with mentioned := read.mentioned, frames := frames.reverse }
      ∧ ∀ other attributes, other.length = ctx.length → WrittenFor other frames attributes →
          frames ≠ [] → ∃ body full, attributes = [⟨"StackMapTable", body⟩]
            ∧ decodeTable other header marks body .frames = .ok full
            ∧ full = { read with mentioned := full.mentioned }
            ∧ ∀ offset : Nat, (Numbering.ofMentions full.mentioned.reverse)[offset]?
                = (Numbering.ofMentions read.mentioned.reverse)[offset]? := by
  have entered := MethodHeader.entryFrame_of_valid named valid
  have plain := header.sites_implicitFrame type
  obtain ⟨map, decoded, alike⟩ := table.reads short plain inside
  have same : map.frames = frames.reverse := by
    rw [alike.frames, frames_foldl_addFrame]
    exact List.append_nil _
  refine ⟨addFrames marks map, ?_, ?_, ?_⟩
  · rw [decodeTable_frames entered, decoded]
    rfl
  · rw [addFrames, same]
  · intro other attributes length written some
    obtain ⟨rows, -, described⟩ := table
    obtain ⟨body, rfl, full⟩ := decodeTable_written written some described.ascending.2
      (fun frame member => length ▸ inside frame member) entered marks
    refine ⟨body, _, rfl, full, ?_, fun offset => ?_⟩
    · simp only [addFrames, alike.frames]
    · simp only [addFrames, List.reverse_append]
      exact (alike.mentioned marks.mentioned.reverse).symm.getElem?_eq

/-- A static method with one parameter. -/
def mixedHeader : MethodHeader := ⟨"A", 0x0008, "m", "(I)V"⟩

/-- Frames of the method, each to be described in another form. -/
def mixedFrames : List (Nat × Frame) :=
  [(3, ⟨[.integer], []⟩), (8, ⟨[.integer, .float, .long], []⟩),
    (9, ⟨[.integer, .float, .long], [.uninitialized ⟨3⟩]⟩), (80, ⟨[.integer], []⟩),
    (90, ⟨[.integer], [.null]⟩), (91, ⟨[.integer], []⟩), (92, ⟨[.uninitializedThis], [.top]⟩)]

/-- The bytes of these frames: the same locals, two more locals, an entry on the stack, two locals
less, an entry far on, the same locals with a distance of its own, and a frame in full. -/
def mixedBytes : Bytes :=
  [0, 7] ++ ([3] ++ ([253, 0, 4, 2, 4] ++ ([64, 8, 0, 3] ++ ([249, 0, 70] ++ ([247, 0, 9, 5]
    ++ ([251, 0, 0] ++ ([255, 0, 0, 0, 1, 6, 0, 1, 0] ++ [])))))))

theorem mixed_table :
    StackMap.Table ⟨.empty, .empty, 100⟩ ⟨[.integer], []⟩ mixedFrames mixedBytes := by
  have two : AllSpelled ⟨.empty, .empty, 100⟩ [.float, .long] [2, 4] :=
    ⟨[[2], [4]], rfl, .cons .float (.cons .long .nil)⟩
  have this : AllSpelled ⟨.empty, .empty, 100⟩ [.uninitializedThis] [6] :=
    ⟨[[6]], rfl, .cons .uninitializedThis .nil⟩
  have top : AllSpelled ⟨.empty, .empty, 100⟩ [.top] [0] := ⟨[[0]], rfl, .cons .top .nil⟩
  have site : Spelled ⟨.empty, .empty, 100⟩ (.uninitialized ⟨3⟩) [8, 0, 3] :=
    .uninitialized (by decide)
  have two_less : Frame.Described ⟨.empty, .empty, 100⟩
      ⟨[.integer] ++ [.float, .long], [.uninitialized ⟨3⟩]⟩ 70 ⟨[.integer], []⟩ [249, 0, 70] :=
    @Frame.Described.chop _ _ 70 [.integer] [.float, .long] rfl (by decide) (by decide)
  refine ⟨_, rfl, ?_⟩
  refine .cons (show Frame.Described _ _ 3 _ _ from .same (by decide)) ?_
  refine .cons (show Frame.Described _ _ 4 _ _ from .append (by decide) (by decide) two) ?_
  refine .cons (show Frame.Described _ _ 0 _ _ from .item (by decide) site) ?_
  refine .cons (show Frame.Described _ _ 70 _ _ from two_less) ?_
  refine .cons (show Frame.Described _ _ 9 _ _ from .itemExtended .null) ?_
  refine .cons (show Frame.Described _ _ 0 _ _ from .sameExtended) ?_
  exact .cons (show Frame.Described _ _ 0 _ _ from .full (by decide) this (by decide) top) .nil

/-- The same frames, as they are written: the allocation site has a label. -/
def mixedSources : List (Nat × Frame) :=
  [(3, ⟨[.integer], []⟩), (8, ⟨[.integer, .float, .long], []⟩),
    (9, ⟨[.integer, .float, .long], [.uninitialized ⟨0⟩]⟩), (80, ⟨[.integer], []⟩),
    (90, ⟨[.integer], [.null]⟩), (91, ⟨[.integer], []⟩), (92, ⟨[.uninitializedThis], [.top]⟩)]

theorem mixed_writtenFor :
    ∃ attributes, WrittenFor ⟨.empty, .empty, 100⟩ mixedFrames attributes := by
  let labels : LabelTable := (∅ : LabelTable).insert ⟨0⟩ 3
  have resolved : labels.resolve ⟨0⟩ = ⟨3⟩ := by
    rw [LabelTable.resolve, Std.HashMap.getD_insert_self]
  have inside : ∀ l, (labels.resolve l).index ≤ 100 := by
    intro l
    rw [LabelTable.resolve, Std.HashMap.getD_insert]
    split <;> simp
  have site : Builder.ofExcept (labels.offset ⟨0⟩) = pure 3 := by
    rw [LabelTable.offset, Std.HashMap.getElem?_insert_self]
    rfl
  obtain ⟨attributes, run⟩ : ∃ attributes,
      encodeFrames labels 52 mixedSources = pure attributes := by
    have few : ∀ (what : String) (count : Nat), count < 65536 →
        Builder.count what count = pure (Bytes.ofNat 2 count) := by
      intro what count small
      rw [Builder.count, countField, if_pos small]
      rfl
    simp [encodeFrames, mixedSources, firstMajorWithFrames, few, Builder.concat,
      Builder.concatOnto, withDeltas, encodeFrame, encodeType, site]
  refine ⟨attributes, labels, 52, mixedSources, ⟨.empty, .empty⟩, ⟨.empty, .empty⟩,
    ⟨Pool.WellFormed.empty, BootstrapTable.WellFormed.empty⟩, by decide, by rw [run]; rfl,
    ⟨rfl, rfl, inside, by decide⟩, ?_⟩
  simp [mixedFrames, mixedSources, Frame.mapLabels, VerificationType.mapLabels, resolved]

/-- The mixed forms and what is written in full are read as the same frames. -/
theorem decodeTable_compressed_mixed :
    ∃ read full body,
      decodeTable ⟨.empty, .empty, 100⟩ mixedHeader (Marks.start []) mixedBytes .frames = .ok read
      ∧ read.frames.reverse = mixedFrames
      ∧ WrittenFor ⟨.empty, .empty, 100⟩ mixedFrames [⟨"StackMapTable", body⟩]
      ∧ decodeTable ⟨.empty, .empty, 100⟩ mixedHeader (Marks.start []) body .frames = .ok full
      ∧ full.frames.reverse = mixedFrames := by
  have named : MethodType.WellNamed ⟨[.int], none⟩ :=
    ⟨by simp [FieldType.WellNamed], by simp⟩
  obtain ⟨read, decoded, frames, agrees⟩ := decodeTable_compressed named
    (show _ = mixedHeader.desc by decide) (by decide) (by decide) mixed_table (Marks.start [])
  obtain ⟨attributes, written⟩ := mixed_writtenFor
  obtain ⟨body, full, rfl, other, same, -⟩ := agrees _ attributes rfl written (by decide)
  refine ⟨read, full, body, decoded, ?_, written, other, ?_⟩
  · rw [frames, List.reverse_reverse]
  · rw [same, frames, List.reverse_reverse]

end Code

end ClassInstrument
