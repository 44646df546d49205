import ClassInstrument.Proofs.Bytes.Gives
import ClassInstrument.Proofs.Code.Gathered

/-!
# What tables say that were read

Whatever the bytes of the tables behind the code are: what they say about an offset is only
said together with the offset, so that nothing in a body refers to an offset that was not mentioned.

* `StackMap.Sound` — frames whose offsets and sites were mentioned, kept by every change;
* `Marks.Sound` — what is known of marks, kept by every table;
* `Code.gives_tables` — **all that is said about offsets mentions them**;
* `Marks.signedFirst_takeSignature` — of the variables that share scope and slot only the first one
  has a signature.
-/

namespace ClassInstrument

open Decoder

/-! ### Frames -/

/-- Types of fields name no allocation sites. -/
theorem FieldType.site?_verificationType (type : FieldType) :
    type.verificationType.site? = none := by
  cases type <;> rfl

/-- No instance is without constructor at the start of a body, but the receiver. -/
theorem MethodHeader.sites_entryFrame {m : MethodHeader} {entry : Frame}
    (h : m.entryFrame = .ok entry) : entry.sites = [] := by
  obtain ⟨type, -, h⟩ := Traverse.bind_eq_ok_iff.1 h
  cases h
  have receiver : m.receiver.site? = none := by
    unfold MethodHeader.receiver
    split <;> rfl
  have params : (type.params.map FieldType.verificationType).filterMap VerificationType.site? = [] := by
    rw [List.filterMap_map, List.filterMap_eq_nil_iff]
    exact fun type _ => type.site?_verificationType
  unfold Frame.sites
  simp only [List.append_nil, List.filterMap_append, params]
  split
  · rfl
  · rw [List.filterMap_cons_none receiver]
    rfl

/-- A change names the sites of the next frame, or they are those of the frame before. -/
theorem FrameChange.sites_next? {frame next : Frame} {change : FrameChange}
    (h : change.next? frame = some next) {l : Label} (site : l ∈ next.sites) :
    l ∈ frame.sites ∨ l ∈ change.types.filterMap VerificationType.site? := by
  unfold Frame.sites at site ⊢
  simp only [List.mem_filterMap, List.mem_append] at site ⊢
  obtain ⟨type, member, same⟩ := site
  cases change with
  | same =>
    cases h
    exact .inl ⟨type, .inl (member.resolve_right List.not_mem_nil), same⟩
  | item entry =>
    cases h
    exact member.imp (fun inside => ⟨type, .inl inside, same⟩) fun inside => ⟨type, inside, same⟩
  | chop count =>
    rw [next?] at h
    split at h
    · cases h
      refine .inl ⟨type, .inl ?_, same⟩
      exact List.mem_of_mem_take (member.resolve_right List.not_mem_nil)
    · cases h
  | append locals =>
    cases h
    exact (List.mem_append.1 (member.resolve_right List.not_mem_nil)).imp
      (fun inside => ⟨type, .inl inside, same⟩) fun inside => ⟨type, inside, same⟩
  | full locals stack =>
    cases h
    exact .inr ⟨type, List.mem_append.2 member, same⟩

/-- The offsets and sites of all frames were mentioned. -/
structure StackMap.Sound (m : StackMap) : Prop where
  current : ∀ l ∈ m.current.sites, l.index ∈ m.mentioned
  frames : ∀ e ∈ m.frames, e.1 ∈ m.mentioned ∧ ∀ l ∈ e.2.sites, l.index ∈ m.mentioned

namespace StackMap

theorem sound_start {entry : Frame} (none : entry.sites = []) : (start entry).Sound := by
  refine ⟨fun l site => ?_, fun _ h => (nomatch h)⟩
  rw [show (start entry).current = entry from rfl, none] at site
  cases site

/-- **Every change keeps it so.** -/
theorem Sound.extend {m next : StackMap} (sound : m.Sound) {length delta : Nat}
    {change : FrameChange} (h : m.extend length delta change = .ok next) : next.Sound := by
  unfold StackMap.extend at h
  split at h
  · cases h
  · next frame changed =>
    dsimp only at h
    split at h
    · cases h
    · cases h
      have sites : ∀ l ∈ frame.sites, l.index ∈ m.offset delta ::
          ((change.types.filterMap VerificationType.site?).map Label.index).reverse
            ++ m.mentioned := by
        intro l site
        rcases FrameChange.sites_next? changed site with before | named
        · exact List.mem_append_right _ (sound.current l before)
        · refine List.mem_append_left _ (List.mem_cons_of_mem _ (List.mem_reverse.2 ?_))
          exact List.mem_map_of_mem named
      refine ⟨sites, List.forall_mem_cons.2 ⟨⟨List.mem_append_left _ List.mem_cons_self, sites⟩, ?_⟩⟩
      intro e member
      obtain ⟨offset, earlier⟩ := sound.frames e member
      exact ⟨List.mem_append_right _ offset, fun l site => List.mem_append_right _ (earlier l site)⟩

theorem gives_decode (ctx : BytecodeContext) {entry : Frame} (none : entry.sites = []) :
    Gives (StackMap.decode ctx entry) Sound := by
  refine (Gives.any _).bind fun count _ => Gives.iterate (fun m sound => ?_) _ (sound_start none)
  exact (Gives.any _).bind fun row _ => Gives.ofExcept fun next h => sound.extend h

end StackMap

/-! ### Marks -/

/-- Everything that is said about an offset mentions it, besides those that were mentioned before;
frames are said only of a method whose parameters can be told. -/
structure Marks.Sound (header : MethodHeader) (before : List Nat) (m : Marks) : Prop where
  before : ∀ o ∈ before, o ∈ m.mentioned
  lines : ∀ row ∈ m.lines, row.1 ∈ m.mentioned
  frames : ∀ e ∈ m.frames, e.1 ∈ m.mentioned ∧ ∀ l ∈ e.2.sites, l.index ∈ m.mentioned
  typed : m.frames ≠ [] → ∃ entry, header.entryFrame = .ok entry
  localVariables : ∀ e ∈ m.localVariables, e.1 = Code.scopeKey e.2
    ∧ e.2.start.index ∈ m.mentioned ∧ e.2.finish.index ∈ m.mentioned
  forwards : ∀ e ∈ m.localVariables, e.2.start.index ≤ e.2.finish.index

namespace Marks

variable {header : MethodHeader} {before : List Nat} {m : Marks}

theorem sound_start (mentioned : List Nat) : (start mentioned).Sound header mentioned :=
  ⟨fun _ h => h, fun _ h => (nomatch h), fun _ h => (nomatch h), fun h => absurd rfl h,
    fun _ h => (nomatch h), fun _ h => (nomatch h)⟩

/-- What is mentioned stays so when more is mentioned. -/
theorem Sound.mention (sound : m.Sound header before) (more : List Nat) :
    Sound header before { m with mentioned := more ++ m.mentioned } where
  before := fun o h => List.mem_append_right _ (sound.before o h)
  lines := fun row h => List.mem_append_right _ (sound.lines row h)
  frames := fun e h => ⟨List.mem_append_right _ (sound.frames e h).1,
    fun l site => List.mem_append_right _ ((sound.frames e h).2 l site)⟩
  typed := sound.typed
  localVariables := fun e h => ⟨(sound.localVariables e h).1,
    List.mem_append_right _ (sound.localVariables e h).2.1,
    List.mem_append_right _ (sound.localVariables e h).2.2⟩
  forwards := sound.forwards

end Marks

namespace Code

variable {ctx : BytecodeContext} {header : MethodHeader} {before : List Nat} {m : Marks}

theorem index_of_target {offset : Int} {l : Label} (h : ctx.target offset = .ok l) :
    l.index = offset.toNat := by
  unfold BytecodeContext.target at h
  split at h
  · cases h
    rfl
  · cases h

theorem gives_decodeLine (sound : m.Sound header before) :
    Gives (decodeLine ctx m) (Marks.Sound header before) := by
  refine (Gives.any _).bind fun start _ => (Gives.any _).bind fun line _ => ?_
  refine (Gives.any _).bind fun l _ => .pure ?_
  have more := sound.mention [l.index]
  exact { more with lines := List.forall_mem_cons.2 ⟨List.mem_cons_self, more.lines⟩ }

theorem gives_decodeVariable (sound : m.Sound header before) :
    Gives (decodeVariable ctx m) (Marks.Sound header before) := by
  refine (Gives.any _).bind fun start _ => (Gives.any _).bind fun length _ => ?_
  refine (Gives.any _).bind fun name _ => (Gives.any _).bind fun desc _ => ?_
  refine (Gives.any _).bind fun index _ => ?_
  refine (Gives.ofExcept fun first h => index_of_target h).bind fun first atStart => ?_
  refine (Gives.ofExcept fun finish h => index_of_target h).bind fun finish atFinish => .pure ?_
  have more := sound.mention [finish.index, first.index]
  refine { more with
    localVariables := List.forall_mem_cons.2 ⟨⟨?_, ?_, ?_⟩, more.localVariables⟩
    forwards := List.forall_mem_cons.2 ⟨?_, more.forwards⟩ }
  · simp only [scopeKey, atStart, atFinish, Int.toNat_natCast, Nat.add_sub_cancel_left,
      UInt16.ofNat_toNat]
  · simp
  · simp
  · simp only [atStart, atFinish, Int.toNat_natCast, Nat.le_add_right]

theorem gives_decodeSignature (sound : m.Sound header before) :
    Gives (decodeSignature ctx m) (Marks.Sound header before) := by
  refine (Gives.any _).bind fun start _ => (Gives.any _).bind fun length _ => ?_
  refine (Gives.any _).bind fun _ _ => (Gives.any _).bind fun signature _ => ?_
  exact (Gives.any _).bind fun index _ => .pure { sound with }

theorem gives_decodeRows {row : Marks → Decoder Marks}
    (each : ∀ m, Marks.Sound header before m → Gives (row m) (Marks.Sound header before))
    (sound : m.Sound header before) : Gives (decodeRows row m) (Marks.Sound header before) :=
  (Gives.any _).bind fun _ _ => Gives.iterate each _ sound

/-- **Every table keeps it so.** -/
theorem sound_decodeTable (sound : m.Sound header before) {body : Bytes} {table : CodeTable}
    {m' : Marks} (h : decodeTable ctx header m body table = .ok m') : m'.Sound header before := by
  cases table with
  | lines => exact (gives_decodeRows (fun _ => gives_decodeLine) sound).onBytes h
  | localVariables => exact (gives_decodeRows (fun _ => gives_decodeVariable) sound).onBytes h
  | variableTypes => exact (gives_decodeRows (fun _ => gives_decodeSignature) sound).onBytes h
  | frames =>
    obtain ⟨entry, typed, h⟩ := Traverse.bind_eq_ok_iff.1 h
    obtain ⟨map, read, h⟩ := Traverse.bind_eq_ok_iff.1 h
    cases h
    have found := (StackMap.gives_decode ctx (MethodHeader.sites_entryFrame typed)).onBytes read
    have more := sound.mention map.mentioned
    exact { more with
      frames := fun e member => ⟨List.mem_append_left _ (found.frames e member).1,
        fun l site => List.mem_append_left _ ((found.frames e member).2 l site)⟩
      typed := fun _ => ⟨entry, typed⟩ }

theorem gives_decodeAttribute (options : ReadOptions) (sound : m.Sound header before) :
    Gives (decodeAttribute ctx header options m) (Marks.Sound header before) := by
  refine (Gives.any _).bind fun name _ => (Gives.any _).bind fun length _ => ?_
  refine (Gives.any _).bind fun body _ => ?_
  split
  · exact .ite (fun _ => .ofExcept fun _ h => sound_decodeTable sound h) fun _ => .pure sound
  · exact .pure sound

/-- **All that is said about offsets mentions them.** -/
theorem gives_tables (code : List (Nat × Instruction)) : Gives (tables ctx header code) fun read =>
    read.2.Sound header (mentions code read.1).reverse := by
  refine (Gives.any _).bind fun ranges _ => (Gives.any _).bind fun count _ => ?_
  refine (Gives.iterate (fun m sound => gives_decodeAttribute .all sound) _ (Marks.sound_start _)).bind ?_
  exact fun marks sound => .pure sound

end Code

namespace Marks

/-- The variables with their signatures, each from its own entry; of those that share scope and slot
only the first one has a signature. -/
theorem signedFirst_takeSignature {entries : List (VariableKey × LocalVariable)}
    (keys : ∀ e ∈ entries, e.1 = Code.scopeKey e.2) (signatures : Std.HashMap VariableKey String)
    (settled : List LocalVariable) : ∃ vs,
      (entries.foldl takeSignature (signatures, settled)).2 = vs.reverse ++ settled
        ∧ List.Forall₂ (fun e v => v = { e.2 with signature := v.signature }) entries vs
        ∧ SignedFirst vs
        ∧ ∀ v ∈ vs, signatures[Code.scopeKey v]? = none → v.signature = none := by
  induction entries generalizing signatures settled with
  | nil => exact ⟨[], rfl, .nil, .nil, fun _ h => (nomatch h)⟩
  | cons e entries ih =>
    obtain ⟨key, found⟩ := e
    obtain rfl : key = Code.scopeKey found := keys _ List.mem_cons_self
    obtain ⟨vs, same, each, signed, plain⟩ := ih (fun e he => keys e (List.mem_cons_of_mem _ he))
      (signatures.erase (Code.scopeKey found))
      ({ found with signature := signatures[Code.scopeKey found]? } :: settled)
    -- the signature is taken, so that later variables with this key find none
    refine ⟨{ found with signature := signatures[Code.scopeKey found]? } :: vs, ?_,
      .cons rfl each, List.pairwise_cons.2 ⟨fun w member shared => plain w member ?_, signed⟩, ?_⟩
    · rw [List.foldl_cons, List.reverse_cons, List.append_assoc]
      exact same
    · rw [shared]
      exact Std.HashMap.getElem?_erase_self
    · refine List.forall_mem_cons.2 ⟨fun none => none, fun v member none => plain v member ?_⟩
      rw [Std.HashMap.getElem?_erase, none]
      exact ite_self _

end Marks

end ClassInstrument
