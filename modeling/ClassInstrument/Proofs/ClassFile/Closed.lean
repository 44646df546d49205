import ClassInstrument.Proofs.ClassFile.RoundTrip
import ClassInstrument.Proofs.Code.Writable

/-!
# Classes that were read can be written

A class that was read can outgrow its class file once something is added to it, but as it is
nothing that its bodies say is in the way of writing it again.  This holds for malformed and
adversarial class files, too, as long as they are read at all.

* `ClassFile.code_of_decode` — every body in a class that was read is closed;
* `ClassFile.blameless_encode` — a class with closed bodies is written without a fault that lies in
  one of them;
* `ClassFile.decoded_closed` — **both together**, for all bytes and whatever is left out.
-/

namespace ClassInstrument

open Decoder

/-! ### Pools and headers -/

theorem Entry.blameless_encode (entry : Entry) : Blameless entry.encode := by
  cases entry with
  | utf8 text => exact (Blameless.countField _ _).bind fun _ _ => .ok _
  | _ => exact .ok _

theorem Header.blameless_encode (h : Header) : Blameless h.encode := by
  have pool : Blameless h.pool.encode := (Blameless.countField _ _).bind fun _ _ =>
    (Avoids.mapM fun entry _ => entry.blameless_encode).bind fun _ _ => .ok _
  exact pool.bind fun _ _ => .ok _

theorem BootstrapTable.blameless_encode (t : BootstrapTable) : Blameless t.encode :=
  (Blameless.countField _ _).bind fun _ _ => (Avoids.mapM fun _ _ =>
    (Blameless.countField _ _).bind fun _ _ => .ok _).bind fun _ _ => .ok _

namespace ClassFile

/-! ### Reading -/

section Reading

variable {pool : Pool} {bootstrap : BootstrapTable} {options : ReadOptions}

/-- A method has a body only if one was read. -/
theorem closed_of_decodeMethod {owner : String} {member : Field} {m : Method}
    (h : decodeMethod pool bootstrap options owner member = .ok m) :
    ∀ code, m.code = some code → code.Closed := by
  refine Traverse.foldlM_of_step (P := fun m : Method => ∀ code, m.code = some code → code.Closed)
    (fun _ none => absurd none (Option.some_ne_none _).symm) (fun m a _ m' closed h => ?_) h
  unfold methodAttribute at h
  split at h
  · obtain ⟨code, read, h⟩ := Traverse.bind_eq_ok_iff.1 h
    cases h
    intro code' same
    cases same
    exact Code.closed_of_decode read
  · obtain ⟨annotations, -, h⟩ := Traverse.bind_eq_ok_iff.1 h
    cases h
    exact closed
  · cases h
    exact closed

/-- **Every body in a class that was read is closed.** -/
theorem code_of_decode {bytes : Bytes} {c : ClassFile} (h : decode options bytes = .ok c) :
    ∀ m ∈ c.methods, ∀ code, m.code = some code → code.Closed := by
  obtain ⟨header, -, h⟩ := Traverse.bind_eq_ok_iff.1 h
  have given : Gives (bodyDecoder options header.minor header.major header.pool) fun c =>
      ∀ m ∈ c.methods, ∀ code, m.code = some code → code.Closed := by
    refine (Gives.any _).bind fun access _ => (Gives.any _).bind fun name _ => ?_
    refine (Gives.any _).bind fun superIndex _ => (Gives.any _).bind fun superName _ => ?_
    refine (Gives.any _).bind fun interfaces _ => (Gives.any _).bind fun fields _ => ?_
    refine (Gives.any _).bind fun members _ => (Gives.any _).bind fun attributes _ => ?_
    refine (Gives.any _).bind fun read _ => (Gives.any _).bind fun complete _ => ?_
    refine .ite (fun _ => .malformed) fun _ => ?_
    refine (Gives.ofExcept fun methods found => ?_).bind fun methods closed => .pure closed
    intro m member
    obtain ⟨part, -, own⟩ :=
      Traverse.exists_of_mem_right (Traverse.mapM_eq_ok_iff.1 found) member
    exact closed_of_decodeMethod own
  exact given.onBytes h

end Reading

/-! ### Writing -/

section Writing

variable {c : ClassFile} (closed : ∀ m ∈ c.methods, ∀ code, m.code = some code → code.Closed)

theorem blameless_annotationAttributes (annotations : Annotations) :
    (annotationAttributes annotations).Blameless := by
  have each : ∀ name list, (annotationList name list).Blameless := by
    intro name list
    have encoded := Annotation.blameless_encodeAll list
    exact .ite (fun _ => .pure _) fun _ => encoded.bind fun _ => .pure _
  rw [annotationAttributes_eq]
  exact (each _ _).bind fun _ => (each _ _).bind fun _ => .pure _

theorem blameless_encodeHead (access : Access) (name desc : String) :
    (encodeHead access name desc).Blameless :=
  (Builder.adds_addUtf8 name).blameless.bind fun _ =>
    (Builder.adds_addUtf8 desc).blameless.bind fun _ => .pure _

theorem blameless_encodeField (f : Field) : (encodeField f).Blameless :=
  (blameless_encodeHead _ _ _).bind fun _ => (Attribute.blameless_encodeAll _).bind fun _ => .pure _

include closed in
theorem blameless_encodeMethod (hierarchy : Hierarchy) {m : Method} (member : m ∈ c.methods) :
    (c.encodeMethod hierarchy .none m).Blameless := by
  have code : (codeAttributes c hierarchy .none m).Blameless := by
    unfold codeAttributes
    split
    · exact .pure _
    · next code known =>
      -- nothing is computed anew, so the body is written as it is
      have prepared : prepare hierarchy .none c.major (c.header m) code = .ok code := rfl
      rw [prepared]
      refine (Builder.Blameless.pure code).bind_of_ok fun _ same _ written => ?_
      cases written
      exact ((closed m member code known).blameless_encode _).bind fun _ => .pure _
  rw [encodeMethod_eq]
  refine (blameless_encodeHead _ _ _).bind fun _ => code.bind fun _ => ?_
  exact (blameless_annotationAttributes _).bind fun _ =>
    (Attribute.blameless_encodeAll _).bind fun _ => .pure _

theorem blameless_bootstrapAttribute : bootstrapAttribute.Blameless :=
  Builder.Blameless.bind (fun _ _ _ h => nomatch h) fun tables => .ite (fun _ => .pure _) fun _ =>
    (Builder.Blameless.ofExcept tables.bootstrap.blameless_encode).bind fun _ => .pure _

include closed in
/-- **A class with closed bodies is written** without a fault that lies in one of them. -/
theorem blameless_encode (hierarchy : Hierarchy) : Blameless (c.encode hierarchy .none) := by
  have body : (c.encodeBody hierarchy .none).Blameless := by
    refine (Builder.adds_addClass _).blameless.bind fun _ => ?_
    refine (Builder.adds_addOptionalClass _).blameless.bind fun _ => ?_
    refine (Builder.blameless_count _ _).bind fun _ => ?_
    refine (Builder.Blameless.concat fun name _ =>
      (Builder.adds_addClass name).blameless.map _).bind fun _ => ?_
    refine (Builder.blameless_count _ _).bind fun _ => ?_
    refine (Builder.Blameless.concat fun f _ => blameless_encodeField f).bind fun _ => ?_
    refine (Builder.blameless_count _ _).bind fun _ => ?_
    refine (Builder.Blameless.concat fun m member =>
      blameless_encodeMethod closed hierarchy member).bind fun _ => ?_
    refine (blameless_annotationAttributes _).bind fun _ => ?_
    refine blameless_bootstrapAttribute.bind fun _ => ?_
    exact (Attribute.blameless_encodeAll _).bind fun _ => .pure _
  intro e h
  unfold encode at h
  split at h
  · exact Header.blameless_encode _ e h
  · next found =>
    cases h
    exact body _ _ _ found

end Writing

/-- **What was read is closed and can be written again.**  In every body the labels that are
referred to are placed once, labels are numbered without gaps, opcodes are general ones with an
operand of their own kind, and no two frames stand in front of one instruction; so writing the
class does not fail with a fault that lies in a body. -/
theorem decoded_closed {options : ReadOptions} {bytes : Bytes} {c : ClassFile}
    (h : decode options bytes = .ok c) :
    (∀ m ∈ c.methods, ∀ code, m.code = some code → code.Closed)
      ∧ ∀ hierarchy fault, c.encode hierarchy .none = .error (.encoding fault) →
        fault.liesInBody = false := by
  have closed := code_of_decode h
  exact ⟨closed, fun hierarchy fault refused => blameless_encode closed hierarchy _ refused⟩

/-- The loop of the small class is read back as a closed body, and nothing in it keeps the class from
being written again. -/
theorem decoded_closed_small : ∃ bytes c, decode .all bytes = .ok c
    ∧ (∃ m ∈ c.methods, ∃ code, m.code = some code ∧ code.handlers ≠ [] ∧ code.localVariables ≠ [])
    ∧ (∀ m ∈ c.methods, ∀ code, m.code = some code → code.Closed)
    ∧ ∀ hierarchy fault, c.encode hierarchy .none = .error (.encoding fault) →
      fault.liesInBody = false := by
  obtain ⟨pool, bytes, regular, keys, written⟩ := regular_smallLooping
  obtain ⟨c, read, survives⟩ := exists_survivors regular.clean written
    (fun m inside code known => (regular.bodies m inside code known).readable) keys
  refine ⟨bytes, c, read, ?_, decoded_closed read⟩
  obtain ⟨m, inside, survivor⟩ := Traverse.exists_of_mem_right survives.flip
    (List.mem_singleton.2 rfl)
  rcases survivor.body with ⟨plain, -⟩ | ⟨code, code', known, known', -, view⟩
  · cases plain
  · cases known
    -- a range and a variable, as in the loop that was written
    have view : code'.view = looping.view.written 52 := view
    have handlers : code'.view.handlers.length = 1 := by
      rw [view]
      decide
    have scopes : code'.view.localVariables.length = 1 := by
      rw [view]
      decide
    refine ⟨m, inside, code', known', fun none => ?_, fun none => ?_⟩
    · simp [Code.view, none] at handlers
    · simp [Code.view, none] at scopes

end ClassFile

end ClassInstrument
