import ClassInstrument.Proofs.ClassFile.Undecoded
import ClassInstrument.Proofs.Code.Reduced

/-!
# Classes that are read in part

A reader can be told to leave out what is there for debuggers, or the frames.  It drops what it is told
to and nothing else: whatever else a class file says is read as if nothing had been left out.

* `Method.Reduced`, `ClassFile.Reduced` — a method and a class without what a reader leaves out;
* `ClassFile.exists_reducedMethod` — one method;
* `ClassFile.decode_reduced` — **every class file that can be read can be read in part**.
-/

namespace ClassInstrument

/-- Whether an attribute of a method stays. -/
def ReadOptions.keepsOfMethod (options : ReadOptions) (a : Attribute) : Bool :=
  !(options.skipDebug && a.name == "MethodParameters")

/-- Whether an attribute of a class stays. -/
def ReadOptions.keepsOfClass (options : ReadOptions) (a : Attribute) : Bool :=
  !(options.skipDebug && (a.name == "SourceFile" || a.name == "SourceDebugExtension"))

/-- **A method without what a reader leaves out.**  All of it that is not named here is the same. -/
structure Method.Reduced (options : ReadOptions) (full reduced : Method) : Prop where
  same : reduced = { full with
    code := reduced.code
    attributes := full.attributes.filter options.keepsOfMethod }
  code : Option.Rel (Code.Reduced options) full.code reduced.code

/-- **A class without what a reader leaves out.**  All of it that is not named here is the same. -/
structure ClassFile.Reduced (options : ReadOptions) (full reduced : ClassFile) : Prop where
  same : reduced = { full with
    methods := reduced.methods
    attributes := full.attributes.filter options.keepsOfClass }
  methods : List.Forall₂ (Method.Reduced options) full.methods reduced.methods

/-! ### Attributes -/

variable {options : ReadOptions}

/-- Of the attributes that are kept, those stay that are not left out. -/
theorem Attribute.filter_roleInMethod (bodies : options.skipCode = false)
    (attributes : List Attribute) :
    attributes.filter (fun a => a.roleInMethod options == .kept)
      = (attributes.filter fun a => a.roleInMethod .all == .kept).filter options.keepsOfMethod := by
  rw [List.filter_filter]
  refine List.filter_congr fun a _ => ?_
  unfold roleInMethod ReadOptions.keepsOfMethod
  rw [bodies]
  cases options.skipDebug <;> split_ifs <;> simp_all [ReadOptions.all]

theorem Attribute.filter_roleInClass (attributes : List Attribute) :
    attributes.filter (fun a => a.roleInClass options == .kept)
      = (attributes.filter fun a => a.roleInClass .all == .kept).filter options.keepsOfClass := by
  rw [List.filter_filter]
  refine List.filter_congr fun a _ => ?_
  unfold roleInClass ReadOptions.keepsOfClass
  generalize (a.name == "SourceFile" || a.name == "SourceDebugExtension") = source
  cases options.skipDebug <;> split_ifs <;> simp_all [ReadOptions.all]

/-! ### Methods and classes -/

/-- A reader that decodes bodies knows them by their name. -/
theorem Attribute.roleInMethod_eq_code_iff (bodies : options.skipCode = false) {a : Attribute} :
    a.roleInMethod options = .code ↔ a.name = Code.attributeName := by
  refine ⟨fun role => (name_of_code role).1, fun name => ?_⟩
  rw [roleInMethod, name, bodies]
  rfl

/-- Where a body is read as a whole, it is read in part. -/
theorem Code.exists_ofAttribute (bodies : options.skipCode = false) {t : ConstantTables}
    {header : MethodHeader} {full reduced : Option Code}
    (related : Option.Rel (Reduced options) full reduced) {a : Attribute} {code : Option Code}
    (h : ofAttribute t header .all full a = .ok code) :
    ∃ code', ofAttribute t header options reduced a = .ok code'
      ∧ Option.Rel (Reduced options) code code' := by
  by_cases body : a.name = attributeName
  · have role := (Attribute.roleInMethod_eq_code_iff (show ReadOptions.all.skipCode = false from rfl)).2 body
    have role' := (Attribute.roleInMethod_eq_code_iff bodies).2 body
    rw [ofAttribute, role] at h
    obtain ⟨found, read, rfl⟩ := Traverse.map_eq_ok_iff.1 h
    obtain ⟨found', read', reduces⟩ := exists_reduced read options
    refine ⟨some found', ?_, .some reduces⟩
    rw [ofAttribute, role']
    exact Traverse.map_eq_ok_iff.2 ⟨found', read', rfl⟩
  · rw [ofAttribute_of_ne fun role => body (Attribute.name_of_code role).1] at h
    cases h
    exact ⟨reduced, ofAttribute_of_ne (fun role => body (Attribute.name_of_code role).1) _, related⟩

namespace ClassFile

variable {t : ConstantTables} {owner : String}

/-- Where a method is read as a whole, it is read in part. -/
theorem exists_reducedMethod (bodies : options.skipCode = false) {part : Field} {full : Method}
    (read : decodeMethod t.pool t.bootstrap .all owner part = .ok full) :
    ∃ reduced, decodeMethod t.pool t.bootstrap options owner part = .ok reduced
      ∧ full.Reduced options reduced := by
  obtain ⟨annotations, code, own, body, rfl⟩ := decodeMethod_eq_ok_iff.1 read
  obtain ⟨code', body', related⟩ := Traverse.exists_foldlM (R := Option.Rel (Code.Reduced options))
    (g := Code.ofAttribute t ⟨owner, part.access, part.name, part.desc⟩ options)
    (fun a _ s s' _ related step => Code.exists_ofAttribute bodies related step) .none body
  refine ⟨_, decodeMethod_eq_ok_iff.2 ⟨annotations, code', own, body', rfl⟩, ?_, related⟩
  dsimp only
  rw [Attribute.filter_roleInMethod bodies]

/-- **A reader drops what it is told to, and nothing else.**  If the bytes are a class file, they are one
for a reader that leaves out what is there for debuggers, or the frames, or both.  Then the lines, the
local variables, the attributes that tell where the source is and the one for parameters are missing,
or the frames, and all else is the same; in the bodies all that refers to an instruction refers to the
same one. -/
theorem decode_reduced {bytes : Bytes} {full : ClassFile} (read : decode .all bytes = .ok full)
    (skipDebug skipFrames : Bool) :
    ∃ reduced, decode ⟨false, skipDebug, skipFrames⟩ bytes = .ok reduced
      ∧ full.Reduced ⟨false, skipDebug, skipFrames⟩ reduced := by
  generalize same : ReadOptions.mk false skipDebug skipFrames = options
  have bodies : options.skipCode = false := by rw [← same]
  obtain ⟨header, s, decoded, parts, reading⟩ := ClassSkeleton.exists_parts read
  obtain ⟨own, attributes, made⟩ := Traverse.bind_eq_ok_iff.1 ((reading .all).symm.trans read)
  obtain ⟨methods, each, made⟩ := Traverse.bind_eq_ok_iff.1 made
  cases made
  have both : List.Forall₂ (fun part full => ∃ reduced,
      decodeMethod header.pool own.bootstrap options s.name part = .ok reduced
        ∧ full.Reduced options reduced) s.members methods :=
    (Traverse.mapM_eq_ok_iff.1 each).imp fun part full read =>
      exists_reducedMethod (t := ⟨header.pool, own.bootstrap⟩) bodies read
  obtain ⟨reduced, partial', related⟩ := Traverse.forall₂_exists both
  refine ⟨s.build options header.minor header.major header.pool own reduced, ?_, ?_, related⟩
  · rw [reading options, ClassSkeleton.interpret, classAttribute_options options .all, attributes]
    exact Traverse.bind_eq_ok_iff.2 ⟨own, rfl,
      Traverse.bind_eq_ok_iff.2 ⟨reduced, Traverse.mapM_eq_ok_iff.2 partial', rfl⟩⟩
  · unfold ClassSkeleton.build
    dsimp only
    rw [Attribute.filter_roleInClass]

/-! ### A class with lines and frames -/

/-- A body that jumps to its end, with a line at its start and a frame at its end. -/
def tabledBytes : Bytes :=
  [0, 0, 0, 0, 0, 0, 0, 4] ++ [Opcode.goto, 0, 3, Opcode.vreturn] ++ [0, 0, 0, 2]
    ++ [0, 6, 0, 0, 0, 6, 0, 1, 0, 0, 0, 7] ++ [0, 7, 0, 0, 0, 3, 0, 1, 3]

/-- The header of a class file with that body and the name of its source. -/
def tabledHeader : Header where
  minor := 0
  major := 52
  pool := .ofEntries [.utf8 "A", .classRef 1, .utf8 "m", .utf8 "()V", .utf8 "Code",
    .utf8 "LineNumberTable", .utf8 "StackMapTable", .utf8 "SourceFile", .utf8 "A.java"]
  body := [0, 0x21, 0, 2, 0, 0, 0, 0, 0, 0, 0, 1, 0, 9, 0, 3, 0, 4, 0, 1, 0, 5, 0, 0, 0, 37]
    ++ tabledBytes ++ [0, 1, 0, 8, 0, 0, 0, 2, 0, 9]

/-- The class in it, with its body left undecoded. -/
def tabledClass (pool : Pool) : ClassFile where
  minor := 0
  major := 52
  access := 0x21
  name := "A"
  superName := none
  interfaces := []
  fields := []
  methods := [⟨0x0009, "m", "()V", .empty, none, [⟨Code.attributeName, tabledBytes⟩]⟩]
  annotations := .empty
  attributes := [⟨"SourceFile", [0, 9]⟩]
  constants := ⟨pool, .empty⟩

/-- The body is read as a whole. -/
theorem exists_decode_tabled {pool : Pool} (slots : pool.slots = tabledHeader.pool.slots) :
    ∃ code, Code.decode pool .empty ⟨"A", 0x0009, "m", "()V"⟩ .all tabledBytes = .ok code := by
  obtain ⟨entries, lookup⟩ := pool
  dsimp only at slots
  subst slots
  exact Code.exists_decode_of_parts (0, 0, 4, [Opcode.goto, 0, 3, Opcode.vreturn])
    [(0, .op Opcode.goto (.jump ⟨3⟩)), (3, .op Opcode.vreturn .none)] []
    (m := ⟨[3, 0, 3], [(0, 7)], [(3, ⟨[], []⟩)], [], ∅⟩) rfl rfl rfl (by decide)

theorem decode_reduced_tabled : ∃ bytes full reduced, decode .all bytes = .ok full
    ∧ (∃ m ∈ full.methods, m.code.isSome) ∧ full.attributes = [⟨"SourceFile", [0, 9]⟩]
    ∧ decode ⟨false, true, true⟩ bytes = .ok reduced ∧ full.Reduced ⟨false, true, true⟩ reduced
    ∧ reduced.attributes = [] := by
  obtain ⟨bytes, encoded⟩ : ∃ bytes, tabledHeader.encode = .ok bytes := ⟨_, rfl⟩
  have wf : tabledHeader.pool.WellFormed :=
    Pool.WellFormed.empty.foldl_push (by decide) (by decide)
  obtain ⟨pool, -, slots, decoded⟩ := Header.decode_encode wf (by decide) (by decide) encoded
  have without : decode .withoutBodies bytes = .ok (tabledClass pool) :=
    decode_of_header decoded slots fun _ => rfl
  have skeleton : (ClassSkeleton.decoder pool).onBytes tabledHeader.body
      = .ok ⟨0x21, "A", none, [], [],
        [⟨0x0009, "m", "()V", [⟨Code.attributeName, tabledBytes⟩]⟩], [⟨"SourceFile", [0, 9]⟩]⟩ := by
    obtain ⟨entries, lookup⟩ := pool
    dsimp only at slots
    subst slots
    rfl
  obtain ⟨code, read⟩ := exists_decode_tabled slots
  have body : [Attribute.mk Code.attributeName tabledBytes].foldlM
      (Code.ofAttribute ⟨pool, .empty⟩ ⟨"A", 0x0009, "m", "()V"⟩ .all) none = .ok (some code) := by
    show (Code.decode pool .empty ⟨"A", 0x0009, "m", "()V"⟩ .all tabledBytes).map some >>= _ = _
    rw [read]
    rfl
  have method : decodeMethod pool .empty .all "A"
      ⟨0x0009, "m", "()V", [⟨Code.attributeName, tabledBytes⟩]⟩
        = .ok ⟨0x0009, "m", "()V", .empty, some code, []⟩ :=
    (decodeMethod_eq_ok_iff (t := ⟨pool, .empty⟩)).2 ⟨.empty, some code, rfl, body, rfl⟩
  have all : decode .all bytes = .ok { tabledClass pool with
      methods := [⟨0x0009, "m", "()V", .empty, some code, []⟩] } :=
    ClassSkeleton.decode_of_parts without decoded skeleton ⟨.empty, .empty⟩ rfl
      (Traverse.mapM_eq_ok_iff.2 (.cons method .nil))
  obtain ⟨reduced, part, reduces⟩ := decode_reduced all true true
  refine ⟨bytes, _, reduced, all, ⟨_, List.mem_singleton_self _, rfl⟩, rfl, part, reduces, ?_⟩
  rw [reduces.same]
  rfl

end ClassFile

end ClassInstrument
