import ClassInstrument.Proofs.Code.Attribute
import ClassInstrument.Proofs.Code.Spelled

/-!
# Instructions read back

The writer picks one of the encodings of an instruction.  So its bytes are read back as the
instruction in general form, with its labels resolved and the keys of a switch in order, in every
context whose constants are later ones.

* `Operand.Representable` — the constants in an operand can be found again;
* `Operand.isEmptyTable` — **the one operand that is written but not read**: a table of no keys;
* `Item.spelled_opBytes` — every other instruction is written in one of its encodings;
* `Item.readsOp_opBytes` — **every other instruction that is written is read back**;
* `Item.refusesOp_opBytes` — a table of no keys is refused.
-/

namespace ClassInstrument

open Decoder

/-- The constants in an operand can be found again. -/
def Operand.Representable : Operand → Prop
  | .load c => c.nesting ≤ Pool.dynamicLevels ∧ ∀ h ∈ c.handles, h.Representable
  | .invokeDynamic call => call.nesting ≤ Pool.dynamicLevels ∧ ∀ h ∈ call.handles, h.Representable
  | _ => True

/-- A switch over a range of keys with no keys in it. -/
def Operand.isEmptyTable : Operand → Bool
  | .tableSwitch _ _ _ targets => targets.isEmpty
  | _ => false

open Instruction (Spelled)

namespace BytecodeContext

variable {ctx : BytecodeContext} {t : ConstantTables} {labels : LabelTable} {offset : Nat}

/-! ### Distances -/

/-- A distance and the offset of the label that it leads to. -/
theorem distance_eq_ok {labels : LabelTable} {offset : Nat} {l : Label} {distance : Int}
    (h : labels.distance offset l = .ok distance) :
    offset + distance = ((labels.resolve l).index : Int) := by
  obtain ⟨target, known, h⟩ := Traverse.bind_eq_ok_iff.1 h
  cases h
  rw [LabelTable.resolve_of_offset known]
  show (offset : Int) + (target - offset) = target
  omega

/-- Four bytes are enough for every distance in a body. -/
theorem Serves.toInt_distance (serves : ctx.Serves t labels) {l : Label} {distance : Int}
    (h : labels.distance offset l = .ok distance) (inside : offset ≤ 65535) :
    (Int32.ofInt distance).toInt = distance := by
  have bound := serves.inside l
  have short := serves.short
  have same := distance_eq_ok h
  exact Int32.toInt_ofInt_of_le (by omega) (by omega)

theorem Serves.reaches (serves : ctx.Serves t labels) {l : Label} {bytes : Bytes}
    (h : Item.farBytes labels offset l = .ok bytes) (inside : offset ≤ 65535) :
    ctx.Reaches offset (labels.resolve l) bytes := by
  obtain ⟨distance, known, h⟩ := Traverse.bind_eq_ok_iff.1 h
  cases h
  refine .far ?_ (serves.inside l)
  rw [serves.toInt_distance known inside]
  exact distance_eq_ok known

/-! ### Numbers -/

theorem spelled_byte {value : Int32} (fits : fitsByte value.toInt = true) :
    Spelled ctx offset (.op Opcode.bipush (.int value))
      (Opcode.bipush :: Word.encode value.toInt8) := by
  simp only [fitsByte, Bool.and_eq_true, decide_eq_true_eq] at fits
  have back : value.toInt8.toInt32 = value := by
    rw [← Int32.toInt_inj, Int8.toInt_toInt32, Int32.toInt_toInt8]
    exact Int.bmod_eq_of_le (by omega) (by omega)
  have plain : Spelled ctx offset (.op Opcode.bipush (.int value.toInt8.toInt32))
      (Opcode.bipush :: Word.encode value.toInt8) := .byte value.toInt8
  rwa [back] at plain

theorem spelled_short {value : Int32} (fits : fitsShort value.toInt = true) :
    Spelled ctx offset (.op Opcode.sipush (.int value))
      (Opcode.sipush :: Word.encode value.toInt16) := by
  simp only [fitsShort, Bool.and_eq_true, decide_eq_true_eq] at fits
  have back : value.toInt16.toInt32 = value := by
    rw [← Int32.toInt_inj, Int16.toInt_toInt32, Int32.toInt_toInt16]
    exact Int.bmod_eq_of_le (by omega) (by omega)
  have plain : Spelled ctx offset (.op Opcode.sipush (.int value.toInt16.toInt32))
      (Opcode.sipush :: Word.encode value.toInt16) := .short value.toInt16
  rwa [back] at plain

/-- A number that fits a byte without a sign is read as itself. -/
theorem toInt32_byte {value : Int32} (low : 0 ≤ value.toInt) (high : value.toInt < 256) :
    (UInt8.ofNat value.toInt.toNat).toUInt32.toInt32 = value := by
  have byte : (UInt8.ofNat value.toInt.toNat).toUInt32.toNat = value.toInt.toNat := by
    rw [UInt8.toNat_toUInt32]
    exact UInt8.toNat_ofNat_of_lt' (by show _ < 256; omega)
  rw [← Int32.toInt_inj]
  show (UInt8.ofNat value.toInt.toNat).toUInt32.toBitVec.toInt = value.toInt
  rw [BitVec.toInt_eq_toNat_of_lt]
  · show ((UInt8.ofNat value.toInt.toNat).toUInt32.toNat : Int) = value.toInt
    rw [byte]
    omega
  · show 2 * (UInt8.ofNat value.toInt.toNat).toUInt32.toNat < 2 ^ 32
    rw [byte]
    omega

theorem spelled_elementType {value : Int32} (low : 0 ≤ value.toInt) (high : value.toInt < 256) :
    Spelled ctx offset (.op Opcode.newarray (.int value))
      [Opcode.newarray, UInt8.ofNat value.toInt.toNat] := by
  have plain : Spelled ctx offset
      (.op Opcode.newarray (.int (UInt8.ofNat value.toInt.toNat).toUInt32.toInt32))
      [Opcode.newarray, UInt8.ofNat value.toInt.toNat] := .elementType _
  rwa [toInt32_byte low high] at plain

/-! ### Variables -/

/-- A low number is its own low byte. -/
theorem toUInt16_toUInt8 {v : UInt16} (low : v ≤ 255) : v.toUInt8.toUInt16 = v := by
  rw [← UInt16.toNat_inj, UInt8.toNat_toUInt16, UInt16.toNat_toUInt8]
  have bound : v.toNat ≤ 255 := UInt16.le_iff_toNat_le.1 low
  exact Nat.mod_eq_of_lt (by omega)

theorem spelled_variable {op : Opcode} (uses : op.usesVariable = true) (v : UInt16) :
    Spelled ctx offset (.op op (.var v)) (Item.variableBytes op v) := by
  unfold Item.variableBytes
  split
  · next short =>
    simp only [Bool.and_eq_true, bne_iff_ne, decide_eq_true_eq] at short
    have low : v < 4 := by
      have bound : v.toNat ≤ 3 := UInt16.le_iff_toNat_le.1 short.2
      exact UInt16.lt_iff_toNat_lt.2 (by show v.toNat < 4; omega)
    simp only [Opcode.usesVariable, Bool.or_eq_true, Bool.and_eq_true, decide_eq_true_eq,
      beq_iff_eq] at uses
    rcases uses with (load | store) | same
    · rw [Item.shortOpcode, if_pos load.2, UInt8.mul_comm]
      exact .shortLoad load low
    · have above : ¬ op ≤ Opcode.aload := fun below =>
        absurd (UInt8.le_trans store.1 below) (by decide)
      rw [Item.shortOpcode, if_neg above, UInt8.mul_comm]
      exact .shortStore store low
    · exact absurd same short.1
  · split
    · next low =>
      have plain : Spelled ctx offset (.op op (.var v.toUInt8.toUInt16)) [op, v.toUInt8] :=
        .slot uses _
      rwa [toUInt16_toUInt8 low] at plain
    · exact .wideSlot uses v

theorem spelled_increment (v : UInt16) (amount : Int16) :
    Spelled ctx offset (.op Opcode.iinc (.increment v amount)) (Item.incrementBytes v amount) := by
  unfold Item.incrementBytes
  split
  · next small =>
    simp only [Bool.and_eq_true, decide_eq_true_eq, fitsByte] at small
    obtain ⟨low, least, most⟩ := small
    have narrow : amount.toInt8.toInt16 = amount := by
      rw [← Int16.toInt_inj, Int8.toInt_toInt16, Int16.toInt_toInt8]
      exact Int.bmod_eq_of_le (by omega) (by omega)
    have plain : Spelled ctx offset
        (.op Opcode.iinc (.increment v.toUInt8.toUInt16 amount.toInt8.toInt16))
        (Opcode.iinc :: v.toUInt8 :: Word.encode amount.toInt8) := .increment _ _
    rwa [toUInt16_toUInt8 low, narrow] at plain
  · exact .wideIncrement v amount

/-! ### Constants and members -/

theorem spelled_load {c : Constant} {index : UInt16}
    (found : ctx.pool.constant ctx.bootstrap index = .ok c) :
    Spelled ctx offset (.ldc c) (Item.loadBytes c index) := by
  unfold Item.loadBytes
  split
  · exact .wideConstant (.inr rfl) found
  · split
    · next low =>
      rw [← toUInt16_toUInt8 low] at found
      exact .narrowConstant found
    · exact .wideConstant (.inl rfl) found

/-- The count of slots in front of the last byte says nothing to a reader. -/
theorem spelled_interface {member : MemberRef} {onInterface : Bool} {index : UInt16} {bytes : Bytes}
    (found : ctx.pool.memberRef index = .ok (member, onInterface))
    (h : Item.interfaceBytes Opcode.invokeinterface member index = .ok bytes) :
    Spelled ctx offset (.op Opcode.invokeinterface (.method member onInterface)) bytes := by
  obtain ⟨type, -, h⟩ := Traverse.bind_eq_ok_iff.1 h
  dsimp only at h
  split at h
  · cases h
    exact .interfaceMethod _ 0 found
  · cases h

/-! ### Jumps and switches -/

theorem spelled_jump (serves : ctx.Serves t labels) {op : Opcode} {far : Bool} {target : Label}
    {bytes : Bytes} (known : Opcode.form? op = some .branch)
    (wide : far = true → op = Opcode.goto ∨ op = Opcode.jsr)
    (near : far = false → ∀ distance, labels.distance offset target = .ok distance →
      fitsShort distance = true)
    (inside : offset ≤ 65535) (h : Item.jumpBytes labels offset far op target = .ok bytes) :
    Spelled ctx offset (.op op (.jump (labels.resolve target))) bytes := by
  obtain ⟨distance, hdistance, h⟩ := Traverse.bind_eq_ok_iff.1 h
  cases far with
  | false =>
    cases h
    have fits := near rfl distance hdistance
    simp only [fitsShort, Bool.and_eq_true, decide_eq_true_eq] at fits
    refine .branch (Opcode.owns_of_form? known) ?_ (serves.inside target)
    rw [Int16.toInt_ofInt_of_le (by omega) (by omega)]
    exact distance_eq_ok hdistance
  | true =>
    have reach : Item.farBytes labels offset target = .ok (Word.encode (Int32.ofInt distance)) := by
      unfold Item.farBytes
      rw [hdistance]
      rfl
    have reaches := serves.reaches reach inside
    rcases wide rfl with rfl | rfl
    · cases h
      exact .farGoto reaches
    · cases h
      exact .farJsr reaches

/-- The zeros behind the opcode of a switch. -/
theorem isPadding_zeros : IsPadding offset (List.replicate (switchPadding offset) 0) := by
  unfold IsPadding switchPadding
  rw [List.length_replicate]
  omega

theorem spelled_table (serves : ctx.Serves t labels) {default : Label} {low high : Int32}
    {targets : List Label} {bytes : Bytes} (some : targets ≠ []) (inside : offset ≤ 65535)
    (h : Item.tableBytes labels offset default low high targets = .ok bytes) :
    Spelled ctx offset (.op Opcode.tableswitch
      (.tableSwitch (labels.resolve default) low high (targets.map labels.resolve))) bytes := by
  unfold Item.tableBytes at h
  split at h
  · cases h
  · next count =>
    obtain ⟨front, hfront, h⟩ := Traverse.bind_eq_ok_iff.1 h
    obtain ⟨chunks, hchunks, h⟩ := Traverse.bind_eq_ok_iff.1 h
    cases h
    have positive : 0 < targets.length := List.length_pos_iff.2 some
    have each : List.Forall₂ (fun chunk target => ctx.Reaches offset target chunk)
        chunks (targets.map labels.resolve) := by
      rw [List.forall₂_map_right_iff]
      exact ((Traverse.mapM_eq_ok_iff.1 hchunks).imp fun target bytes row =>
        serves.reaches row inside).flip
    simp only [Item.switchHead, List.cons_append, List.append_assoc]
    refine .tableSwitch isPadding_zeros (serves.reaches hfront inside) (by omega) ?_ each
    rw [List.length_map]
    omega

theorem spelled_lookup (serves : ctx.Serves t labels) {default : Label}
    {pairs : List (Int32 × Label)} {bytes : Bytes} (inside : offset ≤ 65535)
    (few : pairs.length ≤ 65535)
    (h : Item.lookupBytes labels offset default pairs = .ok bytes) :
    Spelled ctx offset (.op Opcode.lookupswitch
      ((Operand.lookupSwitch default pairs).sorted.mapLabels labels.resolve)) bytes := by
  obtain ⟨front, hfront, h⟩ := Traverse.bind_eq_ok_iff.1 h
  obtain ⟨chunks, hchunks, h⟩ := Traverse.bind_eq_ok_iff.1 h
  cases h
  have each : List.Forall₂ (fun chunk pair => ctx.KeyReaches offset pair chunk) chunks
      ((pairs.mergeSort fun a b => a.1 ≤ b.1).map
        fun pair => (pair.1, labels.resolve pair.2)) := by
    rw [List.forall₂_map_right_iff]
    refine ((Traverse.mapM_eq_ok_iff.1 hchunks).imp fun pair bytes row => ?_).flip
    obtain ⟨far, hfar, rfl⟩ := Traverse.map_eq_ok_iff.1 row
    exact .pair (serves.reaches hfar inside)
  have count : (Int32.ofNat pairs.length).toInt = pairs.length := by
    have same : Int32.ofNat pairs.length = Int32.ofInt pairs.length := rfl
    rw [same]
    exact Int32.toInt_ofInt_of_le (by omega) (by omega)
  simp only [Item.switchHead, List.cons_append, List.append_assoc]
  refine .lookupSwitch isPadding_zeros (serves.reaches hfront inside) ?_ each
  rw [List.length_map, List.length_mergeSort, count]

/-- The bytes are refused as an instruction at an offset, whatever follows them. -/
def RefusesOp (ctx : BytecodeContext) (offset : Nat) (bytes : Bytes) : Prop :=
  ∃ first rest, bytes = first :: rest
    ∧ ∀ tail, ∃ e, ctx.operand offset first ⟨offset + 1, rest ++ tail⟩ = .error e

/-- A range of keys that ends before it starts is written, but not read. -/
theorem refusesOp_table (serves : ctx.Serves t labels) {op : Opcode} {default : Label}
    {low high : Int32} {bytes : Bytes} (known : Opcode.form? op = some .tableSwitch)
    (inside : offset + bytes.length ≤ ctx.length)
    (h : Item.tableBytes labels offset default low high [] = .ok bytes) :
    ctx.RefusesOp offset bytes := by
  have length := Item.length_tableBytes h
  have short := serves.short
  unfold Item.tableBytes at h
  split at h
  · cases h
  · next count =>
    obtain ⟨front, hfront, h⟩ := Traverse.bind_eq_ok_iff.1 h
    cases h
    obtain rfl := eq_of_beq (Opcode.owns_of_form? known)
    have order : high < low := by
      rw [Int32.lt_iff_toInt_lt]
      simp only [List.length_nil] at count
      omega
    refine ⟨Opcode.tableswitch, List.replicate (switchPadding offset) 0
      ++ (front ++ (Word.encode low ++ Word.encode high)), by simp [Item.switchHead], ?_⟩
    refine fun tail => ⟨.malformed (.tableBounds high low), ?_⟩
    unfold operand
    rw [known]
    show (ctx.tableOperand offset >>= fun operand =>
      (Pure.pure (Instruction.op Opcode.tableswitch operand) : Decoder Instruction)) _ = _
    refine bind_of_error ?_
    unfold tableOperand
    simp only [List.append_assoc]
    rw [bind_of_ok (readsAt_align isPadding_zeros _),
      bind_of_ok ((serves.reaches hfront (by omega)).reads _ _),
      bind_of_ok (Reads.word low _ _), bind_of_ok (Reads.word high _ _), if_pos order]
    rfl

end BytecodeContext

namespace Item

open BytecodeContext

variable {ctx : BytecodeContext} {t : ConstantTables} {labels : LabelTable} {offset : Nat}
  {index : UInt16} {far : Bool} {op : Opcode} {operand : Operand} {bytes : Bytes}

/-- Every instruction is written in one of its encodings, apart from a table of no keys. -/
theorem spelled_opBytes (serves : ctx.Serves t labels) (takes : op.Takes operand)
    (resolves : operand.Resolves t index) (representable : operand.Representable)
    (keys : operand.isEmptyTable = false)
    (wide : far = true → op = Opcode.goto ∨ op = Opcode.jsr)
    (near : far = false → ∀ target, operand = .jump target → ∀ distance,
      labels.distance offset target = .ok distance → fitsShort distance = true)
    (inside : offset + bytes.length ≤ ctx.length)
    (h : opBytes labels offset index far op operand = .ok bytes) :
    Spelled ctx offset (.op op (operand.sorted.mapLabels labels.resolve)) bytes := by
  have short := serves.short
  obtain ⟨form, known, takes⟩ := takes
  unfold opBytes at h
  rw [known] at h
  cases takes with
  | plain =>
    cases h
    exact .plain (Opcode.owns_of_form? known)
  | signedByte value =>
    obtain rfl := eq_of_beq (Opcode.owns_of_form? known)
    dsimp only at h
    split at h
    · next fits =>
      cases h
      exact spelled_byte fits
    · cases h
  | signedShort value =>
    obtain rfl := eq_of_beq (Opcode.owns_of_form? known)
    dsimp only at h
    split at h
    · next fits =>
      cases h
      exact spelled_short fits
    · cases h
  | elementType value =>
    obtain rfl := eq_of_beq (Opcode.owns_of_form? known)
    dsimp only at h
    split at h
    · next fits =>
      cases h
      rw [Bool.and_eq_true, decide_eq_true_eq, decide_eq_true_eq] at fits
      exact spelled_elementType fits.1 fits.2
    · cases h
  | constant c =>
    cases h
    obtain rfl := eq_of_beq (Opcode.owns_of_form? known)
    have found := resolves representable.1 representable.2
    rw [← serves.pool, ← serves.bootstrap] at found
    exact spelled_load found
  | slot v =>
    cases h
    exact spelled_variable (Opcode.owns_of_form? known) v
  | increment v amount =>
    cases h
    obtain rfl := eq_of_beq (Opcode.owns_of_form? known)
    exact spelled_increment v amount
  | branch target =>
    exact spelled_jump serves known wide (fun narrow => near narrow target rfl) (by omega) h
  | tableSwitch default low high targets =>
    obtain rfl := eq_of_beq (Opcode.owns_of_form? known)
    have some : targets ≠ [] := by
      rintro rfl
      cases keys
    exact spelled_table serves some (by omega) h
  | lookupSwitch default pairs =>
    obtain rfl := eq_of_beq (Opcode.owns_of_form? known)
    have length := length_lookupBytes h
    exact spelled_lookup serves (by omega) (by omega) h
  | field member =>
    cases h
    have found : ctx.pool.memberRef index = .ok (member, false) := serves.pool ▸ resolves
    exact .field (Form.owns_field_iff.1 (Opcode.owns_of_form? known)) found
  | method member onInterface =>
    cases h
    have found : ctx.pool.memberRef index = .ok (member, onInterface) := serves.pool ▸ resolves
    exact .method (Form.owns_method_iff.1 (Opcode.owns_of_form? known)) found
  | interfaceMethod member onInterface =>
    obtain rfl := eq_of_beq (Opcode.owns_of_form? known)
    exact spelled_interface (serves.pool ▸ resolves) h
  | callSite call =>
    cases h
    obtain rfl := eq_of_beq (Opcode.owns_of_form? known)
    have found : ctx.pool.dynamicCall ctx.bootstrap index = .ok call := by
      rw [serves.pool, serves.bootstrap]
      exact resolves representable.1 representable.2
    exact .callSite 0 0 found
  | type name =>
    cases h
    have found : ctx.pool.className index = .ok name := serves.pool ▸ resolves
    exact .type (Opcode.owns_of_form? known) found
  | multiArray desc dims =>
    cases h
    obtain rfl := eq_of_beq (Opcode.owns_of_form? known)
    have found : ctx.pool.className index = .ok desc := serves.pool ▸ resolves
    exact .multiArray dims found

/-- **Every instruction that is written is read back** in general form, apart from a table of no
keys. -/
theorem readsOp_opBytes (serves : ctx.Serves t labels) (takes : op.Takes operand)
    (resolves : operand.Resolves t index) (representable : operand.Representable)
    (keys : operand.isEmptyTable = false)
    (wide : far = true → op = Opcode.goto ∨ op = Opcode.jsr)
    (near : far = false → ∀ target, operand = .jump target → ∀ distance,
      labels.distance offset target = .ok distance → fitsShort distance = true)
    (inside : offset + bytes.length ≤ ctx.length)
    (h : opBytes labels offset index far op operand = .ok bytes) :
    ctx.ReadsOp offset bytes (.op op (operand.sorted.mapLabels labels.resolve)) :=
  (spelled_opBytes serves takes resolves representable keys wide near inside h).reads inside

/-- A table of no keys is refused. -/
theorem refusesOp_opBytes (serves : ctx.Serves t labels) (takes : op.Takes operand)
    (none : operand.isEmptyTable = true) (inside : offset + bytes.length ≤ ctx.length)
    (h : opBytes labels offset index far op operand = .ok bytes) :
    ctx.RefusesOp offset bytes := by
  obtain ⟨form, known, takes⟩ := takes
  unfold opBytes at h
  rw [known] at h
  cases takes with
  | tableSwitch default low high targets =>
    rw [List.isEmpty_iff.1 none] at h
    exact refusesOp_table serves known inside h
  | _ => cases none

end Item

end ClassInstrument
