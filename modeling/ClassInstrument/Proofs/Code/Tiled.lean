import ClassInstrument.Proofs.Bytes.Gives
import ClassInstrument.Proofs.Code.Stream

/-!
# Code as a row of encodings

The instructions of a body are the instructions of chunks that stand one behind the other without a
gap, each read at the offset where the chunk in front of it ends.  So a body may be put together
from any encodings of its instructions, and every body that is read falls apart into such chunks.

* `chunkStart` — the offset of a chunk, which is what its position in the program is resolved to;
* `Assembled` — **a program in some choice of encodings**, with its labels resolved;
* `BytecodeContext.Tiles` — chunks one behind the other with the instructions they are read as;
* `BytecodeContext.instructions_eq_ok_iff` — **code is read exactly if it is such a row**;
* `instructions_of_encodings` — every choice of encodings is read as the program, and whatever is
  read covers the code from its first byte to its last.
-/

namespace ClassInstrument

open Decoder

/-! ### Programs in some choice of encodings -/

/-- The offset of a chunk: the number of bytes in front of it. -/
def chunkStart (chunks : List Bytes) (k : Nat) : Nat := (chunks.take k).flatten.length

@[simp] theorem chunkStart_zero (chunks : List Bytes) : chunkStart chunks 0 = 0 := rfl

theorem chunkStart_cons_succ (chunk : Bytes) (chunks : List Bytes) (k : Nat) :
    chunkStart (chunk :: chunks) (k + 1) = chunk.length + chunkStart chunks k := by
  unfold chunkStart
  rw [List.take_succ_cons, List.flatten_cons, List.length_append]

/-- Labels of a program are positions in it, and lead to the offsets of the chunks there; the
position behind the last instruction leads to the end of the code. -/
def chunkLabel (chunks : List Bytes) (l : Label) : Label := ⟨chunkStart chunks l.index⟩

/-- Chunks that encode a program, one for each instruction: distances and padding are those of the
offsets that result. -/
structure Assembled (pool : Pool) (bootstrap : BootstrapTable) (program : List Instruction)
    (chunks : List Bytes) : Prop where
  length_eq : chunks.length = program.length
  spelled : ∀ k insn chunk, program[k]? = some insn → chunks[k]? = some chunk →
    Instruction.Spelled ⟨pool, bootstrap, chunks.flatten.length⟩ (chunkStart chunks k)
      (insn.mapLabels (chunkLabel chunks)) chunk

namespace BytecodeContext

variable {ctx : BytecodeContext} {offset : Nat} {op : Opcode}

/-! ### Bytes that are taken away -/

theorem consumes_nearTarget (base : Nat) : Consumes (ctx.nearTarget base) :=
  .bind .word fun _ => .ofExcept _

theorem consumes_farTarget (base : Nat) : Consumes (ctx.farTarget base) :=
  .bind .word fun _ => .ofExcept _

theorem consumes_typeOperand : Consumes ctx.typeOperand := .bind .word fun _ => .ofExcept _

theorem consumes_memberOperand : Consumes ctx.memberOperand := .bind .word fun _ => .ofExcept _

theorem consumes_constantAt (index : UInt16) : Consumes (ctx.constantAt index) :=
  .bind (.ofExcept _) fun _ => .pure _

theorem consumes_tableOperand (base : Nat) : Consumes (ctx.tableOperand base) :=
  .bind (.align _ _) fun _ => .bind (consumes_farTarget base) fun _ => .bind .word fun _ =>
    .bind .word fun _ => .ite (fun _ => .malformed) fun _ => .ite (fun _ => .malformed) fun _ =>
      .bind (.times (consumes_farTarget base) _) fun _ => .pure _

theorem consumes_lookupOperand (base : Nat) : Consumes (ctx.lookupOperand base) :=
  .bind (.align _ _) fun _ => .bind (consumes_farTarget base) fun _ => .bind .word fun _ =>
    .ite (fun _ => .malformed) fun _ => .bind (.times (.bind .word fun _ =>
      .bind (consumes_farTarget base) fun _ => .pure _) _) fun _ => .pure _

theorem consumes_formed (form : Form) : Consumes (ctx.formed offset op form) := by
  cases form with
  | plain => exact .pure _
  | signedByte => exact .bind .word fun _ => .pure _
  | signedShort => exact .bind .word fun _ => .pure _
  | elementType => exact .bind .word fun _ => .pure _
  | narrowConstant => exact .bind .word fun _ => consumes_constantAt _
  | wideConstant => exact .bind .word fun _ => consumes_constantAt _
  | «variable» => exact .bind .word fun _ => .pure _
  | shortVariable general index => exact .pure _
  | increment => exact .bind .word fun _ => .bind .word fun _ => .pure _
  | branch => exact .bind (consumes_nearTarget _) fun _ => .pure _
  | wideBranch general => exact .bind (consumes_farTarget _) fun _ => .pure _
  | tableSwitch => exact .bind (consumes_tableOperand _) fun _ => .pure _
  | lookupSwitch => exact .bind (consumes_lookupOperand _) fun _ => .pure _
  | field => exact .bind consumes_memberOperand fun _ => .pure _
  | method => exact .bind consumes_memberOperand fun _ => .pure _
  | interfaceMethod =>
    exact .bind consumes_memberOperand fun _ => .bind (.skip 2) fun _ => .pure _
  | callSite =>
    exact .bind .word fun _ => .bind (.ofExcept _) fun _ => .bind (.skip 2) fun _ => .pure _
  | type => exact .bind consumes_typeOperand fun _ => .pure _
  | multiArray => exact .bind consumes_typeOperand fun _ => .bind .word fun _ => .pure _
  | wide =>
    exact .bind .word fun _ => .ite (fun _ => .bind .word fun _ => .bind .word fun _ => .pure _)
      fun _ => .ite (fun _ => .bind .word fun _ => .pure _) fun _ => .malformed

theorem consumes_operand : Consumes (ctx.operand offset op) := by
  unfold operand
  split
  · exact consumes_formed _
  · exact .malformed

/-! ### Rows of chunks -/

/-- Chunks that stand one behind the other from an offset on, with the instructions they are read
as. -/
inductive Tiles (ctx : BytecodeContext) : Nat → List Bytes → List (Nat × Instruction) → Prop where
  | nil {offset : Nat} : Tiles ctx offset [] []
  | cons {offset : Nat} {chunk : Bytes} {insn : Instruction} {chunks : List Bytes}
      {rows : List (Nat × Instruction)} (reads : ctx.ReadsOp offset chunk insn)
      (rest : Tiles ctx (offset + chunk.length) chunks rows) :
      Tiles ctx offset (chunk :: chunks) ((offset, insn) :: rows)

/-- An instruction has a first byte. -/
theorem ReadsOp.ne_nil {chunk : Bytes} {insn : Instruction}
    (h : ctx.ReadsOp offset chunk insn) : chunk ≠ [] := by
  obtain ⟨first, rest, rfl, -⟩ := h
  exact List.cons_ne_nil _ _

/-- Instructions that are each read at the offset of their chunk. -/
theorem tiles_mapIdx {program : List Instruction} {chunks : List Bytes}
    {resolved : Instruction → Instruction} (lengths : chunks.length = program.length)
    (reads : ∀ k insn chunk, program[k]? = some insn → chunks[k]? = some chunk →
      ctx.ReadsOp (offset + chunkStart chunks k) chunk (resolved insn)) :
    ctx.Tiles offset chunks
      (program.mapIdx fun k insn => (offset + chunkStart chunks k, resolved insn)) := by
  induction program generalizing offset chunks with
  | nil =>
    obtain rfl := List.length_eq_zero_iff.1 lengths
    exact .nil
  | cons insn program ih =>
    cases chunks with
    | nil => cases lengths
    | cons chunk chunks =>
      have first := reads 0 insn chunk rfl rfl
      have others : ctx.Tiles (offset + chunk.length) chunks (program.mapIdx fun k insn =>
          (offset + chunk.length + chunkStart chunks k, resolved insn)) :=
        ih (Nat.succ.inj lengths) fun k insn' chunk' here there => by
          have later := reads (k + 1) insn' chunk' here there
          rwa [chunkStart_cons_succ, ← Nat.add_assoc] at later
      rw [List.mapIdx_cons]
      simp only [chunkStart_cons_succ, ← Nat.add_assoc]
      exact .cons first others

/-- What a row of chunks is position by position. -/
theorem Tiles.get {chunks : List Bytes} {rows : List (Nat × Instruction)}
    (tiles : ctx.Tiles offset chunks rows) : chunks.length = rows.length ∧
      ∀ k chunk row, chunks[k]? = some chunk → rows[k]? = some row →
        row.1 = offset + chunkStart chunks k ∧ ctx.ReadsOp row.1 chunk row.2 := by
  induction tiles with
  | nil => exact ⟨rfl, fun k chunk row here => by cases here⟩
  | @cons offset chunk insn chunks rows reads rest ih =>
    refine ⟨congrArg (· + 1) ih.1, fun k chunk' row here there => ?_⟩
    cases k with
    | zero =>
      cases here
      cases there
      exact ⟨rfl, reads⟩
    | succ k =>
      obtain ⟨place, read⟩ := ih.2 k chunk' row here there
      rw [chunkStart_cons_succ, ← Nat.add_assoc]
      exact ⟨place, read⟩

/-! ### Reading a row of chunks -/

/-- The chunks of a row are read one after the other. -/
theorem Tiles.instructionsOnto {chunks : List Bytes}
    {rows : List (Nat × Instruction)} (tiles : ctx.Tiles offset chunks rows) {rounds : Nat}
    (enough : chunks.flatten.length ≤ rounds) (read : List (Nat × Instruction)) :
    ctx.instructionsOnto rounds read ⟨offset, chunks.flatten⟩ = .ok (read.reverse ++ rows) := by
  induction tiles generalizing rounds read with
  | nil =>
    rw [List.append_nil]
    exact instructionsOnto_nil _ _ _
  | cons reads rest ih =>
    rw [List.flatten_cons] at enough ⊢
    obtain ⟨fewer, left, step⟩ := instructionsOnto_cons reads enough read
    rw [step, ih left, List.reverse_cons, List.append_assoc]
    rfl

/-- What is read are the chunks of a row. -/
theorem tiles_instructionsOnto {rounds : Nat} {front rows : List (Nat × Instruction)} {c : Cursor}
    (h : ctx.instructionsOnto rounds front c = .ok rows) : ∃ chunks behind,
      rows = front.reverse ++ behind ∧ chunks.flatten = c.rest
        ∧ ctx.Tiles c.position chunks behind := by
  induction rounds generalizing front c with
  | zero =>
    obtain ⟨position, rest⟩ := c
    cases rest with
    | nil =>
      cases h
      exact ⟨[], [], (List.append_nil _).symm, rfl, .nil⟩
    | cons op rest => cases h
  | succ rounds ih =>
    obtain ⟨position, rest⟩ := c
    cases rest with
    | nil =>
      cases h
      exact ⟨[], [], (List.append_nil _).symm, rfl, .nil⟩
    | cons op rest =>
      rw [BytecodeContext.instructionsOnto] at h
      split at h
      · next insn cursor found =>
        obtain ⟨chunks, behind, rfl, same, tiles⟩ := ih h
        obtain ⟨fields, whole, moved, row⟩ := consumes_operand _ _ _ found
        dsimp only at whole moved row
        rw [moved, Nat.add_assoc, Nat.add_comm 1] at tiles
        refine ⟨(op :: fields) :: chunks, (position, insn) :: behind, ?_, ?_, ?_⟩
        · rw [List.reverse_cons, List.append_assoc]
          rfl
        · rw [List.flatten_cons, same, List.cons_append, ← whole]
        · exact .cons ⟨op, fields, rfl, row⟩ tiles
      · cases h

/-- **Code is read exactly if it is a row of chunks**, as their instructions. -/
theorem instructions_eq_ok_iff {code : Bytes} {rows : List (Nat × Instruction)} :
    ctx.instructions code = .ok rows ↔
      ∃ chunks, chunks.flatten = code ∧ ctx.Tiles 0 chunks rows := by
  constructor
  · intro h
    obtain ⟨chunks, behind, same, whole, tiles⟩ := tiles_instructionsOnto h
    rw [List.reverse_nil, List.nil_append] at same
    subst same
    exact ⟨chunks, whole, tiles⟩
  · rintro ⟨chunks, rfl, tiles⟩
    exact tiles.instructionsOnto (Nat.le_refl _) []

/-- Every instruction of a row has its chunk. -/
theorem Tiles.reads {chunks : List Bytes} {rows : List (Nat × Instruction)}
    (tiles : ctx.Tiles offset chunks rows) :
    ∀ row ∈ rows, ∃ chunk, ctx.ReadsOp row.1 chunk row.2 := by
  induction tiles with
  | nil => exact fun _ member => nomatch member
  | cons reads rest ih => exact List.forall_mem_cons.2 ⟨⟨_, reads⟩, ih⟩

/-- Offsets lie in the bytes of a row. -/
theorem Tiles.inside {chunks : List Bytes} {rows : List (Nat × Instruction)}
    (tiles : ctx.Tiles offset chunks rows) :
    ∀ row ∈ rows, offset ≤ row.1 ∧ row.1 < offset + chunks.flatten.length := by
  induction tiles with
  | nil => exact fun _ member => nomatch member
  | cons reads rest ih =>
    have some := List.length_pos_iff.2 reads.ne_nil
    rw [List.flatten_cons, List.length_append]
    refine List.forall_mem_cons.2 ⟨⟨Nat.le_refl _, by dsimp only; omega⟩, fun row member => ?_⟩
    have behind := ih row member
    omega

/-- Offsets ascend. -/
theorem Tiles.ascend {chunks : List Bytes} {rows : List (Nat × Instruction)}
    (tiles : ctx.Tiles offset chunks rows) : rows.Pairwise fun a b => a.1 < b.1 := by
  induction tiles with
  | nil => exact .nil
  | cons reads rest ih =>
    have some := List.length_pos_iff.2 reads.ne_nil
    refine List.pairwise_cons.2 ⟨fun row member => ?_, ih⟩
    exact Nat.lt_of_lt_of_le (Nat.lt_add_of_pos_right some) (rest.inside row member).1

/-- The first offset of a row. -/
theorem Tiles.head {chunks : List Bytes} {rows : List (Nat × Instruction)}
    (tiles : ctx.Tiles offset chunks rows) : ∀ row ∈ rows.head?, row.1 = offset := by
  cases tiles with
  | nil => exact fun _ member => nomatch member
  | cons reads rest =>
    rintro row member
    cases member
    rfl

end BytecodeContext

/-- A chunk is no longer than the code that it is a part of. -/
theorem chunkStart_add_length_le {chunks : List Bytes} {k : Nat} {chunk : Bytes}
    (h : chunks[k]? = some chunk) : chunkStart chunks k + chunk.length ≤ chunks.flatten.length := by
  induction chunks generalizing k with
  | nil => cases h
  | cons first chunks ih =>
    rw [List.flatten_cons, List.length_append]
    cases k with
    | zero =>
      cases h
      rw [chunkStart_zero]
      omega
    | succ k =>
      have behind := ih h
      rw [chunkStart_cons_succ]
      omega

/-- The chunks of a program are a row, whatever encodings were chosen. -/
theorem Assembled.tiles {pool : Pool} {bootstrap : BootstrapTable} {program : List Instruction}
    {chunks : List Bytes} (h : Assembled pool bootstrap program chunks) :
    BytecodeContext.Tiles ⟨pool, bootstrap, chunks.flatten.length⟩ 0 chunks
      (program.mapIdx fun k insn => (chunkStart chunks k, insn.mapLabels (chunkLabel chunks))) := by
  have rows := @BytecodeContext.tiles_mapIdx ⟨pool, bootstrap, chunks.flatten.length⟩ 0 program
    chunks (fun insn => insn.mapLabels (chunkLabel chunks)) h.length_eq
    fun k insn chunk here there => by
      rw [Nat.zero_add]
      exact (h.spelled k insn chunk here there).reads (chunkStart_add_length_le there)
  simpa only [Nat.zero_add] using rows

/-- **Every choice of encodings is read as the program**: all instructions in order, each at the
offset of its bytes, with labels that stand for the offsets of what they lead to.  Whatever code is
read consists of the bytes of its instructions: offsets start at zero and ascend, each instruction
takes the bytes from its own offset to the next one, and is read from these bytes alone. -/
theorem instructions_of_encodings :
    (∀ (pool : Pool) (bootstrap : BootstrapTable) (program : List Instruction)
        (chunks : List Bytes), Assembled pool bootstrap program chunks →
      BytecodeContext.instructions ⟨pool, bootstrap, chunks.flatten.length⟩ chunks.flatten
        = .ok (program.mapIdx fun k insn =>
          (chunkStart chunks k, insn.mapLabels (chunkLabel chunks))))
    ∧ ∀ (ctx : BytecodeContext) (code : Bytes) (rows : List (Nat × Instruction)),
      ctx.instructions code = .ok rows →
        (∀ row ∈ rows.head?, row.1 = 0) ∧ (rows.Pairwise fun a b => a.1 < b.1)
          ∧ ∃ chunks : List Bytes, chunks.flatten = code ∧ chunks.length = rows.length
            ∧ ∀ k chunk row, chunks[k]? = some chunk → rows[k]? = some row →
              row.1 = chunkStart chunks k ∧ chunk ≠ [] ∧ ctx.ReadsOp row.1 chunk row.2 := by
  constructor
  · intro pool bootstrap program chunks assembled
    exact BytecodeContext.instructions_eq_ok_iff.2 ⟨chunks, rfl, assembled.tiles⟩
  · intro ctx code rows run
    obtain ⟨chunks, whole, tiles⟩ := BytecodeContext.instructions_eq_ok_iff.1 run
    obtain ⟨lengths, each⟩ := tiles.get
    refine ⟨tiles.head, tiles.ascend, chunks, whole, lengths, fun k chunk row here there => ?_⟩
    obtain ⟨place, reads⟩ := each k chunk row here there
    rw [Nat.zero_add] at place
    exact ⟨place, reads.ne_nil, reads⟩

/-! A program whose instructions are written in several ways, with jumps forwards, backwards and to
the end of the code. -/

namespace Assembled

open Instruction (Spelled)
open BytecodeContext (Reaches)

/-- A pool with one number in it. -/
def mixedPool : Pool := Pool.empty.push (.integer 7)

/-- Labels are the positions of instructions. -/
def mixedProgram : List Instruction :=
  [.op Opcode.iload (.var 1), .op Opcode.iload (.var 1), .ldc (.int 7), .ldc (.int 7),
    .op Opcode.tableswitch (.tableSwitch ⟨6⟩ 0 0 [⟨0⟩]), .op Opcode.goto (.jump ⟨7⟩),
    .simple Opcode.vreturn]

/-- A short and a wide load, both forms of a constant, a padded switch and a far jump. -/
def mixedChunks : List Bytes :=
  [[0x1b], [0xc4, 0x15, 0, 1], [0x12, 1], [0x13, 0, 1],
    [0xaa, 0, 0, 0, 0, 23, 0, 0, 0, 0, 0, 0, 0, 0, 0xff, 0xff, 0xff, 0xf6],
    [0xc8, 0, 0, 0, 6], [0xb1]]

theorem mixed : Assembled mixedPool .empty mixedProgram mixedChunks where
  length_eq := rfl
  spelled := by
    intro k insn chunk here there
    have number : mixedPool.constant .empty 1 = .ok (.int 7) := rfl
    have back : Reaches ⟨mixedPool, .empty, 34⟩ 10 ⟨0⟩ (Word.encode (-10 : Int32)) :=
      .far (by decide) (by decide)
    have last : Reaches ⟨mixedPool, .empty, 34⟩ 10 ⟨33⟩ (Word.encode (23 : Int32)) :=
      .far (by decide) (by decide)
    have past : Reaches ⟨mixedPool, .empty, 34⟩ 28 ⟨34⟩ (Word.encode (6 : Int32)) :=
      .far (by decide) (by decide)
    have padded : IsPadding 10 [0] := ⟨by decide, by decide⟩
    match k, here, there with
    | 0, rfl, rfl =>
      exact @Spelled.shortLoad ⟨mixedPool, .empty, 34⟩ 0 Opcode.iload 1 (by decide) (by decide)
    | 1, rfl, rfl => exact .wideSlot rfl 1
    | 2, rfl, rfl => exact @Spelled.narrowConstant ⟨mixedPool, .empty, 34⟩ 5 1 _ number
    | 3, rfl, rfl => exact @Spelled.wideConstant ⟨mixedPool, .empty, 34⟩ 7 _ 1 _ (.inl rfl) number
    | 4, rfl, rfl => exact .tableSwitch padded last (by decide) (by decide) (.cons back .nil)
    | 5, rfl, rfl => exact .farGoto past
    | 6, rfl, rfl => exact .plain rfl
    | k + 7, here, _ => cases here

end Assembled

open Assembled (mixedPool mixedProgram mixedChunks mixed)

/-- The mixed encodings are read as the program, and fall apart into their chunks again. -/
theorem instructions_of_encodings_mixed :
    Assembled mixedPool .empty mixedProgram mixedChunks
    ∧ BytecodeContext.instructions ⟨mixedPool, .empty, 34⟩ mixedChunks.flatten
      = .ok [(0, .op Opcode.iload (.var 1)), (1, .op Opcode.iload (.var 1)), (5, .ldc (.int 7)),
        (7, .ldc (.int 7)), (10, .op Opcode.tableswitch (.tableSwitch ⟨33⟩ 0 0 [⟨0⟩])),
        (28, .op Opcode.goto (.jump ⟨34⟩)), (33, .simple Opcode.vreturn)]
    ∧ ∃ chunks : List Bytes, chunks.flatten = mixedChunks.flatten ∧ chunks.length = 7 := by
  have read := instructions_of_encodings.1 mixedPool .empty mixedProgram mixedChunks mixed
  obtain ⟨-, -, chunks, whole, lengths, -⟩ := instructions_of_encodings.2 _ _ _ read
  exact ⟨mixed, read, chunks, whole, lengths⟩

end ClassInstrument
