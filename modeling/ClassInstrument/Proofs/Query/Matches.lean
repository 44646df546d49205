import ClassInstrument.Query.Pattern

/-!
# What a member query asks for

A prepared query has fewer checks than the query it comes from: parts that are left out of account
or not given are dropped, and the number for the opcode is looked at once.  Here is what is asked
of an instruction, part by part, and that the prepared checks come to the same.

* `MemberQuery` — a query as it is put; `MemberQuery.Asks` — what it asks of an opcode and a member;
  `MemberQuery.Matches` — and of an instruction;
* `Opcode.ofInt?_eq_some_iff` — the numbers that are opcodes;
* `MemberQuery.accepts_iff` — the prepared query accepts exactly the instructions that match.
-/

namespace ClassInstrument

/-- A number is an opcode exactly if it is the number of that opcode. -/
theorem Opcode.ofInt?_eq_some_iff {number : Int} {op : Opcode} :
    Opcode.ofInt? number = some op ↔ number = (op.toNat : Int) := by
  have small : op.toNat < 256 := op.toNat_lt
  unfold Opcode.ofInt?
  constructor
  · intro found
    split at found
    · obtain rfl := Option.some.inj found
      rw [UInt8.toNat_ofNat_of_lt' (by simp only [UInt8.size]; omega)]
      omega
    · simp at found
  · rintro rfl
    rw [if_pos ⟨by omega, by omega⟩]
    simp

/-- A query for the calls or field accesses of a kind: flags, a number for the opcode, and the
parts of the member. -/
structure MemberQuery where
  kind : MemberKind
  flags : MatchFlags
  number : Int32
  pattern : MemberPattern

namespace MemberQuery

/-- The checks that are left when the query is prepared. -/
def matcher (q : MemberQuery) : Matcher := .ofNumber q.kind q.flags q.number q.pattern

/-- What a query asks of an access: an opcode of its kind, the one asked for unless any will do,
and each part that is given and not left out of account. -/
structure Asks (q : MemberQuery) (op : Opcode) (member : MemberRef) : Prop where
  reserved : q.kind.reserved op = true
  opcode : q.flags.ignoreOpcode = true ∨ q.number = Matcher.noOpcode ∨ q.number.toInt = op.toNat
  owner : q.flags.ignoreOwner = true ∨ q.pattern.owner = none ∨ q.pattern.owner = some member.owner
  name : q.flags.ignoreName = true ∨ q.pattern.name = none ∨ q.pattern.name = some member.name
  desc : q.flags.ignoreDesc = true ∨ q.pattern.desc = none ∨ q.pattern.desc = some member.desc

/-- Whether an instruction is one that a query is after: its operand is a member of the kind. -/
def Matches (q : MemberQuery) (insn : Instruction) : Prop :=
  ∃ op operand member, insn = .op op operand ∧ q.kind.member? operand = some member
    ∧ q.Asks op member

variable {q : MemberQuery} {op : Opcode} {member : MemberRef}

/-- Any opcode of the kind will do. -/
theorem opcode_of_any (any : q.flags.ignoreOpcode = true ∨ q.number = Matcher.noOpcode) :
    q.matcher.opcode = .reserved := by
  rcases any with ignored | none
  · simp [matcher, Matcher.ofNumber, Matcher.prepare, ignored]
  · simp [matcher, Matcher.ofNumber, Matcher.prepare, none]

/-- One opcode is asked for, if the number is that of an access of the kind. -/
theorem opcode_of_number (checked : q.flags.ignoreOpcode = false)
    (given : q.number ≠ Matcher.noOpcode) :
    q.matcher.opcode = match Opcode.ofInt? q.number.toInt with
      | some asked => if q.kind.reserved asked then .exact asked else .never
      | none => .never := by
  simp only [matcher, Matcher.ofNumber, Matcher.prepare, checked, given]
  rfl

theorem acceptsOpcode_iff :
    q.matcher.acceptsOpcode op = true ↔ q.kind.reserved op = true ∧
      (q.flags.ignoreOpcode = true ∨ q.number = Matcher.noOpcode ∨ q.number.toInt = op.toNat) := by
  have same : q.matcher.kind = q.kind := rfl
  by_cases any : q.flags.ignoreOpcode = true ∨ q.number = Matcher.noOpcode
  · have admitted : q.flags.ignoreOpcode = true ∨ q.number = Matcher.noOpcode
        ∨ q.number.toInt = op.toNat := any.imp_right .inl
    simp only [Matcher.acceptsOpcode, opcode_of_any any, same, admitted, and_true]
  · obtain ⟨checked, given⟩ := not_or.1 any
    simp only [Matcher.acceptsOpcode, opcode_of_number (by simpa using checked) given, checked,
      given, false_or, ← Opcode.ofInt?_eq_some_iff]
    -- the number is that of an access of the kind, of another instruction or of none
    cases Opcode.ofInt? q.number.toInt with
    | none => simp
    | some asked => by_cases reserved : q.kind.reserved asked = true <;> grind

/-- A part that is checked, if it is given and not left out of account. -/
theorem all_part_iff {ignored : Bool} {text : Option String} {check : String → PartCheck}
    (own : String) (meaning : ∀ text, (check text).accepts member = (own == text)) :
    ((if ignored then [] else (text.map check).toList).all (·.accepts member)) = true
      ↔ ignored = true ∨ text = none ∨ text = some own := by
  cases ignored with
  | true => simp
  | false =>
    cases text with
    | none => simp
    | some text => simp [meaning, eq_comm (a := own)]

theorem all_parts_iff :
    q.matcher.parts.all (·.accepts member) = true ↔
      (q.flags.ignoreName = true ∨ q.pattern.name = none ∨ q.pattern.name = some member.name)
      ∧ (q.flags.ignoreOwner = true ∨ q.pattern.owner = none ∨ q.pattern.owner = some member.owner)
      ∧ (q.flags.ignoreDesc = true ∨ q.pattern.desc = none ∨ q.pattern.desc = some member.desc) := by
  simp only [matcher, Matcher.ofNumber, Matcher.prepare, List.all_append, Bool.and_eq_true]
  rw [all_part_iff member.name fun _ => rfl,
    all_part_iff member.owner fun _ => rfl,
    all_part_iff member.desc fun _ => rfl, and_assoc]

/-- **A prepared query accepts exactly the instructions that match.** -/
theorem accepts_iff (q : MemberQuery) (insn : Instruction) :
    q.matcher.accepts insn = true ↔ q.Matches insn := by
  constructor
  · intro accepted
    cases insn with
    | op op operand =>
      simp only [Matcher.accepts, Bool.and_eq_true] at accepted
      obtain ⟨opcode, parts⟩ := accepted
      cases refers : q.kind.member? operand with
      | none => rw [show q.matcher.kind = q.kind from rfl, refers] at parts; simp at parts
      | some member =>
        rw [show q.matcher.kind = q.kind from rfl, refers] at parts
        obtain ⟨reserved, opcode⟩ := acceptsOpcode_iff.1 opcode
        obtain ⟨name, owner, desc⟩ := all_parts_iff.1 parts
        exact ⟨op, operand, member, rfl, refers, reserved, opcode, owner, name, desc⟩
    | _ => simp [Matcher.accepts] at accepted
  · rintro ⟨op, operand, member, rfl, refers, asks⟩
    have opcode := acceptsOpcode_iff.2 ⟨asks.reserved, asks.opcode⟩
    have parts := all_parts_iff.2 ⟨asks.name, asks.owner, asks.desc⟩
    simp only [Matcher.accepts, opcode, show q.matcher.kind = q.kind from rfl, refers, parts,
      Bool.and_true]

instance (q : MemberQuery) : DecidablePred q.Matches := fun insn =>
  decidable_of_iff _ (q.accepts_iff insn)

theorem decide_matches (q : MemberQuery) (insn : Instruction) :
    decide (q.Matches insn) = q.matcher.accepts insn := by
  rw [Bool.eq_iff_iff, decide_eq_true_iff, q.accepts_iff]

end MemberQuery

end ClassInstrument
