import ClassInstrument.Decimal.Binary
import ClassInstrument.Instruction.Basic

/-!
# Equality of constants and instructions

Constants are compared as the numbers they are: a constant that is not-a-number equals nothing, not
even itself, and the two zeros are equal.  Everything else is compared as it stands.

* `Constant.same`, `Instruction.same` — that comparison.
-/

namespace ClassInstrument

mutual

/-- Whether two constants are equal as values. -/
def Constant.same : Constant → Constant → Bool
  | .int a, .int b => a == b
  | .float a, .float b => Binary.sameNumber Binary.single a.toNat b.toNat
  | .long a, .long b => a == b
  | .double a, .double b => Binary.sameNumber Binary.double a.toNat b.toNat
  | .string a, .string b => a == b
  | .classRef a, .classRef b => a == b
  | .methodType a, .methodType b => a == b
  | .handle a, .handle b => a == b
  | .dynamic name desc bootstrap args, .dynamic name' desc' bootstrap' args' =>
    name == name' && desc == desc' && bootstrap == bootstrap' && Constant.sameAll args args'
  | _, _ => false

/-- Whether two lists of constants are equal, one by one. -/
def Constant.sameAll : List Constant → List Constant → Bool
  | [], [] => true
  | a :: as, b :: bs => a.same b && Constant.sameAll as bs
  | _, _ => false

end

/-- Whether two calls are equal. -/
def DynamicCall.same (a b : DynamicCall) : Bool := a.toConstant.same b.toConstant

/-- Whether two operands are equal. -/
def Operand.same : Operand → Operand → Bool
  | .none, .none => true
  | .int a, .int b => a == b
  | .var a, .var b => a == b
  | .increment a i, .increment b j => a == b && i == j
  | .type a, .type b => a == b
  | .field a, .field b => a == b
  | .method a i, .method b j => a == b && i == j
  | .invokeDynamic a, .invokeDynamic b => a.same b
  | .jump a, .jump b => a == b
  | .load a, .load b => a.same b
  | .tableSwitch d low high ts, .tableSwitch d' low' high' ts' =>
    d == d' && low == low' && high == high' && ts == ts'
  | .lookupSwitch d ps, .lookupSwitch d' ps' => d == d' && ps == ps'
  | .multiArray a i, .multiArray b j => a == b && i == j
  | _, _ => false

/-- Whether two instructions are equal. -/
def Instruction.same : Instruction → Instruction → Bool
  | .label a, .label b => a == b
  | .line n a, .line m b => n == m && a == b
  | .frame a, .frame b => a == b
  | .op o a, .op p b => o == p && a.same b
  | _, _ => false

end ClassInstrument
