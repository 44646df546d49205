import ClassInstrument.Decimal.Shortest
import ClassInstrument.Instruction.Basic
import ClassInstrument.Text.Quoted

/-!
# Instructions as text

One line per instruction, for messages: the mnemonic and what identifies the operand.

* `Constant.toText` — a constant with its kind, in full;
* `Instruction.toText` — an instruction; a switch is shown by its keys only.
-/

namespace ClassInstrument

/-- Numbers are positional from `0.0001` up to `10 ^ 16`, and integral ones end in `.0`. -/
def Constant.numberLayout : Decimal.Layout :=
  { positionalFrom := -4, positionalBelow := 16, integralSuffix := ".0", exponentMark := "e"
    nanText := "NaN", infinityText := "inf" }

/-- A record: its name, then its fields in braces. -/
def recordText (name : String) (fields : List (String × String)) : String :=
  name ++ " \x7b " ++ ", ".intercalate (fields.map fun (key, value) => key ++ ": " ++ value)
    ++ " \x7d"

/-- The truth values in lower case. -/
def boolText (b : Bool) : String := if b then "true" else "false"

/-- A handle with all its fields. -/
def Handle.toText (h : Handle) : String :=
  recordText "Handle" [("tag", toString h.kind.toNat), ("owner", Text.quote h.owner),
    ("name", Text.quote h.name), ("desc", Text.quote h.desc),
    ("interface", boolText h.onInterface)]

mutual

/-- A constant: its kind, and its value in parentheses. -/
def Constant.toText : Constant → String
  | .int value => "Int(" ++ toString value.toInt ++ ")"
  | .float bits =>
    "Float(" ++ Decimal.toText numberLayout (Binary.decode Binary.single bits.toNat) ++ ")"
  | .long value => "Long(" ++ toString value.toInt ++ ")"
  | .double bits =>
    "Double(" ++ Decimal.toText numberLayout (Binary.decode Binary.double bits.toNat) ++ ")"
  | .string text => "String(" ++ Text.quote text ++ ")"
  | .classRef name => "Class(" ++ Text.quote name ++ ")"
  | .methodType desc => "MethodType(" ++ Text.quote desc ++ ")"
  | .handle h => "Handle(" ++ h.toText ++ ")"
  | .dynamic name desc bootstrap args =>
    "Dynamic(" ++ recordText "DynamicCall" [("name", Text.quote name), ("desc", Text.quote desc),
      ("bootstrap", bootstrap.toText),
      ("args", "[" ++ ", ".intercalate (Constant.toTexts args) ++ "]")] ++ ")"

/-- The constants of a list, one by one. -/
def Constant.toTexts : List Constant → List String
  | [] => []
  | c :: cs => c.toText :: Constant.toTexts cs

end

/-- What is shown of an operand behind the mnemonic. -/
def Operand.toText : Operand → String
  | .none => ""
  | .int value => " " ++ toString value.toInt
  | .var index => " " ++ toString index.toNat
  | .increment index amount => " " ++ toString index.toNat ++ " " ++ toString amount.toInt
  | .type name => " " ++ name
  | .field member | .method member _ => " " ++ member.toText
  | .invokeDynamic call => " " ++ call.name ++ call.desc
  | .jump target => " " ++ target.toText
  | .load constant => " " ++ constant.toText
  | .tableSwitch _ low high _ => " " ++ toString low.toInt ++ "..=" ++ toString high.toInt
  | .lookupSwitch _ pairs => " [" ++ toString pairs.length ++ " keys]"
  | .multiArray desc dims => " " ++ desc ++ " " ++ toString dims.toNat

/-- One line of text. -/
def Instruction.toText : Instruction → String
  | .label l => l.toText ++ ":"
  | .line number start => "LINE " ++ toString number.toNat ++ " " ++ start.toText
  | .frame f =>
    "FRAME locals=" ++ toString f.locals.length ++ " stack=" ++ toString f.stack.length
  | .op opcode operand => opcode.name ++ operand.toText

end ClassInstrument
