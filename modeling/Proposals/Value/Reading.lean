import Proposals.Fault
import Proposals.Text.Hex

/-!
# `Proposals.Value.Reading` — using a value as a number or as a sequence

## Contents
- `toInteger`: the integer that a value stands for; fractions are cut off.
- `items`: the members of a value that can be walked through.
-/

namespace Proposals.Value

open Proposals.Text Proposals.Number

/-- The integer part of a decimal. -/
def decimalInteger : Decimal → Outcome Int
  | .finite negative coefficient exponent =>
    let n := coefficient * tenTo exponent.toNat / tenTo (-exponent).toNat
    .ok (if negative then -(n : Int) else n)
  | .infinite _ => .error (.data .overflow)
  | .invalid _ _ _ => .error (.data .badValue)

/-- The integer that a text writes. -/
def textInteger (cs : List Char) : Outcome Int :=
  match readInteger? cs with
  | some n => .ok n
  | none => .error (.data .badValue)

/-- The integer that a value stands for: truth values are one and zero, fractions are cut off, and
texts and bytes are read. -/
def toInteger : Value → Outcome Int
  | .bool b => .ok (if b then 1 else 0)
  | .int n => .ok n
  | .float (.finite negative m e) => .ok (Binary.truncate negative m e)
  | .float (.infinite _) => .error (.data .overflow)
  | .float .nan => .error (.data .badValue)
  | .decimal d => decimalInteger d
  | .text s => textInteger s.toList
  | .bytes bs =>
    if bs.all (·.toNat < 128) then textInteger (bs.map fun b => Char.ofNat b.toNat)
    else .error (.data .badValue)
  | _ => .error (.data .wrongKind)

/-- The members of a value: items of a list, characters of a text, numbers of bytes, keys of an
object. -/
def items : Value → Outcome (List Value)
  | .list vs => .ok vs
  | .text s => .ok (s.toList.map fun c => .text (String.singleton c))
  | .bytes bs => .ok (bs.map fun b => .int b.toNat)
  | .dict entries => .ok (entries.map fun e => .text e.1)
  | _ => .error (.data .wrongKind)

end Proposals.Value
