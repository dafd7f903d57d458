import Delegation.Error
import Delegation.Heap.Basic

/-!
# What a hash sees

Plain values hash by the bytes that stand for them, functions by identity.
Values with attributes and bound methods do not hash. Two hashes agree when
the inputs agree.
-/

namespace Delegation

inductive HashInput where
  | bytes (bytes : List UInt8)
  | function (serial : Nat)
  deriving DecidableEq, Repr

def wordBytes (word : UInt64) : List UInt8 :=
  (List.range 8).map fun k => (word >>> (8 * k).toUInt64).toUInt8

def Heap.hashInput (h : Heap) : Value → Except Error HashInput
  | .none => .ok (.bytes [0])
  | .bool b => .ok (.bytes [if b then 1 else 0])
  | .int n => .ok (.bytes (wordBytes n.toUInt64))
  | .float x => .ok (.bytes (wordBytes x.bits))
  | .text s => .ok (.bytes (nameBytes s ++ [0xff]))
  | .function f => .ok (.function f.serial)
  | value => .error (.notHashable (h.typeName value))

end Delegation
