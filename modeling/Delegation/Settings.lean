/-!
# Settings

The name of the template builder among the globals, and the depth bound of
the instances it makes.
-/

namespace Delegation

structure Settings where
  builtinName : String := "object"
  maxDelegateDepth : Nat := 64
  deriving DecidableEq, Repr, Inhabited

end Delegation
