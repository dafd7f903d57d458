/-!
# Errors

An error is what went wrong; its kind and its message are read off it. Errors
that host code raises carry both themselves.
-/

namespace Delegation

inductive ErrorKind where
  | badArgument
  | noAttribute
  | notCallable
  | notHashable
  | setField
  | frozen
  | delegateCycle
  | delegateDepth
  | unknownName
  | eval
  deriving DecidableEq, Repr, Inhabited

namespace ErrorKind

def text : ErrorKind → String
  | badArgument => "ArgumentError"
  | noAttribute => "AttributeError"
  | notCallable => "NotCallableError"
  | notHashable => "NotHashableError"
  | setField => "SetFieldError"
  | frozen => "FrozenError"
  | delegateCycle => "DelegateCycleError"
  | delegateDepth => "DelegateDepthError"
  | unknownName => "NameError"
  | eval => "EvalError"

def all : List ErrorKind :=
  [badArgument, noAttribute, notCallable, notHashable, setField, frozen, delegateCycle,
    delegateDepth, unknownName, eval]

theorem mem_all (kind : ErrorKind) : kind ∈ all := by
  cases kind <;> simp [all]

def ofText? (text : String) : Option ErrorKind :=
  all.find? (·.text == text)

theorem ofText?_text (kind : ErrorKind) : ofText? kind.text = some kind := by
  cases kind <;> rfl

end ErrorKind

inductive TemplateFault where
  | missingName
  | nameNotText (typeName : String)
  | blankName
  | unsuitable (typeName : String)
  | unnamedCallable
  | duplicateMember (name : String)
  deriving DecidableEq, Repr

def TemplateFault.text : TemplateFault → String
  | missingName => "missing argument for name"
  | nameNotText typeName => s!"for parameter name: got {typeName}, want string"
  | blankName => "name must not be empty"
  | unsuitable typeName => s!"got {typeName}, want a callable or a value with attributes"
  | unnamedCallable => "positional callable has no name"
  | duplicateMember name => s!"duplicate member {name}"

inductive Error where
  | raised (kind : ErrorKind) (message : String)
  | missingAttribute (holder name : String)
  | notCallable (typeName : String)
  | notHashable (typeName : String)
  | fieldAssignment (typeName : String)
  | frozen (holder slot : String)
  | delegateCycle (receiver : String)
  | delegateDepth (owner : String) (max : Nat)
  | undefinedName (name : String)
  | template (builtin : String) (fault : TemplateFault)
  deriving DecidableEq, Repr

namespace Error

def kind : Error → ErrorKind
  | raised kind _ => kind
  | missingAttribute .. => .noAttribute
  | notCallable _ => .notCallable
  | notHashable _ => .notHashable
  | fieldAssignment _ => .setField
  | frozen .. => .frozen
  | delegateCycle _ => .delegateCycle
  | delegateDepth .. => .delegateDepth
  | undefinedName _ => .unknownName
  | template .. => .badArgument

def message : Error → String
  | raised _ message => message
  | missingAttribute holder name => s!"{holder} has no .{name} field or method"
  | notCallable typeName => s!"invalid call of non-function ({typeName})"
  | notHashable typeName => s!"unhashable: {typeName}"
  | fieldAssignment typeName => s!"{typeName} value does not support field assignment"
  | frozen holder slot => s!"cannot set .{slot} on frozen {holder}"
  | delegateCycle receiver => s!"{receiver} would become its own delegate"
  | delegateDepth owner max => s!"delegates below {owner} nest more than {max} levels deep"
  | undefinedName name => s!"{name} is not defined"
  | template builtin fault => s!"{builtin}: {fault.text}"

def text (error : Error) : String :=
  s!"{error.kind.text}: {error.message}"

/-- Errors are told apart by kind and message only. -/
def same (a b : Error) : Bool :=
  a.kind == b.kind && a.message == b.message

/-- A traversal went too deep. No traversal skips such an error. -/
def isDepth (error : Error) : Bool :=
  error.kind == .delegateDepth

end Error

end Delegation
