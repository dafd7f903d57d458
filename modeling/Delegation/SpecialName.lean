/-!
# Special names

Attribute names with a meaning of their own. `super` names the head delegate;
the others are hooks, which an object's author may define.
-/

namespace Delegation

inductive SpecialName where
  | super
  | init
  | str
  | bool
  deriving DecidableEq, Repr

namespace SpecialName

def text : SpecialName → String
  | super => "super"
  | init => "__init__"
  | str => "__str__"
  | bool => "__bool__"

def all : List SpecialName := [super, init, str, bool]

def ofName? (name : String) : Option SpecialName :=
  all.find? (·.text == name)

def isHook : SpecialName → Bool
  | super => false
  | _ => true

theorem ofName?_text (name : SpecialName) : ofName? name.text = some name := by
  cases name <;> rfl

end SpecialName

end Delegation
