import Delegation.Error

/-!
# Events

What the object model reports while it works. An event is what happened; its
severity, its message and its fields are read off it.
-/

namespace Delegation

inductive Severity where
  | trace
  | debug
  | warn
  deriving DecidableEq, Repr

def Severity.text : Severity → String
  | trace => "TRACE"
  | debug => "DEBUG"
  | warn => "WARN"

inductive Event where
  | lookupFellThrough (level : Nat) (attr : String) (error : Error)
  | forwardingWrite (owner attr delegate : String)
  | levelRewritten (holder : String) (level : Nat)
  | frozen (holder : String) (members delegates : Nat)
  | strIgnored (holder result : String)
  | boolIgnored (holder result : String)
  | runningInit (holder : String)
  | noInitializer (owner : String) (level : Nat)
  | constructed (template : String) (initialized : Bool)
  | builtTemplate (template : String) (members delegates : Nat)
  | resolved (name resolver : String)
  | installing (builtin : String) (maxDepth : Nat)
  deriving DecidableEq, Repr

inductive EventField where
  | text (s : String)
  | count (n : Nat)
  | flag (b : Bool)
  deriving DecidableEq, Repr

namespace Event

def severity : Event → Severity
  | lookupFellThrough .. | forwardingWrite .. | levelRewritten .. | runningInit _
  | noInitializer .. | resolved .. => .trace
  | frozen .. | constructed .. | builtTemplate .. | installing .. => .debug
  | strIgnored .. | boolIgnored .. => .warn

def message : Event → String
  | lookupFellThrough .. => "delegate: lookup fell through"
  | forwardingWrite .. => "object: forwarding write"
  | levelRewritten .. => "object: level rewritten during initialization"
  | frozen .. => "object: frozen"
  | strIgnored .. => "object: __str__ did not return a string"
  | boolIgnored .. => "object: __bool__ did not return a bool"
  | runningInit _ => "object: running own __init__"
  | noInitializer .. => "delegate: no initializer"
  | constructed .. => "object: constructed"
  | builtTemplate .. => "object: built template"
  | resolved .. => "super_global: resolved"
  | installing .. => "plugin: installing object extension"

def fields : Event → List (String × EventField)
  | lookupFellThrough level attr error =>
    [("level", .count level), ("attr", .text attr), ("error", .text error.text)]
  | forwardingWrite owner attr delegate =>
    [("owner", .text owner), ("attr", .text attr), ("delegate", .text delegate)]
  | levelRewritten holder level => [("instance", .text holder), ("level", .count level)]
  | frozen holder members delegates =>
    [("instance", .text holder), ("members", .count members), ("delegates", .count delegates)]
  | strIgnored holder result | boolIgnored holder result =>
    [("instance", .text holder), ("result", .text result)]
  | runningInit holder => [("instance", .text holder)]
  | noInitializer owner level => [("owner", .text owner), ("level", .count level)]
  | constructed template initialized =>
    [("template", .text template), ("initialized", .flag initialized)]
  | builtTemplate template members delegates =>
    [("template", .text template), ("members", .count members), ("delegates", .count delegates)]
  | resolved name resolver => [("name", .text name), ("resolver", .text resolver)]
  | installing builtin maxDepth =>
    [("builtin", .text builtin), ("max_delegate_depth", .count maxDepth)]

end Event

end Delegation
