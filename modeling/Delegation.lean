import Delegation.Eval.Run
import Delegation.Heap.HashInput
import Delegation.Settings.File
import Delegation.Proofs.Listing
import Delegation.Proofs.Assignment
import Delegation.Proofs.Change
import Delegation.Proofs.Definer
import Delegation.Proofs.Effects
import Delegation.Proofs.Rules
import Delegation.Proofs.Runs
import Delegation.Proofs.Frozen
import Delegation.Proofs.Acyclic
import Delegation.Proofs.Nesting
import Delegation.Proofs.Alike
import Delegation.Proofs.Construction
import Delegation.Proofs.Tied
import Delegation.Proofs.History
import Delegation.Proofs.Builtins
import Delegation.Proofs.Operations
import Delegation.Proofs.Ownership
import Delegation.Proofs.Provision
import Delegation.Proofs.Resolving
import Delegation.Proofs.Offering
import Delegation.Proofs.Hashing
import Delegation.Proofs.Slots
import Delegation.Proofs.Lens
import Delegation.Proofs.Growth
import Delegation.Proofs.Freezing
import Delegation.Proofs.Installation
import Delegation.Proofs.Supplies
import Delegation.Proofs.Rebinding
import Delegation.Proofs.Building
import Delegation.Proofs.Truth
import Delegation.Proofs.HookDepth
import Delegation.Proofs.Initialization
import Delegation.Proofs.Appending
import Delegation.Proofs.Collected
import Delegation.Proofs.Written
import Delegation.Proofs.Accounting
import Delegation.Proofs.OwnMembers
