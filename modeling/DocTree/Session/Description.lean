import DocTree.Describe
import DocTree.Session.Basic

/-!
# Sessions: descriptions of objects
-/

namespace DocTree.Session

open SessionM

/-- The description of an object, if its type has one. -/
def describe (name : String) : SessionM String := do
  let registry := (← get).registry
  find name fun
    | .store m => some (Describe.store (registry.store m.store))
    | .document id => (registry.document? id).map Describe.document
    | .node n => some (Describe.node n)
    | .handles axis => some (Describe.axisIterator axis)
    | .concurrent axis => some (Describe.relay axis.relay)
    | .set axis => some (Describe.setAxis axis)
    | _ => none

end DocTree.Session
