import DebugSweep.Fault

/-! Tools by name, in the order in which they were registered. -/
namespace DebugSweep

structure Registry (α : Type) where
  tools : List (String × α) := []

namespace Registry

def names (r : Registry α) : List String := r.tools.map Prod.fst

def get? (r : Registry α) (name : String) : Option α :=
  (r.tools.find? (fun tool => tool.1 == name)).map Prod.snd

def register (r : Registry α) (name : String) (tool : α) : Except Fault (Registry α) :=
  if r.names.contains name then .error (.invalid (.toolKnown name))
  else .ok ⟨r.tools ++ [(name, tool)]⟩

def find (r : Registry α) (name : String) : Except Fault α :=
  match r.get? name with
  | some tool => .ok tool
  | none => .error (.dispatch "UNKNOWN_TOOL" ("Unknown tool: " ++ name))

end Registry
end DebugSweep
