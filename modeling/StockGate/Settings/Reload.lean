import StockGate.Settings.Load

namespace StockGate

/-- A settings file, `none` if there is none, and the policy that calls share. -/
structure PolicyFile where
  contents : Option Text.Bytes := none
  policy : Policy := {}
  deriving DecidableEq

inductive FileStep where
  | write (bytes : Text.Bytes)
  | remove
  | reload
  | replace (p : Policy)
  deriving DecidableEq

namespace PolicyFile

def load (f : PolicyFile) : Except LoadError Settings :=
  Settings.load f.contents

/-- Settings that cannot be loaded leave the policy in place. -/
def reload (f : PolicyFile) : PolicyFile :=
  match f.load with
  | .ok s => { f with policy := s.policy }
  | .error _ => f

def loads (f : PolicyFile) : Bool :=
  match f.load with
  | .ok _ => true
  | .error _ => false

def step (f : PolicyFile) : FileStep → PolicyFile
  | .write bytes => { f with contents := some bytes }
  | .remove => { f with contents := none }
  | .reload => f.reload
  | .replace p => { f with policy := p }

def run (f : PolicyFile) (steps : List FileStep) : PolicyFile :=
  steps.foldl step f

/-- A file saved in the watched folder. Only the settings file itself causes a reload. -/
def save (f : PolicyFile) (isSettings : Bool) (bytes : Text.Bytes) : PolicyFile :=
  if isSettings then (f.step (.write bytes)).reload else f

end PolicyFile

end StockGate
