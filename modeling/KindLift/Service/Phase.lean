import KindLift.Service.Match

/-! The phases a service goes through while it is migrated. -/
namespace KindLift

inductive Phase where
  | unmigrated (shape : Shape)
  | migrating (shape : Shape)
  | instancesAttached
deriving DecidableEq, Repr

def Shape.label : Shape → String
  | .legacy => "Legacy"
  | .modern => "Modern"

namespace Phase

/-- Every service is unmigrated when it is found. -/
def ofService (service : Service) : Phase := .unmigrated service.shape

def advance : Phase → Phase
  | unmigrated shape => migrating shape
  | migrating _ | instancesAttached => instancesAttached

def shape? : Phase → Option Shape
  | unmigrated shape | migrating shape => some shape
  | instancesAttached => none

/-- A legacy service is moved into its object while it is migrated. -/
def relocates (phase : Phase) : Bool := phase = .migrating .legacy

def isAttached (phase : Phase) : Bool := phase = .instancesAttached

def render : Phase → String
  | unmigrated shape => "unmigrated (" ++ shape.label ++ ")"
  | migrating shape => "migrating (" ++ shape.label ++ ")"
  | instancesAttached => "instances attached"

end Phase
end KindLift
