namespace Terrarium

/-- The version of everything in this release. -/
def version : String := "v0.1.0"

/-- The parts that a release is made of. -/
inductive Component where
  | kernel
  | protocol
  | server
  | client
deriving DecidableEq, Repr

namespace Component

/-- All parts, from the inside out. -/
def all : List Component := [kernel, protocol, server, client]

def name : Component → String
  | kernel => "kernel"
  | protocol => "protocol"
  | server => "server"
  | client => "client"

/-- The name and version of a part. -/
def release (c : Component) : String := "worldsim-" ++ c.name ++ " " ++ version

end Component

end Terrarium
