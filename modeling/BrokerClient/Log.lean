/-!
# Log records

What the parts of the library report while they work: a level, a message, and named values as
texts.
-/
namespace BrokerClient

namespace Log

inductive Level where
  | trace
  | debug
  | info
  | warn
deriving DecidableEq

def Level.name : Level → String
  | .trace => "TRACE"
  | .debug => "DEBUG"
  | .info => "INFO"
  | .warn => "WARN"

structure Record where
  level : Level
  message : String
  fields : List (String × String) := []
deriving DecidableEq

/-! ## Settings -/

structure Settings where
  filter : String := "info"
  json : Bool := false

/-- Whether a process prints records already. Settings are taken once. -/
structure Output where
  settings : Option Settings := none

/-- Takes the settings if there are none yet, and says whether it did. -/
def Output.start (o : Output) (s : Settings) : Output × Bool :=
  match o.settings with
  | none => (⟨some s⟩, true)
  | some _ => (o, false)

end Log

end BrokerClient
