import Legible.Config.Layers
import Legible.Json.Reader
import Legible.Service.Basic
/-!
Why the program refuses to go on, and the status that it ends with.
-/

namespace Legible

/-- What a refusal is about. -/
inductive RefusalKind where
  /-- The way the program was called. -/
  | usage
  /-- The diagnostics. -/
  | data
  /-- Reading the input. -/
  | input
  /-- The settings. -/
  | settings
deriving DecidableEq, Repr

/-- The status of the process, from the range that systems keep for it. -/
def RefusalKind.status : RefusalKind → Nat
  | usage => 64
  | data => 65
  | input => 74
  | settings => 78

/-- Why the program does not go on. -/
inductive Failure where
  /-- It says why. -/
  | refused (kind : RefusalKind) (message : Text)
  /-- A text of digits is no numeral. -/
  | numeral (error : NumeralError)
  /-- The settings, or a file that belongs to the program, cannot be had. -/
  | settings (error : ConfigError)
  /-- The output holds what cannot be written. -/
  | output (error : Utf8.EncodeError)
  /-- The formatter cannot be run under the settings. -/
  | service (fault : Fault)
  /-- JSON is nested deeper than it is read. -/
  | tooDeep (nest : Json.Nest)
deriving DecidableEq, Repr

namespace Failure

/-- The failure in words. -/
def message : Failure → Text
  | refused _ m => m
  | numeral e => e.message
  | settings e => e.message
  | output e => e.message
  | service f => f.message
  | tooDeep n => n.message

/-- The status of the process; 1 where the program was not prepared for the failure. -/
def status : Failure → Nat
  | refused k _ => k.status
  | _ => 1

end Failure

end Legible
