/-!
# Log records

A record has a level and a text. What is kept depends on the greatest level that is let
through: `off` keeps nothing, and `trace` keeps all. Two parties have a say in it, the
logging facade with its greatest level and the logger that is installed; a level here is
what both together let through.
-/

namespace PixelCoverage.Log

/-- How much a record matters, from the gravest to the least; `off` stands for none. -/
inductive Level where
  | off
  | error
  | warn
  | info
  | debug
  | trace
deriving DecidableEq, Repr

namespace Level

def rank : Level → Nat
  | off => 0
  | error => 1
  | warn => 2
  | info => 3
  | debug => 4
  | trace => 5

def name : Level → String
  | off => "OFF"
  | error => "ERROR"
  | warn => "WARN"
  | info => "INFO"
  | debug => "DEBUG"
  | trace => "TRACE"

/-- Records of the level on the left are kept when the one on the right is let through. -/
instance : LE Level where
  le a b := a.rank ≤ b.rank

instance (a b : Level) : Decidable (a ≤ b) :=
  inferInstanceAs (Decidable (a.rank ≤ b.rank))

end Level

structure Record where
  level : Level
  text : String
deriving DecidableEq, Repr

end PixelCoverage.Log
