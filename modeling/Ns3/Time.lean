import Mathlib.Init

/-!
# Simulation time

`Time` at the default resolution, in nanoseconds.
-/

namespace Ns3

abbrev Time := Int

/-- Toward zero, as `Time::ToInteger` rounds. -/
def Time.getMilliSeconds (t : Time) : Int := Int.tdiv t 1000000

end Ns3
