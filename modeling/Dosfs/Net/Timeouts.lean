import Dosfs.Net.Waiting

/-!
# Deadlines

Seven functions of `net.c` wait until a deadline some ticks from now. They compare
the counter of the timer with the deadline, and both are cut to 32 bits, so a wait
has its length exactly when the counter and the deadline start anew together.
-/

namespace Dosfs

open Foundation Fuelled

/-- The wait loops, by the functions they stand in. -/
inductive Wait
  | arpResolve
  | netPing
  | tcpConnect
  | tcpRecv
  | tcpClose
  | udpRecv
  | dnsResolve
  deriving DecidableEq

namespace Wait

/-- The number of ticks from the start to the deadline. -/
def limit : Wait → Nat
  | .arpResolve | .dnsResolve => 100
  | .netPing | .tcpConnect | .tcpRecv | .udpRecv => 50
  | .tcpClose => 30

variable {env : Env} {s : Net} {deadline : Nat}

end Wait

end Dosfs
