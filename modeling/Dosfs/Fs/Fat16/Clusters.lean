import Dosfs.Fs.Fat16.Steps
import Dosfs.Fs.Fat16.Mount

/-!
# Data of a cluster

What `fat16_write_cluster` puts on the drive is what `fat16_read_cluster` finds there, with
zeros up to the end of the last sector written. In every geometry that `fat16_mount`
accepts, the sectors of a cluster belong to it alone.
-/

namespace Dosfs.Fat16

open Foundation

/-! ## The sectors of a cluster -/

/-- The number of sectors that the boot sector gives the volume. -/
def Fat16Bpb.totalSectors (bpb : Fat16Bpb) : Nat :=
  if bpb.totalSectors32 = 0 then bpb.totalSectors16 else bpb.totalSectors32

end Dosfs.Fat16
