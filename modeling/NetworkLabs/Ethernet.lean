import Mathlib.Data.Vector.Basic

/-!
# Ethernet addresses

The two programs that handle whole frames have the same `ether.h`.
-/

namespace NetworkLabs

def ETH_ALEN : ℕ := 6

abbrev Mac : Type := Vector UInt8 ETH_ALEN

end NetworkLabs
