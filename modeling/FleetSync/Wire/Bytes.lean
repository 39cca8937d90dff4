/-!
# Bytes

Messages are compared byte by byte wherever this library compares them.
-/

namespace FleetSync

instance instDecidableEqBytes : DecidableEq ByteArray := ByteArray.instDecidableEq

end FleetSync
