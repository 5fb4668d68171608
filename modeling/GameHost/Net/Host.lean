import GameHost.Error
import GameHost.Net.Address

namespace GameHost

abbrev Host := IpAddress → Option IoFault

namespace Host

/-- Whether a version 6 address with this first group is link-local or multicast. -/
def needsInterface (group : UInt16) : Bool := group &&& 0xffc0 == 0xfe80 || 0xff00 ≤ group

/-- A host with no interface up. With no route to tell them apart, version 4 addresses are all as good
as its own, mapped ones included. Of version 6 it has none, and one that only an interface could give
a meaning is not even valid. -/
def detached : Host
  | .v4 .. => none
  | .v6 [0, 0, 0, 0, 0, 0xffff, _, _] => none
  | .v6 gs =>
    if gs.all (· == 0) then none
    else if gs.head?.any needsInterface then some .invalidInput
    else some .noSuchAddress

end Host
end GameHost
