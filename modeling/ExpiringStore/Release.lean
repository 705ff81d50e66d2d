/-!
# Release

The version of the library.
-/

namespace ExpiringStore

def version : String := "0.1.0"

end ExpiringStore
