import Droidcli.Lib.Paths
import Droidcli.Reliability.Guards

namespace Droidcli.Cli

open Bytes Paths

-- What the sources are built for.
inductive Platform
  | windows
  | posix
  deriving DecidableEq

namespace Platform

def separates : Platform → UInt8 → Bool
  | windows, c => Reliability.isSeparator c
  | posix, c   => c = slash

-- The path leads to the entry of that name right in the directory.
def Denotes (platform : Platform) (path directory name : Bytes) : Prop :=
  location platform.separates path = (location platform.separates directory).entry name

-- `found` is the known folder of the Desktop on Windows and the value of `HOME` elsewhere, empty
-- where there is none.
def detectDesktopPath : Platform → Bytes → Bytes
  | windows, found => found
  | posix, found   => if found = [] then [] else found ++ str "/Desktop"

end Platform
end Droidcli.Cli
