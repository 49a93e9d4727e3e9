import Wdt.Request
import Wdt.Getline
import Wdt.Folly
import Wdt.Manifest
import Wdt.Main
import Wdt.Abort
import Wdt.AbortClock
import Wdt.Process
