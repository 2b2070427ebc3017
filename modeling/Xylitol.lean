import Xylitol.Text
import Xylitol.Apk.Axml.RoundTrip
import Xylitol.Apk.Manifest
import Xylitol.Apk.Axml.Truncation
import Xylitol.Apk.Inspect
import Xylitol.Shim.Abi
import Xylitol.Shim.Symbols
import Xylitol.Shim.Elf
import Xylitol.Shim.Report
import Xylitol.Shim.Soundness
import Xylitol.Apkpure.Model
import Xylitol.Library.Model
import Xylitol.Library.Failure
import Xylitol.Library.Handles
import Xylitol.Library.Key
import Xylitol.Disk
import Xylitol.Dom
import Xylitol.Runs
import Xylitol.Apkpure.Download
import Xylitol.Apkpure.Download.Writing
import Xylitol.Apkpure.Download.Resume
import Xylitol.Apkpure.Download.Finish
import Xylitol.Apkpure.Download.Concurrent
import Xylitol.Apk.Axml.Raw
import Xylitol.Entries
import Xylitol.Shim.Libraries
import Xylitol.Shim.Loadable
import Xylitol.Shim.Available
import Xylitol.Shim.Bundles
import Xylitol.Shim.Wrapping
import Xylitol.Library.Invariant
import Xylitol.Library.Paths
import Xylitol.Apkpure.Download.Versions
import Xylitol.Apkpure.Names
import Xylitol.Apkpure.Download.Directory
import Xylitol.Library.Saving
import Xylitol.Cli.Select
import Xylitol.Cli.Numbers
import Xylitol.Gui.Variants
import Xylitol.Sorted
import Xylitol.Apk.Base
import Xylitol.Apk.Splits
import Xylitol.Library.Damage
import Xylitol.Library.Directories
import Xylitol.Generations
import Xylitol.Gui.Discover
import Xylitol.Apkpure.Download.Outcome
import Xylitol.Apk.Axml.Locality
import Xylitol.Apkpure.Ranking
import Xylitol.Cli.Unattended
import Xylitol.Components
import Xylitol.Shim.Numbers
import Xylitol.Shim.Dynamic
import Xylitol.Decimals
import Xylitol.Library.Newest
import Xylitol.Apkpure.Download.Confined
import Xylitol.Requests
import Xylitol.Apk.Axml.Reserving
import Xylitol.Apk.Reserving
import Xylitol.Shim.Reserving
import Xylitol.Percent
import Xylitol.Apkpure.Parse
import Xylitol.Apkpure.Parse.Page
import Xylitol.Apkpure.Parse.Releases
import Xylitol.Apkpure.Client
import Xylitol.Apkpure.Search
import Xylitol.Apkpure.Files
import Xylitol.Apkpure.Download.Scraped
import Xylitol.Apkpure.Download.Alone
import Xylitol.Cli.Main
import Xylitol.Cli.Saved
import Xylitol.Cli.History
import Xylitol.Channel
import Xylitol.Machine
import Xylitol.Gui.Window
import Xylitol.Gui.Rows
import Xylitol.Apkpure.Download.Apart
import Xylitol.Gui.Shelf
import Xylitol.Shim.Hosts
import Xylitol.Shim.Calls
import Xylitol.Gui.Cancel
import Xylitol.Gui.Toasts
