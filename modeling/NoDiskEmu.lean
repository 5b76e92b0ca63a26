import NoDiskEmu.Dxx.Sector
import NoDiskEmu.Bus.Ieee
import NoDiskEmu.Eeprom.EntryLedger
import NoDiskEmu.Eeprom.SectorLedger
import NoDiskEmu.Eeprom.RoundTrip
import NoDiskEmu.Buffers.Menu
import NoDiskEmu.Dos.Partition
import NoDiskEmu.Dos.Block
import NoDiskEmu.Dxx.Delete
import NoDiskEmu.Dxx.DnpSearch
import NoDiskEmu.Dxx.Counters
import NoDiskEmu.Dxx.Faults
import NoDiskEmu.Dxx.Scratch
import NoDiskEmu.Dxx.Write
import NoDiskEmu.Dxx.EmptyDisk
import NoDiskEmu.Fat.Records
import NoDiskEmu.Fat.NameCache
import NoDiskEmu.Bus.Fill
import NoDiskEmu.Fat.Names
import NoDiskEmu.Fat.Listed
import NoDiskEmu.Fat.Gap
import NoDiskEmu.Dxx.ErrorInfo
import NoDiskEmu.Eeprom.Append
import NoDiskEmu.Eeprom.Robust
import NoDiskEmu.Clock.Drivers
import NoDiskEmu.Eeprom.Minimal
import NoDiskEmu.Sd.Getbits
import NoDiskEmu.Disk.DriveConfig
import NoDiskEmu.Menu.Browse
import NoDiskEmu.Dos.Dates
import NoDiskEmu.Dos.Match
import NoDiskEmu.Dos.Capture
import NoDiskEmu.Dos.RawDirectory
import NoDiskEmu.Ff.Runs
import NoDiskEmu.Ff.Free
import NoDiskEmu.Bus.Delivery
import NoDiskEmu.Disk.SwapList
import NoDiskEmu.Disk.StoredConfig
