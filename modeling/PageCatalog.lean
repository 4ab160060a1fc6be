import PageCatalog.CommandLine
import PageCatalog.Device.Faulty
import PageCatalog.Device.FileTree
import PageCatalog.Device.MemoryDisk
import PageCatalog.Device.Script
import PageCatalog.Directory
import PageCatalog.Main
import PageCatalog.Proofs.Device.Disks
import PageCatalog.Proofs.Device.Rounds
import PageCatalog.Proofs.Device.Shared
import PageCatalog.Proofs.Directory.Balance
import PageCatalog.Proofs.Directory.Failure
import PageCatalog.Proofs.Directory.History
import PageCatalog.Proofs.Directory.Lasting
import PageCatalog.Proofs.Directory.Pages
import PageCatalog.Proofs.Directory.Queries
import PageCatalog.Proofs.Node.Shifting
import PageCatalog.Proofs.Tree.Blocked
import PageCatalog.Proofs.Tree.Circling
import PageCatalog.Proofs.Tree.Failure
import PageCatalog.Proofs.Tree.History
import PageCatalog.Proofs.Tree.Safety
import PageCatalog.Proofs.Tree.Searching
import PageCatalog.Proofs.Tree.Stocked
import PageCatalog.Tree.Outline
