import SectorVolume.Image.Step
import SectorVolume.ImageFile.Step
import SectorVolume.Main
import SectorVolume.Session
import SectorVolume.Proofs.Cache.Queue
import SectorVolume.Proofs.Cache.Typed
import SectorVolume.Proofs.FreeMap.FirstFit
import SectorVolume.Proofs.Image.ByHand
import SectorVolume.Proofs.Image.RoundTrip
import SectorVolume.Proofs.Index.Listing
import SectorVolume.Proofs.Resize.Order
import SectorVolume.Proofs.Resize.Paths
import SectorVolume.Proofs.Session.Denied
import SectorVolume.Proofs.Session.Growth
import SectorVolume.Proofs.Session.Orders
import SectorVolume.Proofs.Session.Misuse
import SectorVolume.Proofs.Session.Refused
import SectorVolume.Proofs.Session.Remounted
import SectorVolume.Proofs.Session.Roll
import SectorVolume.Proofs.Transfer.Ranges
