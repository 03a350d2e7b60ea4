import KeyOS.Kernel.QueueHistory
import KeyOS.Kernel.SchedulerRuns
import KeyOS.Kernel.MemoryRuns
import KeyOS.Emmc.Encryption
import KeyOS.Table.TableRuns
import KeyOS.Update.SwapRuns
import KeyOS.Update.ReleaseFiles
import KeyOS.Storage.DurableRuns
import KeyOS.Backup.RestoreRuns
import KeyOS.Cosign.TrustEarned
import KeyOS.Security.SeedKept
import KeyOS.Backup.StreamRuns
import KeyOS.Names.MessageIds
import KeyOS.Fido.Presence
import KeyOS.Fido.CredentialRuns
import KeyOS.QuantumLink.AllOrNothing
import KeyOS.QuantumLink.PersistRuns
import KeyOS.AppManager.CertRuns
import KeyOS.Crypto.Modes
import KeyOS.Crypto.StreamingRuns
import KeyOS.Qbsdiff.ForwardPatch
import KeyOS.Kernel.Permissions
import KeyOS.Kernel.Lending
import KeyOS.Kernel.ConnectionIds
import KeyOS.Kernel.FreeRuns
import KeyOS.Ticktimer.TimerRuns
import KeyOS.Settings.Agreement
import KeyOS.Keycard.PoolRuns
import KeyOS.QuantumLink.Requests
import KeyOS.UsbDebug.UploadRuns
import KeyOS.Recovery.Consistent
import KeyOS.CtapHid.Responses
import KeyOS.Bitcoin.Amounts
import KeyOS.Bitcoin.XpubVersions
import KeyOS.Bitcoin.CasaHealth
import KeyOS.Fs.DiskFile
import KeyOS.Fs.SetLen
import KeyOS.Router.Independence
import KeyOS.Backup.DownloadRuns
import KeyOS.Gui.PaintOrder
import KeyOS.Launcher.IconsKept
