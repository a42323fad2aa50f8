import BtDownloader.Client.Interference
import BtDownloader.Client.Cancel
import BtDownloader.Client.Advance
import BtDownloader.Client.Batch
import BtDownloader.Client.Timers
import BtDownloader.Client.SavedResume
import BtDownloader.Client.Slide
import BtDownloader.Client.Agreed
import BtDownloader.Client.ChosenPieces
import BtDownloader.Client.OwnFile
import BtDownloader.Client.InitialWindow
import BtDownloader.Client.FastForward
import BtDownloader.Client.Buffering
import BtDownloader.Client.Independence
import BtDownloader.View.MagnetImport
import BtDownloader.View.Agreement
import BtDownloader.View.Truth
import BtDownloader.View.Table
import BtDownloader.View.Progress
import BtDownloader.View.Cells
import BtDownloader.Torrent.ResumeCycles
import BtDownloader.Torrent.ResumeSafety
