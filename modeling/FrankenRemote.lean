import FrankenRemote.AuthorityFence
import FrankenRemote.AuthoritySilence
import FrankenRemote.RecordFraming
import FrankenRemote.DecodeOrder
import FrankenRemote.MediaNetwork
import FrankenRemote.RepairCover
import FrankenRemote.SendAbandon
import FrankenRemote.IdrSource
import FrankenRemote.InputReconcile
import FrankenRemote.InputSuspension
import FrankenRemote.Viewport
import FrankenRemote.ClientReadiness
import FrankenRemote.ClientReceipt
import FrankenRemote.MediaLedger
import FrankenRemote.PresentedReporter
import FrankenRemote.ViewEvidence
import FrankenRemote.StagingLedger
import FrankenRemote.FileAdmission
import FrankenRemote.FileWorker
import FrankenRemote.Bitrate
import FrankenRemote.AudioLane
import FrankenRemote.InputTally
import FrankenRemote.WssCredit
import FrankenRemote.DisplayRouting
import FrankenRemote.RateLimit
import FrankenRemote.PrefixHole
