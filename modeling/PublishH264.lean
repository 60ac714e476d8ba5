import PublishH264.Nal
import PublishH264.Assembler
import PublishH264.AnnexB.Scan
import PublishH264.AnnexB.Step
import PublishH264.AnnexB.Stream
import PublishH264.Socket
import PublishH264.Avcc
import PublishH264.Worker
import PublishH264.Lifecycle
import PublishH264.Args
import PublishH264.Main
