import OtapDataflow.ControlChannel.Delivery
import OtapDataflow.Subscriber.Delivery
import OtapDataflow.Wal.Recovery
import OtapDataflow.Subscriber.ProgressFile
import OtapDataflow.DurableBuffer.Drain
import OtapDataflow.Filelog.Resume
import OtapDataflow.FilelogCheckpoint.WalCodec
import OtapDataflow.Fanout.Outcome
import OtapDataflow.Batch.Accounting
import OtapDataflow.Reaggregation.Rollback
import OtapDataflow.LocalChannel.Safety
import OtapDataflow.OtlpBytes.Rebatch
import OtapDataflow.OtapFilter.RecordWise
import OtapDataflow.TransportEncoding.QuasiDelta
import OtapDataflow.TransportEncoding.Remapping
import OtapDataflow.Admission.Bucket
import OtapDataflow.Topic.Tracker
import OtapDataflow.Sampling.Ratio
import OtapDataflow.OtapSplit.IdRanges
