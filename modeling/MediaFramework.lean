import MediaFramework.Lib.Assoc
import MediaFramework.Lib.Bits
import MediaFramework.Lib.Blocks
import MediaFramework.Lib.Buffer
import MediaFramework.Lib.Compaction
import MediaFramework.Lib.Consume
import MediaFramework.Lib.CounterMode
import MediaFramework.Lib.Delimiter
import MediaFramework.Lib.Double
import MediaFramework.Lib.Ebml
import MediaFramework.Lib.Endian
import MediaFramework.Lib.Flat
import MediaFramework.Lib.Folds
import MediaFramework.Lib.Heap
import MediaFramework.Lib.KeyedVector
import MediaFramework.Lib.Machine
import MediaFramework.Lib.Partway
import MediaFramework.Lib.ReorderBuffer
import MediaFramework.Lib.Ring
import MediaFramework.Lib.RunLength
import MediaFramework.Lib.Search
import MediaFramework.Lib.Sextets
import MediaFramework.Lib.Split
import MediaFramework.Lib.Text
import MediaFramework.Lib.Truncation
import MediaFramework.Lib.Word
import MediaFramework.Audio.AckFlush
import MediaFramework.Audio.SingleStateQueue
import MediaFramework.Audio.SingleStateRuns
import MediaFramework.Audio.StateQueue
import MediaFramework.Audio.StateQueueRuns
import MediaFramework.Audio.StaticCoalescing
import MediaFramework.Audio.StaticInvariant
import MediaFramework.Audio.StaticPlayback
import MediaFramework.Audio.StaticSequence
import MediaFramework.Audio.StaticTrack
import MediaFramework.Audio.StopBarrier
import MediaFramework.Audio.StreamingFifo
import MediaFramework.Audio.StreamingInvariant
import MediaFramework.Audio.StreamingRuns
import MediaFramework.Audio.StreamingTrack
import MediaFramework.Audio.TimedWaits
import MediaFramework.Audio.WaitLimits
import MediaFramework.Mp4.BoxWalk
import MediaFramework.Mp4.ItemAttempts
import MediaFramework.Mp4.ItemBoxes
import MediaFramework.Mp4.ItemBuilding
import MediaFramework.Mp4.ItemEffects
import MediaFramework.Mp4.ItemOrder
import MediaFramework.Mp4.ItemReadings
import MediaFramework.Mp4.ItemRebuild
import MediaFramework.Mp4.ItemSafety
import MediaFramework.Mp4.ItemTable
import MediaFramework.Mp4.SampleEntries
import MediaFramework.Mp4.SampleFormat
import MediaFramework.Mp4.SampleHistory
import MediaFramework.Mp4.SampleIterator
import MediaFramework.Mp4.SampleLookup
import MediaFramework.Mp4.SampleScan
import MediaFramework.Mp4.SampleTimes
import MediaFramework.Mp4.SyncSamples
import MediaFramework.Mp4.TimeIndex
import MediaFramework.Mp4.TimeSearch
import MediaFramework.Camera.BufferCounts
import MediaFramework.Camera.BufferManager
import MediaFramework.Camera.BufferRuns
import MediaFramework.Camera.ClientManager
import MediaFramework.Camera.ClientRuns
import MediaFramework.Camera.Eviction
import MediaFramework.Camera.Goers
import MediaFramework.Camera.Notifications
import MediaFramework.Camera.Refusals
import MediaFramework.Camera.Sweep
import MediaFramework.AAudio.FifoBuffer
import MediaFramework.AAudio.FifoRuns
import MediaFramework.AAudio.FixedBlockAdapter
import MediaFramework.AAudio.FixedBlockRuns
import MediaFramework.AAudio.IdealHardware
import MediaFramework.AAudio.IsochronousClockModel
import MediaFramework.AudioProcessing.CopyBufferProvider
import MediaFramework.AudioProcessing.CopyBufferRuns
import MediaFramework.Bufferpool.Accounts
import MediaFramework.Bufferpool.BufferPool
import MediaFramework.Bufferpool.Invalidations
import MediaFramework.Bufferpool.Ownership
import MediaFramework.ClearKey.CryptoPlugin
import MediaFramework.ClearKey.Decryption
import MediaFramework.ClearKey.InitData
import MediaFramework.ClearKey.KeyRequest
import MediaFramework.Codec2.BufferChannel
import MediaFramework.Codec2.EndOfStream
import MediaFramework.Codec2.ReorderOrder
import MediaFramework.Codec2.ReorderRuns
import MediaFramework.Codec2.ReorderSegments
import MediaFramework.Codec2.SkipCutBuffer
import MediaFramework.Codec2.SkipCutRuns
import MediaFramework.DataSource.CachedReads
import MediaFramework.DataSource.CallbackDataSource
import MediaFramework.DataSource.NuCachedSource2
import MediaFramework.DataSource.PageCache
import MediaFramework.DataSource.PrefetcherRuns
import MediaFramework.DataSource.Prefetching
import MediaFramework.DataSource.TinyCache
import MediaFramework.ForwardLock.Base64Bodies
import MediaFramework.ForwardLock.Calls
import MediaFramework.ForwardLock.Chunking
import MediaFramework.ForwardLock.Conversions
import MediaFramework.ForwardLock.Converter
import MediaFramework.ForwardLock.Fronts
import MediaFramework.ForwardLock.KeyStream
import MediaFramework.ForwardLock.RoundTrip
import MediaFramework.Foundation.ABitReader
import MediaFramework.Foundation.AMessage
import MediaFramework.Foundation.AvcDimensions
import MediaFramework.Foundation.AvcParsing
import MediaFramework.Foundation.AvcUtils
import MediaFramework.Foundation.Base64
import MediaFramework.Foundation.Base64RoundTrip
import MediaFramework.Foundation.DifferenceLaws
import MediaFramework.Foundation.Differences
import MediaFramework.Foundation.GolombReaders
import MediaFramework.Foundation.MessageCopies
import MediaFramework.Foundation.MessageMaps
import MediaFramework.Foundation.MessageMemory
import MediaFramework.Foundation.MessageParcel
import MediaFramework.Foundation.NALBitReader
import MediaFramework.Foundation.NALDecoding
import MediaFramework.Foundation.NALReservoir
import MediaFramework.Foundation.NALUnits
import MediaFramework.Foundation.OpusHeader
import MediaFramework.Foundation.OpusRoundTrip
import MediaFramework.Foundation.OpusScan
import MediaFramework.Foundation.ParcelRoundTrip
import MediaFramework.Foundation.ParcelSafety
import MediaFramework.Foundation.PutBits
import MediaFramework.Foundation.Rbsp
import MediaFramework.Foundation.ReaderShifts
import MediaFramework.Foundation.SpsSyntax
import MediaFramework.Hls.AttributeLists
import MediaFramework.Hls.M3UParser
import MediaFramework.Hls.MediaPlaylist
import MediaFramework.Hls.ParsingSteps
import MediaFramework.Hls.PlaylistKinds
import MediaFramework.Hls.PlaylistLines
import MediaFramework.Hls.PlaylistUrls
import MediaFramework.Hls.RenderedMedia
import MediaFramework.Hls.RenderedStreams
import MediaFramework.Hls.SelectionRuns
import MediaFramework.Hls.TrackSelection
import MediaFramework.Id3.Accesses
import MediaFramework.Id3.AlbumArt
import MediaFramework.Id3.CheckedIteration
import MediaFramework.Id3.Encoding
import MediaFramework.Id3.FrameRewrite
import MediaFramework.Id3.ID3
import MediaFramework.Id3.Iteration
import MediaFramework.Id3.Recovery
import MediaFramework.Id3.Resynchronization
import MediaFramework.Id3.Unsynchronization
import MediaFramework.ImgUtils.StripTags
import MediaFramework.ImgUtils.SubIfds
import MediaFramework.ImgUtils.TiffContent
import MediaFramework.ImgUtils.TiffFormat
import MediaFramework.ImgUtils.TiffLayout
import MediaFramework.ImgUtils.TiffPlaces
import MediaFramework.ImgUtils.TiffReading
import MediaFramework.ImgUtils.TiffRuns
import MediaFramework.ImgUtils.TiffWriter
import MediaFramework.MediaMetrics.Filters
import MediaFramework.MediaMetrics.ItemMap
import MediaFramework.MediaMetrics.MediaAnalyticsItem
import MediaFramework.MediaMetrics.PropLayout
import MediaFramework.MediaMetrics.PropMemory
import MediaFramework.Mtp.MtpDataPacket
import MediaFramework.Mtp.MtpProperty
import MediaFramework.Mtp.RoundTrip
import MediaFramework.Mtp.StringTruncation
import MediaFramework.Mtp.StringWriters
import MediaFramework.Mtp.Strings
import MediaFramework.Mtp.Upload
import MediaFramework.Mtp.UploadRuns
import MediaFramework.Mtp.Values
import MediaFramework.ResourceManager.Completeness
import MediaFramework.ResourceManager.CpuBoost
import MediaFramework.ResourceManager.Reclaim
import MediaFramework.ResourceManager.Service
import MediaFramework.Rtsp.AMRPackets
import MediaFramework.Rtsp.AMRRoundTrip
import MediaFramework.Rtsp.AVCAssembler
import MediaFramework.Rtsp.AVCDelivery
import MediaFramework.Rtsp.AVCPackets
import MediaFramework.Rtsp.AVCQueue
import MediaFramework.Rtsp.AVCReads
import MediaFramework.Rtsp.AVCReassembly
import MediaFramework.Rtsp.AVCRoundTrip
import MediaFramework.Rtsp.SequenceNumbers
import MediaFramework.Rtsp.SequenceRuns
import MediaFramework.Webm.Serialization
import MediaFramework.Webm.WebmElement
