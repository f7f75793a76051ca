import SlabAllocator.Descriptor.Role
import SlabAllocator.Region.Tables
import SlabAllocator.Mutex.Guards
import SlabAllocator.Pool.Refusal
import SlabAllocator.Session
import SlabAllocator.Settings.Environment
import SlabAllocator.SharedMapping
import SlabAllocator.Proofs.QuietFailures
import SlabAllocator.Proofs.Releases
import SlabAllocator.Proofs.HeldBytes
import SlabAllocator.Proofs.Choices
import SlabAllocator.Proofs.Statistics
import SlabAllocator.Proofs.NoFault
import SlabAllocator.Proofs.Attaching
import SlabAllocator.Proofs.MutualExclusion
import SlabAllocator.Proofs.MirroredSteps
import SlabAllocator.Proofs.MirroredCalls
import SlabAllocator.Pool.Script
import SlabAllocator.Proofs.PositionIndependence
import SlabAllocator.Proofs.Determined
import SlabAllocator.Proofs.Twins
import SlabAllocator.Proofs.DataBytes
import SlabAllocator.Proofs.WakeUps
import SlabAllocator.Proofs.SplitRuns
import SlabAllocator.Proofs.OwnParts
import SlabAllocator.Proofs.Snapshots
import SlabAllocator.Proofs.Intervals
import SlabAllocator.Proofs.ReleaseOrders
import SlabAllocator.Machine.Layout
import SlabAllocator.Proofs.SpanUse
import SlabAllocator.Bitmap
import SlabAllocator.Proofs.BitmapAsSet
import SlabAllocator.Proofs.BackOff
import SlabAllocator.Proofs.ListEdits
import SlabAllocator.Proofs.Lossless
