import RefStr.RawCodec
import RefStr.Ops
import RefStr.Heap
import RefStr.Encoding
import RefStr.Text
import RefStr.Represents
import RefStr.Equality
import RefStr.Ownership
import RefStr.Metadata
import RefStr.Refinement
import RefStr.Promotion
import RefStr.Conversion
import RefStr.RawPointers
import RefStr.Entries
import RefStr.CowConversion
import RefStr.Validation
import RefStr.Completion
import RefStr.Safety
import RefStr.HashFilter
import RefStr.RaceFreedom
import RefStr.WindDown
import RefStr.LifetimeSafety
import RefStr.Relocation
import RefStr.Formats
import RefStr.Observers
