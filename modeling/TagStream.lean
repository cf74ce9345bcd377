import TagStream.Reader.Run
import TagStream.Schema.Matroska
import TagStream.Schema.Restriction
import TagStream.Supply.File
import TagStream.Supply.Script
import TagStream.Proofs.Delimited
import TagStream.Proofs.Independence
import TagStream.Proofs.Parse
import TagStream.Proofs.Nesting
import TagStream.Proofs.Rewriting
import TagStream.Proofs.Adjacency
import TagStream.Proofs.Extent
import TagStream.Proofs.Metering
import TagStream.Proofs.Suspension
import TagStream.Proofs.Draining
import TagStream.Proofs.Restart
import TagStream.Proofs.Progress
import TagStream.Proofs.Provision
import TagStream.Proofs.Queue
import TagStream.Proofs.Accounting
import TagStream.Proofs.Limit
import TagStream.Proofs.Sequence
import TagStream.Proofs.Feeding
import TagStream.Proofs.Displacement
import TagStream.Proofs.Parentage
import TagStream.Proofs.Footprint
import TagStream.Proofs.Dealings
import TagStream.Proofs.Utf8
import TagStream.Proofs.Codewords
import TagStream.Proofs.Lookup
import TagStream.Proofs.TwosComplement
import TagStream.Proofs.Blocks
