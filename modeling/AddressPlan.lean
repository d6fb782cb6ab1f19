import AddressPlan.Allocation.Allocator
import AddressPlan.Allocation.Batch
import AddressPlan.Catalog.Basic
import AddressPlan.Catalog.Codec
import AddressPlan.Catalog.Scope
import AddressPlan.Command.Arguments
import AddressPlan.Command.Input
import AddressPlan.Command.Run
import AddressPlan.Config.Basic
import AddressPlan.Config.Codec
import AddressPlan.Decoder.Basic
import AddressPlan.Decoder.Record
import AddressPlan.Files.Basic
import AddressPlan.Json.Printer
import AddressPlan.Json.Reader
import AddressPlan.Main
import AddressPlan.Proofs.Allocation.AsListed
import AddressPlan.Proofs.Allocation.Atomic
import AddressPlan.Proofs.Allocation.Backends
import AddressPlan.Proofs.Allocation.Decoding
import AddressPlan.Proofs.Allocation.Duplicates
import AddressPlan.Proofs.Allocation.Gate
import AddressPlan.Proofs.Allocation.HandedOut
import AddressPlan.Proofs.Allocation.Isolation
import AddressPlan.Proofs.Allocation.LargestFirst
import AddressPlan.Proofs.Allocation.Listing
import AddressPlan.Proofs.Allocation.OneByOne
import AddressPlan.Proofs.Allocation.Sharing
import AddressPlan.Proofs.Allocation.Siblings
import AddressPlan.Proofs.Catalog.Nesting
import AddressPlan.Proofs.Catalog.Seeds
import AddressPlan.Proofs.Net.Order
import AddressPlan.Proofs.Net.RoundTrip
import AddressPlan.Proofs.Service.Paging
import AddressPlan.Proofs.Service.Posting
import AddressPlan.Proofs.Service.Status
import AddressPlan.Proofs.Space.Canonical
import AddressPlan.Proofs.Space.Cursor
import AddressPlan.Proofs.Space.Recompute
import AddressPlan.Proofs.Space.Subtract
import AddressPlan.Proofs.Space.Word
import AddressPlan.Service.Basic
import AddressPlan.Space.Carve
import AddressPlan.Text.Quoted
import AddressPlan.Time.Date
import AddressPlan.Time.Timestamp
import AddressPlan.Time.Timestamp.Parser
import AddressPlan.Yaml.Cursor
import AddressPlan.Yaml.Node
import AddressPlan.Yaml.Scalar
import AddressPlan.Yaml.Token
