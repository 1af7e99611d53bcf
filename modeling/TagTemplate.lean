import TagTemplate.Main
import TagTemplate.Number.Literal
import TagTemplate.Proofs.AttributeTokens
import TagTemplate.Proofs.Attributes
import TagTemplate.Proofs.Concurrency
import TagTemplate.Proofs.Document
import TagTemplate.Proofs.EscapedQuotes
import TagTemplate.Proofs.Escaping
import TagTemplate.Proofs.Gate
import TagTemplate.Proofs.Gathering
import TagTemplate.Proofs.History
import TagTemplate.Proofs.Isolation
import TagTemplate.Proofs.Leaves
import TagTemplate.Proofs.Leftmost
import TagTemplate.Proofs.Locality
import TagTemplate.Proofs.Modes
import TagTemplate.Proofs.Nesting
import TagTemplate.Proofs.Opacity
import TagTemplate.Proofs.Overlong
import TagTemplate.Proofs.Passthrough
import TagTemplate.Proofs.Provenance
import TagTemplate.Proofs.Schedules
import TagTemplate.Proofs.Walk
import TagTemplate.Session
import TagTemplate.Proofs.Deeds
import TagTemplate.Proofs.QuickTest
import TagTemplate.Proofs.Signals
import TagTemplate.Proofs.Waiting
import TagTemplate.Proofs.JsonTrees
import TagTemplate.Proofs.Machine
import TagTemplate.Proofs.NameMap
import TagTemplate.Proofs.TagNames
import TagTemplate.Proofs.Coercion
import TagTemplate.Proofs.Splicing
import TagTemplate.Proofs.Atomicity
import TagTemplate.Proofs.Encoding
import TagTemplate.Proofs.LineEnds
import TagTemplate.Proofs.Logging
import TagTemplate.Proofs.Sessions
import TagTemplate.Proofs.Verbosity
