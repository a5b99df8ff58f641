import MessageCompiler.Main
import MessageCompiler.Proofs.Cached
import MessageCompiler.Proofs.Listing
import MessageCompiler.Proofs.Footprint
import MessageCompiler.Proofs.Independent
import MessageCompiler.Proofs.Meaning
import MessageCompiler.Proofs.Mentions
import MessageCompiler.Proofs.NestedOnce
import MessageCompiler.Proofs.Numbering
import MessageCompiler.Proofs.Regions
import MessageCompiler.Proofs.Sanitized
import MessageCompiler.Proofs.Scheme
import MessageCompiler.Proofs.SelfNesting
import MessageCompiler.Proofs.Unambiguous
import MessageCompiler.Proofs.Blocks
import MessageCompiler.Proofs.Candidates
import MessageCompiler.Proofs.Identifiers
import MessageCompiler.Proofs.LeadingInteger
import MessageCompiler.Proofs.Wordwise
import MessageCompiler.Value
