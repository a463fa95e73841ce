import TagBalance.Main
import TagBalance.Proofs.Backwards
import TagBalance.Proofs.BasicStrings
import TagBalance.Proofs.Cascade
import TagBalance.Proofs.Chunks
import TagBalance.Proofs.Decoding
import TagBalance.Proofs.Decomposition
import TagBalance.Proofs.Depth
import TagBalance.Proofs.Extension
import TagBalance.Proofs.IndexedOverride
import TagBalance.Proofs.Invocation
import TagBalance.Proofs.Loading
import TagBalance.Proofs.Markup
import TagBalance.Proofs.OptionalFiles
import TagBalance.Proofs.Pairing
import TagBalance.Proofs.PatternReading
import TagBalance.Proofs.Renaming
import TagBalance.Proofs.Repair
import TagBalance.Proofs.ReportReading
import TagBalance.Proofs.Respelling
import TagBalance.Proofs.Resumption
import TagBalance.Proofs.RoundTrip
import TagBalance.Proofs.Transparency
import TagBalance.Proofs.Unmatched
import TagBalance.Proofs.WrittenLists
