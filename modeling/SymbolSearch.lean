import SymbolSearch.Main
import SymbolSearch.Proofs.Index.Declarations
import SymbolSearch.Proofs.Index.Entries
import SymbolSearch.Proofs.Index.Records
import SymbolSearch.Proofs.IndexFile.Binary
import SymbolSearch.Proofs.IndexFile.Rendered
import SymbolSearch.Proofs.Occurrence.Json
import SymbolSearch.Proofs.Occurrence.Merge
import SymbolSearch.Proofs.Query.Documents
import SymbolSearch.Proofs.Query.Member
import SymbolSearch.Proofs.Query.Parentheses
import SymbolSearch.Proofs.Query.Reach
import SymbolSearch.Proofs.Query.Spelling
import SymbolSearch.Proofs.Query.Widened
import SymbolSearch.Proofs.Report
import SymbolSearch.Proofs.Session
import SymbolSearch.Proofs.Settings.Store
import SymbolSearch.Proofs.Symbol.DisplayName
import SymbolSearch.Proofs.Symbol.FileIdentity
