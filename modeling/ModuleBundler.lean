import ModuleBundler.File.Disk
import ModuleBundler.File.Store
import ModuleBundler.Main
import ModuleBundler.Proofs.Discovery
import ModuleBundler.Proofs.Graph
import ModuleBundler.Proofs.BuildRun
import ModuleBundler.Proofs.Locate
import ModuleBundler.Proofs.Identity
import ModuleBundler.Proofs.Termination
import ModuleBundler.Proofs.BuildOutcome
import ModuleBundler.Proofs.Literal
import ModuleBundler.Proofs.Scanning
import ModuleBundler.Proofs.Hoisted
import ModuleBundler.Proofs.Statements
import ModuleBundler.Proofs.JsonDecode
import ModuleBundler.Proofs.Specifiers
import ModuleBundler.Proofs.Lexemes
import ModuleBundler.Proofs.Nesting
import ModuleBundler.Proofs.Embedding
import ModuleBundler.Proofs.Isolation
import ModuleBundler.Proofs.Layout
import ModuleBundler.Proofs.Splices
import ModuleBundler.Proofs.Declarations
import ModuleBundler.Proofs.Edits
import ModuleBundler.Proofs.Coverage
import ModuleBundler.Proofs.Store
import ModuleBundler.Proofs.Requires
import ModuleBundler.Proofs.Separation
import ModuleBundler.Proofs.Lowercase
import ModuleBundler.Proofs.Simulation
import ModuleBundler.Proofs.Effect
import ModuleBundler.Proofs.CaseFolding
import ModuleBundler.Proofs.Ensures
import ModuleBundler.Proofs.Canonical
import ModuleBundler.Proofs.Assembly
import ModuleBundler.Proofs.Substitutions
import ModuleBundler.Proofs.Overwriting
import ModuleBundler.Proofs.PatternExports
import ModuleBundler.Proofs.Initialisers
import ModuleBundler.Proofs.Copies
import ModuleBundler.Proofs.Neighbours
import ModuleBundler.Proofs.DefaultExports
import ModuleBundler.Proofs.ImportGrammar
import ModuleBundler.Proofs.Attributes
import ModuleBundler.Proofs.Temporaries
import ModuleBundler.Proofs.Positions
import ModuleBundler.Proofs.LineEndings
import ModuleBundler.Proofs.Divisions
import ModuleBundler.Proofs.Interpolation
import ModuleBundler.Proofs.Encodings
import ModuleBundler.Proofs.Escapes
import ModuleBundler.Proofs.Blames
import ModuleBundler.Proofs.Diagnostics
import ModuleBundler.Proofs.NormalForm
import ModuleBundler.Proofs.Probing
import ModuleBundler.Proofs.EntryPaths
import ModuleBundler.Proofs.Sites
import ModuleBundler.Proofs.Banner
import ModuleBundler.Proofs.MadeDirectories
import ModuleBundler.Proofs.LastWritten
import ModuleBundler.Proofs.Views
import ModuleBundler.Proofs.FirstFile
import ModuleBundler.Proofs.Partners
import ModuleBundler.Proofs.Conditions
import ModuleBundler.Proofs.JsonGrammar
import ModuleBundler.Proofs.JsonParts
import ModuleBundler.Proofs.GraphDumps
import ModuleBundler.Proofs.JsonSkip
import ModuleBundler.Proofs.SettingsText
