import SsaCompiler.Checking.Encoding
import SsaCompiler.Files.FileTree
import SsaCompiler.Ir.Encoding
import SsaCompiler.Main
import SsaCompiler.Proofs.Blurring.Units
import SsaCompiler.Proofs.Checking.StructLiterals
import SsaCompiler.Proofs.Checking.Total
import SsaCompiler.Proofs.Compilation.Constants
import SsaCompiler.Proofs.Compilation.Literals
import SsaCompiler.Proofs.Compilation.Numbering
import SsaCompiler.Proofs.Compilation.Storage
import SsaCompiler.Proofs.Compilation.Values
import SsaCompiler.Proofs.Declarations.Containment
import SsaCompiler.Proofs.Declarations.Rendering
import SsaCompiler.Proofs.Interning.Session
import SsaCompiler.Proofs.Ir.Bookkeeping
import SsaCompiler.Proofs.Ir.Strings
import SsaCompiler.Proofs.Symbols.Identifiers
import SsaCompiler.Proofs.Syntax.Reading.Units
import SsaCompiler.Proofs.Typing.Promotion
import SsaCompiler.Syntax.Shorthand
