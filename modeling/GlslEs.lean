import GlslEs.Command.Disk
import GlslEs.Main
import GlslEs.Proofs.Calls.Overloads
import GlslEs.Proofs.Check.Constants
import GlslEs.Proofs.Check.Counter
import GlslEs.Proofs.Check.Indices
import GlslEs.Proofs.Check.Totals
import GlslEs.Proofs.Check.Typed
import GlslEs.Proofs.Execution.Evaluation
import GlslEs.Proofs.Execution.Footprint
import GlslEs.Proofs.Execution.Statement
import GlslEs.Proofs.Layout.Order
import GlslEs.Proofs.Layout.Std140
import GlslEs.Proofs.Mangle.Apart
import GlslEs.Proofs.Mangle.Enumeration
import GlslEs.Proofs.Minify.Hoist
import GlslEs.Proofs.Minify.Meaning
import GlslEs.Proofs.Minify.Names
import GlslEs.Proofs.Optimize.Constant
import GlslEs.Proofs.Optimize.Effects
import GlslEs.Proofs.Optimize.Fixpoint
import GlslEs.Proofs.Optimize.Meaning
import GlslEs.Proofs.Optimize.Progress
import GlslEs.Proofs.Reading.Places
import GlslEs.Proofs.Resolve.Again
import GlslEs.Proofs.Resolve.Sites
import GlslEs.Proofs.Semantics.Constant
import GlslEs.Proofs.Writing.Read
import GlslEs.Proofs.Writing.Styles
