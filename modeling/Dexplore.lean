import Dexplore.Assembly.Assembler
import Dexplore.Graph.Dot
import Dexplore.Machine
import Dexplore.Proofs.Allowance
import Dexplore.Proofs.GraphGrowth
import Dexplore.Proofs.PathTree
import Dexplore.Proofs.Precision
import Dexplore.Proofs.Template
import Dexplore.Proofs.Visit
import Dexplore.Proofs.DepthFirst
import Dexplore.Proofs.Covering
import Dexplore.Proofs.MethodPaths
import Dexplore.Proofs.Embedding
import Dexplore.Proofs.Soundness
import Dexplore.Proofs.Progress
import Dexplore.Proofs.Requests
import Dexplore.Proofs.Evaluation
import Dexplore.Proofs.Termination
import Dexplore.Proofs.Discipline
import Dexplore.Proofs.Lawful
import Dexplore.Proofs.ExploredTree
import Dexplore.Proofs.Preservation
import Dexplore.Proofs.Outcomes
import Dexplore.Proofs.StaticWrites
import Dexplore.Proofs.Loading
import Dexplore.Proofs.Operations
import Dexplore.Proofs.History
import Dexplore.Proofs.ClassStarts
import Dexplore.Proofs.GraphShape
import Dexplore.Proofs.Abandonment
import Dexplore.Proofs.Ceilings
import Dexplore.Proofs.Junctures
import Dexplore.Proofs.Widening
import Dexplore.Proofs.Initializers
import Dexplore.Proofs.Typing
import Dexplore.Proofs.TypedRuns
import Dexplore.Proofs.Grammar
import Dexplore.Proofs.Validation
import Dexplore.Proofs.Independence
import Dexplore.Proofs.ClassOrder
import Dexplore.Proofs.Summaries
import Dexplore.Proofs.PureCallees
import Dexplore.Proofs.FieldsApart
import Dexplore.Proofs.RefusedUpdates
import Dexplore.Proofs.Agreement
import Dexplore.Proofs.Accounting
import Dexplore.Proofs.ArrayStores
import Dexplore.Proofs.NestedArrays
import Dexplore.Proofs.Comparisons
import Dexplore.Proofs.Calculations
import Dexplore.Proofs.Footprints
import Dexplore.Proofs.StoreEffects
import Dexplore.Proofs.Layout
import Dexplore.Proofs.AssembledCode
import Dexplore.Proofs.Drawing
import Dexplore.Proofs.Segmentation
