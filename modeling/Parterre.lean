import Parterre.Derivation.Engine
import Parterre.Drawing.Image
import Parterre.Rule.Scripted
import Parterre.Text.Aligned
import Parterre.Proofs.AgendaDraws
import Parterre.Proofs.AgendaHistory
import Parterre.Proofs.BudgetSlices
import Parterre.Proofs.Calls
import Parterre.Proofs.CheckedDraws
import Parterre.Proofs.Containment
import Parterre.Proofs.CutChains
import Parterre.Proofs.CutDraws
import Parterre.Proofs.CutTree
import Parterre.Proofs.EvenDraws
import Parterre.Proofs.EventStream
import Parterre.Proofs.ExactAgenda
import Parterre.Proofs.Expansions
import Parterre.Proofs.FailedSteps
import Parterre.Proofs.FairDraws
import Parterre.Proofs.FinalLayout
import Parterre.Proofs.GardenSteps
import Parterre.Proofs.GrammarInstances
import Parterre.Proofs.GraphStore
import Parterre.Proofs.KeptBorders
import Parterre.Proofs.LaidPaths
import Parterre.Proofs.MetricCoordinates
import Parterre.Proofs.MetricPlots
import Parterre.Proofs.NearestLines
import Parterre.Proofs.NodeLists
import Parterre.Proofs.Observation
import Parterre.Proofs.Painting
import Parterre.Proofs.PathSegments
import Parterre.Proofs.PendingWork
import Parterre.Proofs.PhaseOrder
import Parterre.Proofs.PondBounds
import Parterre.Proofs.Rebuilding
import Parterre.Proofs.RebuiltEdges
import Parterre.Proofs.Renumbering
import Parterre.Proofs.ScatteredCircles
import Parterre.Proofs.SectorEdges
import Parterre.Proofs.TerrainReach
import Parterre.Proofs.WordRuns
import Parterre.Proofs.Workload
