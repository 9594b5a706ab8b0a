import Terrarium.CommandLine
import Terrarium.Client.Transport
import Terrarium.Main
import Terrarium.Release
import Terrarium.Server.Connection
import Terrarium.Proofs.GridSize
import Terrarium.Proofs.SourceRegistry
import Terrarium.Proofs.FrameCuts
import Terrarium.Proofs.FrameInterruption
import Terrarium.Proofs.QueueDelivery
import Terrarium.Proofs.PieceReading
import Terrarium.Proofs.HeadRoundTrip
import Terrarium.Proofs.ItemRoundTrip
import Terrarium.Proofs.DatumRoundTrip
import Terrarium.Proofs.MessageRoundTrip
import Terrarium.Proofs.StreamRoundTrip
import Terrarium.Proofs.PoolRegions
import Terrarium.Proofs.PoolWords
import Terrarium.Proofs.TableCalls
import Terrarium.Proofs.FreeIds
import Terrarium.Proofs.FailedOperations
import Terrarium.Proofs.TableSlots
import Terrarium.Proofs.WorldMoves
import Terrarium.Proofs.IdPartition
import Terrarium.Proofs.RectCells
import Terrarium.Proofs.GridCells
import Terrarium.Proofs.GroundCopy
import Terrarium.Proofs.SourceOrder
import Terrarium.Proofs.TokenDispatch
import Terrarium.Proofs.ResponseSize
import Terrarium.Proofs.CommandFlow
import Terrarium.Proofs.DirectDelivery
import Terrarium.Proofs.StreamDelivery
import Terrarium.Proofs.SingleOrder
import Terrarium.Proofs.SingleRounding
import Terrarium.Proofs.SingleArithmetic
import Terrarium.Proofs.SmoothHeights
import Terrarium.Proofs.GroundHeights
import Terrarium.Proofs.FluidDepths
import Terrarium.Proofs.StepSchedule
import Terrarium.Proofs.TableRuns
import Terrarium.Proofs.IdOwnership
import Terrarium.Proofs.ChunkTable
import Terrarium.Proofs.TableMap
import Terrarium.Proofs.PeerServing
import Terrarium.Proofs.PeerTranscript
import Terrarium.Proofs.Rasters
import Terrarium.Proofs.RasterPainting
import Terrarium.Proofs.RasterBasin
import Terrarium.Proofs.RasterWorld
import Terrarium.Proofs.OutcomeRules
import Terrarium.Proofs.BrushCells
import Terrarium.Proofs.BrushStrokes
import Terrarium.Proofs.SingleHalves
import Terrarium.Proofs.BrushPlaces
import Terrarium.Proofs.PackedBits
import Terrarium.Proofs.PackedValues
import Terrarium.Proofs.PackedBounds
import Terrarium.Proofs.DoubleValues
import Terrarium.Proofs.SecondsRange
import Terrarium.Proofs.StartedSettings
import Terrarium.Proofs.PoolStretches
import Terrarium.Proofs.PoolReturns
import Terrarium.Proofs.GridLocality
import Terrarium.Proofs.CommutingBrushes
import Terrarium.Proofs.SeparateSources
import Terrarium.Proofs.SourceBudget
import Terrarium.Proofs.StepLocality
import Terrarium.Proofs.PieceTurns
import Terrarium.Proofs.DelimitedReading
import Terrarium.Proofs.DelimitedItems
import Terrarium.Proofs.DelimitedPayloads
import Terrarium.Proofs.AlteredClasses
import Terrarium.Proofs.ReadDensities
import Terrarium.Proofs.ResponseDelivery
import Terrarium.Proofs.ItemForms
import Terrarium.Proofs.CommandOrder
import Terrarium.Proofs.FrameHistory
import Terrarium.Proofs.RectLattice
import Terrarium.Proofs.BrushFrames
import Terrarium.Proofs.GroundLookup
