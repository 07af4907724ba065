import PixelCoverage.Canonical
import PixelCoverage.Claim.Site
import PixelCoverage.CoverageMap.Atlas
import PixelCoverage.Grid.Lemmas
import PixelCoverage.Proofs.Decompose
import PixelCoverage.Proofs.Flag
import PixelCoverage.Proofs.Reservation
import PixelCoverage.Proofs.Marks
import PixelCoverage.Proofs.Steps
import PixelCoverage.Proofs.StopSignal
import PixelCoverage.Proofs.Uniform
import PixelCoverage.Proofs.Tiles
import PixelCoverage.Proofs.Release
import PixelCoverage.Proofs.DoubleWork
import PixelCoverage.Proofs.Consistency
import PixelCoverage.Proofs.Album
import PixelCoverage.Proofs.Session
import PixelCoverage.Proofs.Locality
import PixelCoverage.Proofs.CopiedRegion
import PixelCoverage.Proofs.BoundingBox
import PixelCoverage.Proofs.Totality
import PixelCoverage.Proofs.Progress
import PixelCoverage.Proofs.Census
import PixelCoverage.Proofs.Lost
import PixelCoverage.Proofs.World
import PixelCoverage.Proofs.Settlement
import PixelCoverage.Proofs.Refusal
import PixelCoverage.Proofs.Accessors
import PixelCoverage.Proofs.Attempts
import PixelCoverage.Proofs.Round
import PixelCoverage.Proofs.Lines
import PixelCoverage.Proofs.Tiling
import PixelCoverage.Proofs.Rectangles
