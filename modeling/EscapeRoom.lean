import EscapeRoom.Bench.Coverage
import EscapeRoom.Bench.Round
import EscapeRoom.Bench.SelfCheck
import EscapeRoom.Bench.TimeShare
import EscapeRoom.Main
import EscapeRoom.Proofs.Assets.Races
import EscapeRoom.Proofs.FailedRuns
import EscapeRoom.Proofs.Fields
import EscapeRoom.Proofs.Game.Actions
import EscapeRoom.Proofs.Game.Storage
import EscapeRoom.Proofs.Game.Walk
import EscapeRoom.Proofs.Level.Declarations
import EscapeRoom.Proofs.Level.Endings
import EscapeRoom.Proofs.Level.MapIssues
import EscapeRoom.Proofs.Level.Reprinting
import EscapeRoom.Proofs.TileKit.Acceptance
import EscapeRoom.Proofs.TileKit.Coverage
import EscapeRoom.Proofs.TileKit.ReadBack
import EscapeRoom.Proofs.Tileset.Constants
import EscapeRoom.Proofs.Tileset.SectionOrder
import EscapeRoom.Sample.Spec
import EscapeRoom.Workload.Families
