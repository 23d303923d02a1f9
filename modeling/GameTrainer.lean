import GameTrainer.Main
import GameTrainer.MemoryImage
import GameTrainer.Proofs.ItemGrid
import GameTrainer.Proofs.CandidateView
import GameTrainer.Proofs.CandidateElimination
import GameTrainer.Proofs.CandidateWalk
import GameTrainer.Proofs.CandidateRuns
import GameTrainer.Proofs.SearchSoundness
import GameTrainer.Proofs.ItemBits
import GameTrainer.Proofs.SearchHistory
import GameTrainer.Proofs.PinningPass
import GameTrainer.Proofs.EntrySwitches
import GameTrainer.Proofs.MatchPromotion
import GameTrainer.Proofs.DocumentMap
import GameTrainer.Proofs.DocumentText
import GameTrainer.Proofs.RecordKeys
import GameTrainer.Proofs.RecordRoundTrip
import GameTrainer.Proofs.PulseTrace
import GameTrainer.Proofs.ListRuns
import GameTrainer.Proofs.PendingPulses
import GameTrainer.Proofs.EntryPlaces
import GameTrainer.Proofs.ListSheets
import GameTrainer.Proofs.ListSteps
import GameTrainer.Proofs.PassTurns
import GameTrainer.Proofs.IdleEntries
import GameTrainer.Proofs.ParsedKeys
import GameTrainer.Proofs.DocumentEdits
import GameTrainer.Proofs.RecordMerge
import GameTrainer.Proofs.FailedCalls
import GameTrainer.Proofs.SavedLists
import GameTrainer.Proofs.AppliedDumps
import GameTrainer.Proofs.CodesInStep
import GameTrainer.Proofs.RumbleWarmUp
import GameTrainer.Proofs.RecordsOfText
import GameTrainer.Proofs.GamePaths
import GameTrainer.Proofs.FailedCommands
import GameTrainer.Proofs.PassFootprint
import GameTrainer.Proofs.WritesInPlace
import GameTrainer.Proofs.RepeatedSets
import GameTrainer.Proofs.ExchangedEntries
import GameTrainer.Proofs.PulseTiming
import GameTrainer.Proofs.MatchIndices
import GameTrainer.Proofs.PromotionLimit
import GameTrainer.Proofs.NarrowedSets
import GameTrainer.Proofs.ItemLens
import GameTrainer.Proofs.RecordParts
import GameTrainer.Proofs.QuerySpelling
import GameTrainer.Proofs.QueryGrammar
import GameTrainer.Proofs.FallenItems
import GameTrainer.Proofs.RefusedOperations
