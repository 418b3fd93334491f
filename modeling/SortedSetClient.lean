import SortedSetClient.Main
import SortedSetClient.Proofs.FrameCutting
import SortedSetClient.Proofs.ReplyMatching
import SortedSetClient.Proofs.StreamReading
import SortedSetClient.Recorder
import SortedSetClient.Resp.Stream
import SortedSetClient.Proofs.CallRuns
import SortedSetClient.Proofs.FailedExchanges
import SortedSetClient.Proofs.UnreadOctets
import SortedSetClient.Proofs.ChunkedCalls
import SortedSetClient.Proofs.StreamConsumption
import SortedSetClient.Proofs.ReplyOrder
import SortedSetClient.Proofs.Dispatch
import SortedSetClient.Proofs.CommandReading
import SortedSetClient.Proofs.ErrorReplies
import SortedSetClient.Proofs.CommandLines
import SortedSetClient.Proofs.ScoreOrder
import SortedSetClient.Proofs.ScoreTexts
import SortedSetClient.Proofs.BoundTexts
import SortedSetClient.Proofs.LexBoundTexts
import SortedSetClient.Proofs.ExactValues
import SortedSetClient.Proofs.CountedRanges
import SortedSetClient.Proofs.ListReplies
import SortedSetClient.Proofs.ScanPages
import SortedSetClient.Proofs.ReplyScores
import SortedSetClient.Proofs.RejectedStreams
import SortedSetClient.Proofs.LexBoundSides
import SortedSetClient.Proofs.PrintedLines
import SortedSetClient.Proofs.GivenScores
import SortedSetClient.Proofs.PairedScores
import SortedSetClient.Proofs.CheckedDigits
import SortedSetClient.Proofs.NearestNumbers
import SortedSetClient.Proofs.DeclaredCounts
import SortedSetClient.Proofs.IntegerTexts
import SortedSetClient.Proofs.GuardedSteps
import SortedSetClient.Proofs.GuardedReading
import SortedSetClient.Proofs.GuardedScanning
