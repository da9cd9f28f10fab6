import ParticlesEngine.CacheSessions
import ParticlesEngine.AsOf
import ParticlesEngine.Generation
import ParticlesEngine.ScopeIndependence
import ParticlesEngine.SourceTrust
import ParticlesEngine.SuppressionLive
import ParticlesEngine.BeliefWrites
import ParticlesEngine.SubjectStore
import ParticlesEngine.FirstByKey
import ParticlesEngine.SubjectWrites
import ParticlesEngine.AliasIndex
import ParticlesEngine.SubjectLinks
import ParticlesEngine.ArtifactFold
import ParticlesEngine.FoldUndo
import ParticlesEngine.Reindex
import ParticlesEngine.WinnerChain
import ParticlesEngine.ReconcileSweeps
import ParticlesEngine.SweepWinners
import ParticlesEngine.EntryErasure
import ParticlesEngine.HeldRelease
import ParticlesEngine.DuplicateGroups
import ParticlesEngine.DuplicateUnmerge
import ParticlesEngine.RereadMerge
import ParticlesEngine.GenerationBackfill
import ParticlesEngine.AbsencePreview
import ParticlesEngine.ExtractionClaims
import ParticlesEngine.DocumentWalk
import ParticlesEngine.UtilityPolicy
import ParticlesEngine.LensTrust
import ParticlesEngine.LensStore
import ParticlesEngine.SubjectNames
import ParticlesEngine.RevisionPair
import ParticlesEngine.QueryRanking
import ParticlesEngine.ProvenanceIndex
import ParticlesEngine.AliasDistinct
import ParticlesEngine.PendingCollapse
import ParticlesEngine.ReindexComponents
import ParticlesEngine.InterchangeImport
import ParticlesEngine.SubjectResolution
import ParticlesEngine.SubjectSessions
import ParticlesEngine.SubjectReplay
import ParticlesEngine.Interleave
import ParticlesEngine.PassWrites
import ParticlesEngine.Paraphrases
import ParticlesEngine.Reanchor
import ParticlesEngine.LivePasses
import ParticlesEngine.Ancestry
import ParticlesEngine.Abstraction
import ParticlesEngine.AbstractionBounds
import ParticlesEngine.AbstractionRuns
import ParticlesEngine.NewestRows
import ParticlesEngine.ProbeLedger
import ParticlesEngine.ProbeAnswers
import ParticlesEngine.UpdateOrder
import ParticlesEngine.PairSelection
import ParticlesEngine.TagExpansion
import ParticlesEngine.ParticleTags
import ParticlesEngine.CoEvidentialCollapse
import ParticlesEngine.Precedence
import ParticlesEngine.ChainEnds
import ParticlesEngine.StandIns
import ParticlesEngine.GroundedTags
import ParticlesEngine.Grounding
import ParticlesEngine.TextCuts
import ParticlesEngine.DuplicateFixpoint
import ParticlesEngine.RereadQuestions
import ParticlesEngine.RestatementPairs
import ParticlesEngine.CandidateDedup
import ParticlesEngine.RateLimiter
import ParticlesEngine.AppendBase
import ParticlesEngine.ProjectionBudget
import ParticlesEngine.FocusWindow
import ParticlesEngine.MaximalRuns
import ParticlesEngine.VocabularyProposals
import ParticlesEngine.VocabularyStore
import ParticlesEngine.VocabularyProposals
import ParticlesEngine.VocabularyRuns
import ParticlesEngine.DepositConfinement
import ParticlesEngine.DepositIdentity
import ParticlesEngine.DepositRepeats
import ParticlesEngine.LockedFile
import ParticlesEngine.CycleLock
import ParticlesEngine.CycleLockSafety
import ParticlesEngine.CycleLockText
import ParticlesEngine.CycleLockRecovery
import ParticlesEngine.KeyFileEngine
import ParticlesEngine.CatchupStandstill
import ParticlesEngine.PrincipalBuckets
