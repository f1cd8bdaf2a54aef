import MergedMining.Proofs.ReadLaws
import MergedMining.Reconfiguration
import MergedMining.Consensus
import MergedMining.Session
import MergedMining.Summary
import MergedMining.Proofs.CompactSizeCodec
import MergedMining.Proofs.TransactionCodec
import MergedMining.Proofs.MessageGrammar
import MergedMining.Proofs.MarkerScan
import MergedMining.Proofs.VerificationOrder
import MergedMining.Proofs.Activation
import MergedMining.Proofs.DecodedBlocks
import MergedMining.Proofs.FieldByField
import MergedMining.Proofs.MessageSurroundings
import MergedMining.Proofs.HashIdentities
import MergedMining.Proofs.LawfulForms
import MergedMining.Proofs.JsonLexemes
import MergedMining.Proofs.DocumentRoundTrip
import MergedMining.Proofs.Strictness
import MergedMining.Proofs.RuleChanges
import MergedMining.Proofs.NetworkDocuments
import MergedMining.Proofs.SelfDelimiting
import MergedMining.Proofs.OversizedTransactions
import MergedMining.Proofs.MarkerLayout
import MergedMining.Proofs.CanonicalCode
import MergedMining.Proofs.VersionWord
import MergedMining.Proofs.Wording
import MergedMining.Proofs.Diagnostics
import MergedMining.Proofs.HeaderCodec
import MergedMining.Proofs.ReadSessions
import MergedMining.Proofs.SummaryText
import MergedMining.Proofs.ClientVerdicts
