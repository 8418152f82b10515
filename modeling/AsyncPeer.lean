import AsyncPeer.Main
import AsyncPeer.Proofs.Expansion
import AsyncPeer.Proofs.HeaderTree
import AsyncPeer.Proofs.Layout
import AsyncPeer.Proofs.HeaderReading
import AsyncPeer.Proofs.Balanced
import AsyncPeer.Proofs.Qualifiers
import AsyncPeer.Proofs.TypeLanguage
import AsyncPeer.Proofs.TypeSpelling
import AsyncPeer.Proofs.FunctionTypes
import AsyncPeer.Proofs.ResultTypes
import AsyncPeer.Proofs.Blocks
import AsyncPeer.Proofs.SingleResume
import AsyncPeer.Proofs.Scopes
import AsyncPeer.Proofs.HeaderLayout
import AsyncPeer.Proofs.Insertion
import AsyncPeer.Proofs.Comments
import AsyncPeer.Proofs.Eligibility
import AsyncPeer.Proofs.JsonReading
import AsyncPeer.Proofs.Handover
import AsyncPeer.Proofs.Formats
import AsyncPeer.Proofs.Discovery
import AsyncPeer.Proofs.WorkingDirectory
import AsyncPeer.Proofs.LayoutFree
import AsyncPeer.Proofs.BracketTree
import AsyncPeer.Proofs.Writes
import AsyncPeer.Proofs.Unqualified
import AsyncPeer.Proofs.Agreement
import AsyncPeer.Proofs.Report
import AsyncPeer.Proofs.Cuts
import AsyncPeer.Proofs.Bodies
import AsyncPeer.Proofs.AttributeNames
import AsyncPeer.Proofs.WholeTexts
import AsyncPeer.Proofs.Alignment
import AsyncPeer.Proofs.Guards
import AsyncPeer.Proofs.DeliveredTypes
