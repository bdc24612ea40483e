import Lineage.Session
import Lineage.Proofs.Interning
import Lineage.Proofs.Level
import Lineage.Proofs.Loading
import Lineage.Proofs.Override
import Lineage.Proofs.Permanence
import Lineage.Proofs.Persistence
import Lineage.Proofs.Blame
import Lineage.Proofs.Foreign
import Lineage.Proofs.Union
import Lineage.Proofs.Spelling
import Lineage.Proofs.SideBySide
import Lineage.Proofs.Transcript
import Lineage.Proofs.Refusal
import Lineage.Proofs.Synthetic
import Lineage.Proofs.Inheritance
import Lineage.Proofs.Footprint
import Lineage.Proofs.Outline
import Lineage.Proofs.Lookup
import Lineage.Proofs.Shadowing
import Lineage.Proofs.FieldUnion
import Lineage.Proofs.InterfaceUnion
import Lineage.Proofs.Walk
import Lineage.Proofs.Preorder
import Lineage.Proofs.Bound
import Lineage.Proofs.Root
import Lineage.Proofs.Implementing
import Lineage.Proofs.Accounting
import Lineage.Proofs.Extensionality
import Lineage.Proofs.Census
import Lineage.Proofs.Retrieval
import Lineage.Proofs.WellKnown
import Lineage.Proofs.UrlParts
import Lineage.Proofs.Hull
import Lineage.Proofs.Hash
