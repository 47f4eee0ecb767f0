import ChainBoot.Boot.Notes
import ChainBoot.Descriptor.Draft
import ChainBoot.Elf.Encode
import ChainBoot.Log.Console
import ChainBoot.Proofs.Range
import ChainBoot.Proofs.Search
import ChainBoot.Proofs.Memory
import ChainBoot.Proofs.Bytes
import ChainBoot.Proofs.Walk
import ChainBoot.Proofs.Edits
import ChainBoot.Proofs.Stored
import ChainBoot.Proofs.Collection
import ChainBoot.Proofs.Relocation
import ChainBoot.Proofs.Runs
import ChainBoot.Proofs.HandedOver
import ChainBoot.Proofs.Kernel
import ChainBoot.Proofs.Contents
import ChainBoot.Proofs.Placement
import ChainBoot.Proofs.JumpPage
import ChainBoot.Proofs.Usable
import ChainBoot.Loader.Moves
import ChainBoot.Proofs.Visits
import ChainBoot.Proofs.Ratchet
import ChainBoot.Proofs.Written
import ChainBoot.Proofs.Settled
import ChainBoot.Proofs.Agreement
import ChainBoot.Proofs.Refusal
import ChainBoot.Proofs.Termination
import ChainBoot.Proofs.Determined
import ChainBoot.Proofs.Image
import ChainBoot.Proofs.Chain
import ChainBoot.Proofs.Draft
import ChainBoot.Proofs.InPlace
import ChainBoot.Proofs.Exclusion
import ChainBoot.Proofs.Format
import ChainBoot.Proofs.Ample
import ChainBoot.Proofs.EntryKind
import ChainBoot.Proofs.Highest
import ChainBoot.Proofs.Verdict
import ChainBoot.Proofs.Lookalike
import ChainBoot.Proofs.Recollection
import ChainBoot.Proofs.TopOfMemory
import ChainBoot.Proofs.CommandLine
import ChainBoot.Proofs.Conflict
import ChainBoot.Proofs.EntryPoint
import ChainBoot.Proofs.Stride
import ChainBoot.Proofs.StartLength
