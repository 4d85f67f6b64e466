import KeyForm.Json.Parser
import KeyForm.Main
import KeyForm.Batch.Binding
import KeyForm.Proofs.Acceptance
import KeyForm.Proofs.Clearing
import KeyForm.Proofs.Coupling
import KeyForm.Proofs.Displacement
import KeyForm.Proofs.Inference
import KeyForm.Proofs.Overlay
import KeyForm.Proofs.Policies
import KeyForm.Proofs.ReadBack
import KeyForm.Proofs.Stream
import KeyForm.Proofs.TextAcceptance
import KeyForm.Proofs.Extension
import KeyForm.Proofs.Faults
import KeyForm.Proofs.Contents
import KeyForm.Proofs.Apart
import KeyForm.Proofs.Listings
import KeyForm.Proofs.JsonBatches
import KeyForm.Proofs.Calls
import KeyForm.Proofs.Payloads
import KeyForm.Proofs.Nesting
import KeyForm.Proofs.Lines
import KeyForm.Proofs.Places
import KeyForm.Proofs.EmptySections
import KeyForm.Proofs.MovedOptions
import KeyForm.Proofs.ByteOrder
import KeyForm.Proofs.EditScripts
import KeyForm.Proofs.Suggestions
import KeyForm.Proofs.RegistryContents
import KeyForm.Proofs.Overwriting
import KeyForm.Proofs.WrittenNames
import KeyForm.Proofs.LastFlag
