import RegistryAuth.Text.Blank
import RegistryAuth.Text.Cut
import RegistryAuth.Text.Fold
import RegistryAuth.Text.Quoted
import RegistryAuth.Base64
import RegistryAuth.Decimal.Shortest
import RegistryAuth.Json.Error
import RegistryAuth.Json.Literal
import RegistryAuth.Json.Number
import RegistryAuth.Json.Skim
import RegistryAuth.Json.Record
import RegistryAuth.Json.Printer
import RegistryAuth.Host
import RegistryAuth.RepositoryPath
import RegistryAuth.Scope
import RegistryAuth.Target
import RegistryAuth.Credential
import RegistryAuth.Event
import RegistryAuth.Cluster.Keychain
import RegistryAuth.Cluster.Store
import RegistryAuth.Proofs.RepositoryPath.Segments
import RegistryAuth.Proofs.RepositoryPath.Order
import RegistryAuth.Proofs.NormalForm
import RegistryAuth.Proofs.Logged
import RegistryAuth.Proofs.Source.Specificity
import RegistryAuth.Proofs.Cluster.Resolution
import RegistryAuth.Proofs.Cluster.Store
import RegistryAuth.Proofs.Cluster.Isolation
import RegistryAuth.Proofs.Json.Skim
import RegistryAuth.Proofs.Json.Written
import RegistryAuth.Proofs.Document.Decoding
import RegistryAuth.Proofs.Document.Entries
import RegistryAuth.Proofs.Document.Shapes
import RegistryAuth.Proofs.Document.Secrecy
import RegistryAuth.Proofs.Document.Refusal
import RegistryAuth.Proofs.Cluster.Secrecy
import RegistryAuth.Proofs.Base64.Decoding
import RegistryAuth.Proofs.Base64.Standard
import RegistryAuth.Proofs.Document.Outcome
import RegistryAuth.Proofs.Document.AuthField
import RegistryAuth.Proofs.Document.Tokens
import RegistryAuth.Proofs.Document.Names
import RegistryAuth.Proofs.Document.Precedence
import RegistryAuth.Proofs.Host
import RegistryAuth.Proofs.Host.Glob
import RegistryAuth.Proofs.Spelling
import RegistryAuth.Proofs.Target.Text
import RegistryAuth.Proofs.Target.Components
import RegistryAuth.Proofs.Target.Hub
import RegistryAuth.Proofs.Target.Readers
import RegistryAuth.Proofs.Target.Suffix
import RegistryAuth.Proofs.Keychain.Ancestors
import RegistryAuth.Proofs.Source.Order
import RegistryAuth.Proofs.Document.Written
import RegistryAuth.Proofs.Keychain.Building
import RegistryAuth.Proofs.Cluster.Accounting
import RegistryAuth.Proofs.Scope.Text
import RegistryAuth.Proofs.Keychain.Events
import RegistryAuth.Proofs.Target.Grammar
import RegistryAuth.Proofs.Document.Wrapped
import RegistryAuth.Proofs.Credential
import RegistryAuth.Proofs.Target.Joining
import RegistryAuth.Proofs.Canonical
import RegistryAuth.Proofs.Json.Rendered
import RegistryAuth.Proofs.Cluster.Records
