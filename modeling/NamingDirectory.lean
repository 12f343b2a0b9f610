import NamingDirectory.Item
import NamingDirectory.Log.Setup
import NamingDirectory.Realm.Opening
import NamingDirectory.Proofs.Memory.Graph
import NamingDirectory.Proofs.Memory.Tree
import NamingDirectory.Proofs.Memory.Walk
import NamingDirectory.Proofs.Memory.Objects
import NamingDirectory.Proofs.Memory.Outcome
import NamingDirectory.Proofs.Memory.PathMap
import NamingDirectory.Proofs.Memory.Race
import NamingDirectory.Proofs.Memory.Refinement
import NamingDirectory.Proofs.Memory.Representation
import NamingDirectory.Proofs.Client.Course
import NamingDirectory.Proofs.Client.Interleaving
import NamingDirectory.Proofs.Client.Protocol
import NamingDirectory.Proofs.Client.Failure
import NamingDirectory.Proofs.Composite.Notation
import NamingDirectory.Proofs.Composite.Reading
import NamingDirectory.Proofs.Dn.RelativeNames
import NamingDirectory.Proofs.Json.RoundTrip
import NamingDirectory.Proofs.Json.Data
import NamingDirectory.Proofs.Ldap.Confinement
import NamingDirectory.Proofs.Ldap.Effect
import NamingDirectory.Proofs.Ldap.ReadBack
import NamingDirectory.Proofs.Ldap.Codec
import NamingDirectory.Proofs.Ldap.Cutting
import NamingDirectory.Proofs.Ldap.NameStyles
import NamingDirectory.Proofs.Ldap.Refusals
import NamingDirectory.Proofs.Ldap.Connection
import NamingDirectory.Proofs.Ldap.SessionOrder
import NamingDirectory.Proofs.Ldap.Secrecy
import NamingDirectory.Proofs.Memory.Ownership
import NamingDirectory.Proofs.Opening.Precedence
import NamingDirectory.Proofs.Opening.NamedRoots
import NamingDirectory.Proofs.Opening.Credentials
import NamingDirectory.Proofs.Opening.ProviderUrl
import NamingDirectory.Proofs.Properties
import NamingDirectory.Proofs.Resolution
import NamingDirectory.Proofs.Log.Reconfiguration
