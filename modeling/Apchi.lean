import Apchi.Permissions.Blocks
import Apchi.Pipeline.Recovery
import Apchi.Pipeline.Incident
import Apchi.Pipeline.Play
import Apchi.Pipeline.Forecast
import Apchi.Catalogs.Repetition
import Apchi.Catalogs.Stranding
import Apchi.Pipeline.Chronicle
import Apchi.Pipeline.Finality
import Apchi.Pipeline.StageMachine
import Apchi.Pipeline.RawFileRules
import Apchi.Pipeline.SaveHistory
import Apchi.Api.PagedStores
import Apchi.Adoption.Latest
import Apchi.Pipeline.AdminFrame
import Apchi.Pipeline.RawRoundTrip
import Apchi.Auth.Authority
import Apchi.Pipeline.WouldChange
import Apchi.Pipeline.Dangling
import Apchi.Pipeline.EmptyPlan
import Apchi.Permissions.Losses
import Apchi.ResourceGroups.RoundTrip
import Apchi.Lib.Forest
import Apchi.Pipeline.References
import Apchi.CertificateMapping.Identities
import Apchi.ResourceGroups.Verification
import Apchi.Adoption.Malformed
import Apchi.ClientCertificates.RoundTrip
import Apchi.Pipeline.Realised
import Apchi.Lib.JavaProperties
import Apchi.Lib.PropertiesFiles
import Apchi.Adoption.Agreement
import Apchi.Auth.Attempts
import Apchi.Catalogs.Durable
import Apchi.Catalogs.StatementText
