import Apchi.Catalogs.Section
import Apchi.CertificateMapping.Section
import Apchi.ClientCertificates.Section
import Apchi.EventListeners.Section
import Apchi.Permissions.Files
import Apchi.ResourceGroups.Section

/-!
# The registered Sections

Which files each registered Section declares and what it renders to them, how it plans, and what its
own operations can stage, in the order they are registered in.
-/

namespace Apchi.Pipeline

open Lib

/-- What the operations use that is not the repository's: a compiler of regular expressions, which
gives the number of groups, and a choice of the name that is closest to another. -/
structure Tools where
  compile : String → Except String Nat
  closest : String → List String → Option String

namespace SectionName

/-- Each Section's `coordinator_files`. -/
def coordinatorFiles (settings : Settings) : SectionName → List Delivery
  | catalogs => []
  | clientCertificates => ClientCertificates.coordinatorFiles settings
  | certificateMapping => CertificateMapping.coordinatorFiles settings
  | eventListeners => EventListeners.coordinatorFiles settings
  | permissions => Permissions.coordinatorFiles settings
  | resourceGroups => ResourceGroups.coordinatorFiles settings

/-- Each Section's `render_files`. -/
def renderFiles (desired : Resources) (settings : Settings) (admin : AdminValues) :
    SectionName → Except Error Dict
  | catalogs => .ok ∅
  | clientCertificates => ClientCertificates.render desired
  | certificateMapping => CertificateMapping.renderFiles desired settings admin
  | eventListeners => EventListeners.renderFiles desired settings
  | permissions => Permissions.renderFiles desired settings admin
  | resourceGroups => ResourceGroups.renderFiles desired settings

/-- Each Section's `requires_rollout`. -/
def requiresRollout : SectionName → Bool
  | certificateMapping | eventListeners | resourceGroups => true
  | catalogs | clientCertificates | permissions => false

/-- Each Section's `plan`. -/
def plan (desired current : Resources) : SectionName → SectionPlan
  | catalogs => (Catalogs.plan desired current).toSection
  | clientCertificates => ClientCertificates.plan desired current
  | certificateMapping => CertificateMapping.plan desired current
  | eventListeners => EventListeners.plan desired current
  | permissions => Permissions.plan desired current
  | resourceGroups => ResourceGroups.plan desired current

/-- The resources each Section's own operations can stage.  Catalogs have no files, and their
resources are left as they are. -/
def Stages (tools : Tools) (settings : Settings) : SectionName → Resources → Prop
  | catalogs, _ => True
  | clientCertificates, resources => ClientCertificates.Staged settings resources
  | certificateMapping, resources => CertificateMapping.Staged tools.compile resources
  | eventListeners, resources => EventListeners.Staged tools.closest resources
  | permissions, resources =>
      ∃ grants, Permissions.Staged grants ∧ resources = Permissions.storedGrants grants
  | resourceGroups, resources => ResourceGroups.Staged resources

end SectionName

/-- The registered Sections, in registration order. -/
def REGISTERED : List SectionName :=
  [.catalogs, .clientCertificates, .certificateMapping, .eventListeners, .permissions,
    .resourceGroups]

end Apchi.Pipeline
