import FlareAuth.AccessProgram
import FlareAuth.AgentPermissions

/-!
# Point requests against the list of permissions

A point request finds a listed permission exactly when fewer than a hundred others of the
same Agent, Resource Server and view are newer. Older ones are listed on a later page,
and can be neither read nor deleted.
-/

namespace FlareAuth

open Concurrent Relational

section Purpose

def Store.Lists (s : Store) (agentId : Id) (permission : AgentPermission) : Prop :=
  ∃ status number size, 0 < number ∧ 0 < size ∧ size ≤ 100 ∧
    permission ∈ (listManagementAgentPermissions s ⟨agentId, none, status, number, size⟩ none).1

end Purpose

section Joins

variable {s : Store} {e f : ScopeEntitlement} {row : JoinedPermission}

end Joins

section Views

variable {s : Store} {e : ScopeEntitlement} {row : JoinedPermission}

variable (hs : KeysUnique s.entitlements)

include hs

end Views

section Results

variable [Locale] {s : Store}

end Results

namespace Sample

end Sample

end FlareAuth
