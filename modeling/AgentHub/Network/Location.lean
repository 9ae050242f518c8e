import AgentHub.Text

/-!
# Names of sites and hubs

The alphabet that site names and hub identities are made of.
-/

namespace AgentHub.Network

/-- `valid_site_name`. -/
def validSiteName (name : String) : Bool :=
  !name.isEmpty && decide (Text.len name ≤ 64) &&
    name.toList.all fun c => c.isAlphanum || c == '.' || c == '_' || c == '-'

end AgentHub.Network
