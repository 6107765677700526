import Invoicing.Catalog
import Invoicing.Item

/-!
# Members of enumerations

`Value.ofMember?` is the value that stands for a member of one of the enumerations of the domain, given by
the names of both.
-/

namespace Invoicing

/-- The enumerations whose members can be values, with the names of their members. The last one tells
apart the sides of a ledger. -/
def families : List (String × List String) :=
  [("BillingPeriod", BillingPeriod.all.map (·.name)),
   ("BillingMode", BillingMode.all.map (·.name)),
   ("SubscriptionTransitionType", TransitionType.all.map (·.name)),
   ("InvoiceItemType", ItemKind.all.map (·.name)),
   ("ProductCategory", ProductCategory.all.map (·.name)),
   ("PhaseType", PhaseType.all.map (·.name)),
   ("BillingAlignment", BillingAlignment.all.map (·.name)),
   ("DurationUnit", DurationUnit.all.map (·.name)),
   ("NodeSource", ["EXISTING", "PROPOSED"])]

def Value.ofMember? (family name : String) : Option Value :=
  if (families.lookup family).any (·.contains name) then some (.member family name) else none

end Invoicing
