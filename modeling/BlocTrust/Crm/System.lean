import BlocTrust.Crm.Services

/-!
Any number of updates of buildings, vendors and contracts, interleaved statement by statement
over one database, while building grants and audit events of other services come in from
outside.
-/
namespace BlocTrust.Crm

open ReadCommitted

inductive Op
  | updateBuilding (auth : AuthContext) (buildingId : Id) (version : Nat)
      (dto : BuildingsService.UpdateBuildingDto)
  | updateVendor (auth : AuthContext) (vendorId : Id) (expectedVersion : Nat)
      (dto : VendorsService.UpdateVendorDto)
  | updateContract (auth : AuthContext) (contractId : Id) (expectedVersion : Nat)
      (dto : ContractsService.UpdateContractDto)

inductive Response
  | building (b : Building)
  | vendor (v : Vendor)
  | contract (c : Contract)

variable (cfg : Config)

def program : Op → Program Response
  | .updateBuilding auth id version dto =>
      BuildingsService.update auth id version dto >>= fun b => pure (.building b)
  | .updateVendor auth id version dto =>
      VendorsService.update cfg auth id version dto >>= fun v => pure (.vendor v)
  | .updateContract auth id version dto =>
      ContractsService.update auth id version dto >>= fun c => pure (.contract c)

/-- The tables that only services outside this development write. -/
def outside : Key → Bool
  | .access _ | .audit _ => true
  | _ => false

def machine : Machine Val Out Failure Response Op where
  engine := engine
  program := program cfg
  external _ rows := ∀ s ∈ rows, outside s.1 = true

abbrev Process := Proc Val Out Failure Response Op
abbrev System := Sys Val Out Failure Response Op
abbrev SystemAction := Action Val Failure Op

end BlocTrust.Crm
