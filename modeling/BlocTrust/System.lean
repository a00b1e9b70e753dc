import BlocTrust.ApprovalsService
import BlocTrust.InvoicesService
import BlocTrust.VendorsService
import BlocTrust.InvoicePipeline

/-!
The system: any number of calls of the services and of worker attempts, interleaved
statement by statement over one database, while rows of the other tables may change from
outside.
-/
namespace BlocTrust

open ReadCommitted

inductive Op
  | submit (auth : AuthContext) (invoiceId : Id) (dto : ApprovalsService.SubmitInvoiceDto)
      (idempotencyKey : Option Text)
  | decide (auth : AuthContext) (requestId : Id) (dto : ApprovalsService.ApprovalDecisionDto)
      (idempotencyKey : Option Text)
  | updatePolicy (auth : AuthContext) (dto : ApprovalsService.UpdateRiskPolicyDto)
  | upload (normalize : Text → Text) (auth : AuthContext)
      (dto : InvoicesService.UploadInvoiceDto) (file : Option InvoicesService.UploadedFile)
  | update (auth : AuthContext) (invoiceId : Id)
      (dto : InvoicesService.UpdateInvoiceDraftDto)
  | addBankVersion (auth : AuthContext) (vendorId : Id) (dto : CreateBankAccountVersionDto)
  | process (job : InvoiceIngestJob) (finalAttempt : Bool)

inductive Response
  | approval (view : ApprovalsService.ApprovalView)
  | policy (policy : OrganizationRiskPolicy)
  | invoice (view : InvoicesService.InvoiceView)
  | bank (id : Id) (version : VendorBankAccountVersion)
  | done

variable (cfg : Config)

def program : Op → Program Response
  | .submit auth invoiceId dto key =>
      ApprovalsService.submit cfg auth invoiceId dto key >>= fun v => pure (.approval v)
  | .decide auth requestId dto key =>
      ApprovalsService.decide cfg auth requestId dto key >>= fun v => pure (.approval v)
  | .updatePolicy auth dto =>
      ApprovalsService.updatePolicy auth dto >>= fun p => pure (.policy p)
  | .upload normalize auth dto file =>
      InvoicesService.upload cfg normalize auth dto file >>= fun v => pure (.invoice v)
  | .update auth invoiceId dto =>
      InvoicesService.update cfg auth invoiceId dto >>= fun v => pure (.invoice v)
  | .addBankVersion auth vendorId dto =>
      VendorsService.addBankVersion cfg auth vendorId dto >>= fun b => pure (.bank b.1 b.2)
  | .process job finalAttempt =>
      InvoicePipeline.process job cfg finalAttempt >>= fun _ => pure .done

end BlocTrust
