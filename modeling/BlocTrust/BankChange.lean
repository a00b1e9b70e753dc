import BlocTrust.Knowledge
import BlocTrust.Tenant

/-!
Approvals and changes of the bank account.
A decider reads the vendor's latest bank account once.  A bank change that commits after
that read has invalidated the request, unless its scan of the pending requests came before
the request; where no such change commits, what is approved is bound to the latest account.
-/
namespace BlocTrust

open ReadCommitted

def Op.isBanking : Op → Bool
  | .submit .. | .decide .. | .addBankVersion .. => true
  | _ => false

/-- Version numbers are positive, as their check demands. -/
def Numbered (db : Db) : Prop := ∀ id b, Db.bank db id = some b → 0 < b.versionNumber

section Changes

variable (s : System) (org vendorId id : Id)

/-- The open transaction of `q` decides the request `id` and has read the latest bank account. -/
def Relies (q : Process) : Prop :=
  ∃ auth dto key found, q.op = .decide auth id dto key ∧ auth.organizationId = org ∧
    Saw q.calls (.latestBank org vendorId) found

/-- The open transaction of `p` has scanned the pending requests without finding `id`. -/
def Missed (p : Process) : Prop :=
  ∃ ids, Saw p.calls (.pendingOfVendor org vendorId) ids ∧ id ∉ ids

end Changes

/-- No bank change commits while a decider on a request that it missed relies on the account
that it replaces. -/
def bankSettles (s : System) : SystemAction → Prop
  | .start op => op.isBanking = true
  | .exec j _ => ∀ p auth vendorId dto next, s.procs[j]? = some p →
      p.op = .addBankVersion auth vendorId dto → p.prog = .commit next →
      ∀ (i : Nat) q id, s.procs[i]? = some q → Relies auth.organizationId vendorId id q →
        ¬ Missed auth.organizationId vendorId id p
  | _ => True

/-- What a decider has read is the latest bank account, or its request is closed. -/
def Current (db : Db) (p : Process) : Prop :=
  ∀ auth id dto key vendorId bank, p.op = .decide auth id dto key →
    Saw p.calls (.latestBank auth.organizationId vendorId) (some bank) →
    LatestBank db auth.organizationId vendorId bank.1 ∨
      ∃ r, Db.request db id = some r ∧ r.status ≠ .pending

structure Banking (s : System) : Prop where
  ops : ∀ (i : Nat) p, s.procs[i]? = some p → p.op.isBanking = true
  numbered : Numbered s.db
  current : ∀ (i : Nat) p, s.procs[i]? = some p → Current s.db p

section Step

variable {cfg : Config} {db : Db} {p q : Process} {s s' : System}

theorem Current.of_nil (h : p.current = []) : Current db p := by
  intro auth id dto key vendorId bank _ hs
  simp [Proc.calls, h] at hs

/-- No decider writes a bank account. -/
theorem decide_bank (h : ProcOk (machine cfg) (conduct cfg) Legal db p) {auth : AuthContext}
    {id : Id} {dto : ApprovalsService.ApprovalDecisionDto} {key : Option Text}
    (hop : p.op = .decide auth id dto key) (k : Id) : Key.bank k ∉ p.writes.keys := by
  intro hk
  obtain ⟨b, hb⟩ := Log.exists_row_of_mem_keys hk
  obtain ⟨new, older, u, out, rows, base, -, -, htarget, -, hbefore, -⟩ := written_update h hb rfl
  cases u with
  | insertBank b =>
      obtain ⟨_, _, hop', -⟩ := conduct_insertBank hbefore
      rw [hop] at hop'
      cases hop'
  | _ => cases htarget

theorem latestBank_view (h : ProcOk (machine cfg) (conduct cfg) Legal db p) {auth : AuthContext}
    {id : Id} {dto : ApprovalsService.ApprovalDecisionDto} {key : Option Text}
    (hop : p.op = .decide auth id dto key) {org vendorId bankId : Id}
    (hl : LatestBank (p.writes ++ db) org vendorId bankId) : LatestBank db org vendorId bankId := by
  have hsame : ∀ k, Db.bank (p.writes ++ db) k = Db.bank db k :=
    fun k => Log.row_append_of_not_mem _ (decide_bank h hop k)
  obtain ⟨b, hb, horg, hvendor, hmax⟩ := hl
  refine ⟨b, (hsame bankId).symm.trans hb, horg, hvendor, fun k c hc => ?_⟩
  exact hmax k c ((hsame k).trans hc)

theorem Current.push (h : ProcOk (machine cfg) (conduct cfg) Legal db p) (hc : Current db p)
    {st : Stmt} {c : Nat} {out : Out st} {rows : Db}
    (hrun : (machine cfg).engine st c (p.writes ++ db) = some (.ok (out, rows)))
    (prog : Program Response) : Current db (p.push prog ⟨st, out, rows, db⟩) := by
  intro auth id dto key vendorId bank hop hs
  rcases List.mem_cons.mp hs with hnew | hold
  · left
    cases hnew
    have hanswer : (answer cfg c (p.writes ++ db) (.latestBank auth.organizationId vendorId)).map
        (fun out => Except.ok (out, [])) = some (.ok (some bank, rows)) := hrun
    obtain ⟨found, hfound, heq⟩ := Option.map_eq_some_iff.mp hanswer
    cases heq
    exact latestBank_view h hop (latestBank_of_answer hfound)
  · exact hc auth id dto key vendorId bank hop hold

/-- A bank change that found the request has closed it. -/
theorem bank_frozen (h : ProcOk (machine cfg) (conduct cfg) Legal db p) {next}
    (hq : p.prog = .commit next) {auth : AuthContext} {vendorId : Id}
    {dto : CreateBankAccountVersionDto} (hop : p.op = .addBankVersion auth vendorId dto)
    {b : VendorBankAccountVersion} {k id : Id} (hd : Did p.calls (.insertBank b) k)
    (hlater : 1 < b.versionNumber) (hfound : ¬ Missed auth.organizationId vendorId id p) :
    ∃ r, Db.request (p.writes ++ db) id = some r ∧ r.status ≠ .pending := by
  have hdue := commit_due h hq
  rw [hop] at hdue
  obtain ⟨⟨ids, hscan, hall⟩, -⟩ := hdue b k hd hlater
  have hid : id ∈ ids := by
    by_contra hnot
    exact hfound ⟨ids, hscan, hnot⟩
  obtain ⟨n, hn⟩ := hall id hid
  exact invalidated_closed h hn

theorem closed_later {older newer : Db} (hc : Log.Chain Legal newer) (hs : older <:+ newer)
    {id : Id} (h : ∃ r, Db.request older id = some r ∧ r.status ≠ .pending) :
    ∃ r, Db.request newer id = some r ∧ r.status ≠ .pending := by
  obtain ⟨r, hr, hstatus⟩ := h
  obtain ⟨r', hr', hlater⟩ := request_later hc hs hr
  exact ⟨r', hr', by rw [hlater.closed hstatus]; exact hstatus⟩

theorem Numbered.commit (h : ProcOk (machine cfg) (conduct cfg) Legal db p)
    (hn : Numbered db) : Numbered (p.writes ++ db) := by
  intro id b hb
  rcases commit_bank h hb with hold | hdid
  · exact hn id b hold
  · obtain ⟨new, older, rows, base, -, -, hbefore⟩ := did_event h hdid
    obtain ⟨auth, dto, hop, -⟩ := conduct_insertBank hbefore
    rw [hop] at hbefore
    obtain ⟨-, -, latest, -, hversion⟩ := hbefore
    omega

theorem Current.commit (h : ProcOk (machine cfg) (conduct cfg) Legal db p) {next}
    (hq : p.prog = .commit next) (hn : Numbered db) (hc : Current db q)
    (hfound : ∀ auth vendorId dto id, p.op = .addBankVersion auth vendorId dto →
      Relies auth.organizationId vendorId id q → ¬ Missed auth.organizationId vendorId id p) :
    Current (p.writes ++ db) q := by
  intro auth id dto key vendorId bank hop hs
  have hsuffix := List.suffix_append p.writes db
  rcases hc auth id dto key vendorId bank hop hs with ⟨b, hb, horg, hvendor, hmax⟩ | hclosed
  · by_cases hnew : ∃ k c, Did p.calls (.insertBank c) k ∧ c.organizationId = auth.organizationId ∧
        c.vendorId = vendorId ∧ b.versionNumber < c.versionNumber
    · right
      obtain ⟨k, c, hdid, hcorg, rfl, hlt⟩ := hnew
      obtain ⟨new, older, rows, base, -, -, hbefore⟩ := did_event h hdid
      obtain ⟨auth', dto', hop', horg'⟩ := conduct_insertBank hbefore
      have hsame : auth'.organizationId = auth.organizationId := horg'.symm.trans hcorg
      have hpositive := hn bank.1 b hb
      refine bank_frozen h hq hop' hdid (by omega) (hfound auth' c.vendorId dto' id hop' ?_)
      rw [hsame]
      exact ⟨auth, dto, key, some bank, hop, rfl, hs⟩
    · left
      refine ⟨b, bank_later h.view hsuffix hb, horg, hvendor, fun k c hc hcorg hcvendor => ?_⟩
      rcases commit_bank h hc with hold | hdid
      · exact hmax k c hold hcorg hcvendor
      · by_contra hgt
        exact hnew ⟨k, c, hdid, hcorg, hcvendor, by omega⟩
  · exact .inr (closed_later h.view hsuffix hclosed)

theorem Banking.step (hcons : Consistent (machine cfg) (conduct cfg) Legal s) (h : Banking s)
    {a : SystemAction} (ha : bankSettles s a) (hs : Step (machine cfg) s a s') : Banking s' := by
  cases hs.effect with
  | quiet hdb hprocs =>
      refine ⟨fun j q hj => ?_, hdb ▸ h.numbered, fun j q hj => ?_⟩
      · rcases hprocs j q hj with hold | ⟨-, ⟨op, rfl, rfl⟩ | ⟨q', hq', hop, -⟩⟩
        · exact h.ops j q hold
        · exact ha
        · rw [hop]
          exact h.ops j q' hq'
      · rw [hdb]
        rcases hprocs j q hj with hold | ⟨hnil, -⟩
        · exact h.current j q hold
        · exact .of_nil hnil
  | answered i c p q next out rows hp hq hrun =>
      refine ⟨fun j r hj => ?_, h.numbered, fun j r hj => ?_⟩
      · rcases getElem?_set_cases hj with ⟨rfl, rfl⟩ | ⟨-, hj⟩
        · exact h.ops j p hp
        · exact h.ops j r hj
      · rcases getElem?_set_cases hj with ⟨rfl, rfl⟩ | ⟨-, hj⟩
        · exact (h.current j p hp).push (hcons.proc j p hp) hrun _
        · exact h.current j r hj
  | committed i c p next hp hq =>
      have hproc := hcons.proc i p hp
      refine ⟨fun j r hj => ?_, h.numbered.commit hproc, fun j r hj => ?_⟩
      · rcases getElem?_set_cases hj with ⟨rfl, rfl⟩ | ⟨-, hj⟩
        · exact h.ops j p hp
        · exact h.ops j r hj
      · rcases getElem?_set_cases hj with ⟨rfl, rfl⟩ | ⟨-, hj⟩
        · exact .of_nil rfl
        · refine (h.current j r hj).commit hproc hq h.numbered ?_
          intro auth vendorId dto id hop hrelies
          exact ha p auth vendorId dto next hp hop hq j r id hj hrelies
  | outside rows hext =>
      have hbank : ∀ k, Db.bank (rows ++ s.db) k = Db.bank s.db k := fun k => external_row hext rfl
      have hrequest : ∀ k, Db.request (rows ++ s.db) k = Db.request s.db k :=
        fun k => external_row hext rfl
      refine ⟨h.ops, fun id b hb => h.numbered id b ((hbank id).symm.trans hb), fun j q hj => ?_⟩
      intro auth id dto key vendorId bank hop hs
      rcases h.current j q hj auth id dto key vendorId bank hop hs with hlatest | hclosed
      · left
        simpa only [LatestBank, hbank] using hlatest
      · right
        simpa only [hrequest] using hclosed

end Step

section Vendors

variable {cfg : Config} {db : Db} {p : Process}

/-- The vendors of invoices stay, and whoever is to be approved has one. -/
def billing : Account Val Out Op where
  allowed op := op.isBanking = true
  inv db := ∀ id r, Db.request db id = some r → ∃ v vendorId,
    Db.invoice db r.invoiceId = some v ∧ v.vendorId = some vendorId
  rel older newer := ∀ i v, Db.invoice older i = some v →
    ∃ w, Db.invoice newer i = some w ∧ w.vendorId = v.vendorId

theorem ChangesInvoice.vendor {i : Id} {c : InvoiceChange} {v w : Invoice}
    (hch : ChangesInvoice cfg db p i c v w) (hop : p.op.isBanking = true) :
    w.vendorId = v.vendorId := by
  have hcause := hch.cause
  rw [hch.result]
  cases c with
  | edited org version e =>
      obtain ⟨_, _, _, hop', -⟩ := hcause
      rw [hop'] at hop
      cases hop
  | _ => rfl

theorem billing_sound {ok : System → SystemAction → Prop} {s₀ : System} :
    billing.Sound (machine cfg) (conduct cfg) Legal ok s₀ where
  refl _ _ v hv := ⟨v, hv, rfl⟩
  trans _ _ _ h h' i v hv := by
    obtain ⟨w, hw, hvendor⟩ := h i v hv
    obtain ⟨u, hu, hvendor'⟩ := h' i w hw
    exact ⟨u, hu, hvendor'.trans hvendor⟩
  keep _ _ _ _ _ _ _ _ := trivial
  commit s i p next hrun hp hq hok hobs hinv := by
    have hkept : billing.rel s.db (p.writes ++ s.db) := by
      intro i v hv
      obtain ⟨w, hw, -⟩ := invoice_later hok.view (List.suffix_append _ _) hv
      refine ⟨w, hw, ?_⟩
      rcases commit_invoice hok hw with ⟨-, hold⟩ | hinserts | ⟨c, old, hch⟩
      · rw [Option.some.inj (hold.symm.trans hv)]
      · exact absurd (Log.mem_keys_of_row hv) hinserts.fresh
      · have hsame : old = v := Option.some.inj (hch.committed.symm.trans hv)
        rw [← hsame]
        exact hch.vendor hobs.allowed
    refine ⟨fun id r hr => ?_, hkept, fun _ _ => trivial⟩
    rcases commit_request_later hok hr with hinserts | ⟨q, hq', hlater⟩
    · obtain ⟨_, _, w, v, vendorId, _, _, _, _, _, -, -, -, -, hvendor, hv, hsame⟩ :=
        hinserts.read hok hq
      obtain ⟨v', hv', hvendor'⟩ := hkept r.invoiceId v hv
      exact ⟨v', vendorId, hv', by rw [hvendor', hsame.vendorId, hvendor]⟩
    · obtain ⟨v, vendorId, hv, hvendor⟩ := hinv id q hq'
      obtain ⟨w, hw, hvendor'⟩ := hkept q.invoiceId v hv
      exact ⟨w, vendorId, by rw [hlater.invoiceId]; exact hw, hvendor'.trans hvendor⟩
  external db rows _ hext hinv := by
    have hrequest : ∀ k, Db.request (rows ++ db) k = Db.request db k := fun k => external_row hext rfl
    have hinvoice : ∀ k, Db.invoice (rows ++ db) k = Db.invoice db k := fun k => external_row hext rfl
    refine ⟨?_, fun i v hv => ⟨v, (hinvoice i).trans hv, rfl⟩⟩
    intro id r hr
    rw [hrequest] at hr
    rw [hinvoice]
    exact hinv id r hr

/-- The bank account on which a decider has approved, as it read it. -/
theorem ChangesRequest.bank (h : ProcOk (machine cfg) (conduct cfg) Legal db p) {next}
    (hq : p.prog = .commit next) (hobs : billing.Observed db p) (hinv : billing.inv db) {id : Id}
    {outcome : ApprovalDecisionOutcome} {t : Time} {q r : ApprovalRequest}
    (hch : ChangesRequest cfg db p id (.completed outcome t) q r) :
    ∃ auth dto key v vendorId bank, p.op = .decide auth id dto key ∧
      r.organizationId = auth.organizationId ∧ Db.invoice db r.invoiceId = some v ∧
      v.vendorId = some vendorId ∧ r.vendorBankAccountVersionId = some bank.1 ∧
      Saw p.calls (.latestBank auth.organizationId vendorId) (some bank) := by
  obtain ⟨auth, dto, key, -, -, hop, -⟩ := hch.cause
  have hfinal : Db.request (p.writes ++ db) id = some r := by
    obtain ⟨q', r', hch', hr'⟩ := did_updateRequest h hch.did Nat.one_ne_zero
    have hsame : q' = q := Option.some.inj (hch'.committed.symm.trans hch.committed)
    rw [hr', hch'.result, hch.result, hsame]
  have hseen : ∀ {r' : ApprovalRequest}, Saw p.calls (.findRequest auth.organizationId id)
      (some r') → r'.organizationId = auth.organizationId ∧ RequestLater r' r := by
    intro r' hs
    obtain ⟨horg, r'', hr'', hlater⟩ := saw_request h hs
    have hsame : r'' = r := Option.some.inj (hr''.symm.trans hfinal)
    exact ⟨horg, hsame ▸ hlater⟩
  have hdue := commit_due h hq
  rw [hop] at hdue
  obtain ⟨r₁, v₁, m, hready₁, hm, hdid⟩ := hdue.completed outcome t 1 hch.did
  obtain ⟨-, hlater₁⟩ := hseen hready₁.request
  obtain ⟨old, new, hchanges, -⟩ := did_updateInvoice h hdid hm
  obtain ⟨newer, older, rows, base, hcur, -, -, hbefore⟩ := hchanges.event
  have hfirst := invoice_first h hcur hbefore
  rw [hop] at hbefore
  obtain ⟨-, r₂, v₂, t₂, n₂, hcomplete, -⟩ := hbefore
  obtain ⟨d, hd, hrequest, -⟩ := hcomplete.decision
  obtain ⟨cur, hsub, hready⟩ := did_before h hcur hd
  rw [hop] at hready
  obtain ⟨⟨r₃, v₃, hready⟩, -⟩ := hready
  have hcalls := List.Subset.trans hsub (calls_subset_of_event hcur)
  obtain ⟨horg, hlater⟩ := hseen (hcalls hready.ready.request)
  have hinvoice : r₃.invoiceId = r₁.invoiceId := hlater.invoiceId.symm.trans hlater₁.invoiceId
  have hsaw := hsub hready.ready.invoice
  rw [hinvoice] at hsaw
  obtain ⟨-, e, he, hrow, -⟩ := read_before h hcur hfirst hsaw
  obtain ⟨w, hw, hvendor⟩ := hobs.rel e he r₁.invoiceId v₃ hrow
  obtain ⟨v, vendorId, hv, hsome⟩ := hinv id q hch.committed
  have hbilled : q.invoiceId = r₁.invoiceId := by
    rw [← hlater₁.invoiceId, hch.result]
    rfl
  rw [hbilled] at hv
  have hsame : w = v := Option.some.inj (hw.symm.trans hv)
  obtain ⟨bank, hbank, hbound⟩ := hready.authorized.bank vendorId
    (by rw [← hvendor, hsame, hsome])
  exact ⟨auth, dto, key, v, vendorId, bank, hop, by rw [hlater.organizationId, horg],
    by rw [hlater₁.invoiceId]; exact hv, hsome, by rw [hlater.bankAccount, hbound], hcalls hbank⟩

end Vendors

/-- An approval is committed on the vendor's latest bank account only. -/
theorem approved_bank (cfg : Config) {s₀ s s' : System} (h₀ : Idle Legal s₀)
    (hclear : Clear s₀.db) (hnumbered : Numbered s₀.db)
    (h : Run (machine cfg) bankSettles s₀ s) {a : SystemAction} (hs : Step (machine cfg) s a s') :
    ∀ id q r, Db.request s.db id = some q → Db.request s'.db id = some r →
      q.status ≠ .approved → r.status = .approved →
      ∃ v vendorId bankId, Db.invoice s.db r.invoiceId = some v ∧ v.vendorId = some vendorId ∧
        r.vendorBankAccountVersionId = some bankId ∧
        LatestBank s.db r.organizationId vendorId bankId := by
  intro id q r hq hr hold hnew
  have hconsistent : ∀ t, Run (machine cfg) bankSettles s₀ t →
      Consistent (machine cfg) (conduct cfg) Legal t :=
    fun t ht => Run.consistent (discipline cfg) h₀.consistent ht
  have hbanking : Banking s := by
    refine h.invariant ⟨?_, hnumbered, ?_⟩ fun t a t' ht hb ha hs =>
      hb.step (hconsistent t ht) ha hs
    · simp [h₀.procs]
    · simp [h₀.procs]
  have hrespects : billing.Respects (E := Failure) (R := Response) bankSettles :=
    ⟨fun _ _ ha => ha, fun _ _ _ _ _ _ _ _ _ => trivial⟩
  have hstart : billing.inv s₀.db := by
    intro id r hr
    rw [hclear.requests] at hr
    cases hr
  obtain ⟨hinv, hobs⟩ := billing_sound.run hrespects (discipline cfg) h₀ hstart h
  have hsame : Db.request s.db id = some r → False := by
    intro hsame
    rw [Option.some.inj (hq.symm.trans hsame), hnew] at hold
    exact hold rfl
  cases hs.effect with
  | quiet hdb hprocs => exact (hsame (hdb ▸ hr)).elim
  | answered i c p q' next out rows hp hq' hrun => exact (hsame hr).elim
  | committed i c p next hp hprog =>
      have hproc := (hconsistent s h).proc i p hp
      rcases commit_request hproc hr with ⟨-, hkept⟩ | hinserts | ⟨change, q', hch⟩
      · exact (hsame hkept).elim
      · exact absurd (Log.mem_keys_of_row hq) hinserts.fresh
      · have hq' : q' = q := Option.some.inj (hch.committed.symm.trans hq)
        subst hq'
        cases change with
        | invalidated reason =>
            rw [hch.result] at hnew
            cases hnew
        | completed outcome t =>
            obtain ⟨auth, dto, key, v, vendorId, bank, hop, horg, hv, hvendor, hbank, hsaw⟩ :=
              hch.bank hproc hprog (hobs i p hp) hinv
            refine ⟨v, vendorId, bank.1, hv, hvendor, hbank, ?_⟩
            rcases hbanking.current i p hp auth id dto key vendorId bank hop hsaw with
              hlatest | ⟨r', hr', hclosed⟩
            · rw [horg]
              exact hlatest
            · have hopen : r' = q' := Option.some.inj (hr'.symm.trans hq)
              rcases hch.frozen with hpending | hkept
              · rw [hopen] at hclosed
                exact absurd hpending hclosed
              · rw [hnew] at hkept
                exact absurd hkept.symm hold
  | outside rows hext =>
      have hrow : Db.request (rows ++ s.db) id = Db.request s.db id := external_row hext rfl
      exact (hsame (hrow.symm.trans hr)).elim

section Sample

/-- Runs in which no bank account changes once a decision has begun. -/
def changesFirst (s : System) : SystemAction → Bool
  | .start op => op.isBanking
  | .exec j _ => (s.procs[j]?).all fun p => match p.op with
      | .addBankVersion .. => s.procs.all fun q => match q.op with
          | .decide .. => false
          | _ => true
      | _ => true
  | _ => true

theorem bankSettles_of_changesFirst (s : System) (a : SystemAction)
    (h : changesFirst s a = true) : bankSettles s a := by
  cases a with
  | start op => exact h
  | exec j c =>
      rintro p auth vendorId dto next hp hop - i q id hq ⟨auth', dto', key, found, hdecides, -, -⟩
      simp only [changesFirst, hp, Option.all_some, hop, List.all_eq_true] at h
      have hno := h q (List.mem_of_getElem? hq)
      rw [hdecides] at hno
      cases hno
  | fault i e => trivial
  | kill i e => trivial
  | env rows => trivial

/-- The bank account changes, then an invoice is submitted and two others approve it. -/
def approvedAfterChange : List SystemAction :=
  .start (.addBankVersion (sampleAuth 1) 1 ⟨[], none, [], []⟩) :: execs 0 [0, 0, 2, 0, 0, 50, 0] ++
    .start (.submit (sampleAuth 1) 1 ⟨1⟩ (sampleKey 'a')) :: submission 1 ++
    .start (.decide (sampleAuth 2) 1 (sampleDecision .approve) (sampleKey 'b')) ::
    execs 2 (List.replicate 14 0 ++ [5] ++ List.replicate 7 0) ++
    .start (.decide (sampleAuth 3) 1 (sampleDecision .approve) (sampleKey 'c')) :: approval 3

/-- The commit of the last approval: it approves payment to the second account. -/
theorem approved_bank_sample : ∃ s s' r v vendorId,
    Step (machine sampleConfig) s (.exec 3 0) s' ∧ Db.request s'.db 1 = some r ∧
      r.status = .approved ∧ Db.invoice s.db r.invoiceId = some v ∧ v.vendorId = some vendorId ∧
      r.vendorBankAccountVersionId = some 2 ∧
      LatestBank s.db r.organizationId vendorId 2 := by
  obtain ⟨s, s', hrun, -, hstep, hcheck⟩ := exists_step (M := machine sampleConfig)
    (s := sampleStart) approvedAfterChange.dropLast (.exec 3 0)
    (fun s s' => (Db.request s.db 1).any fun q => (Db.request s'.db 1).any fun r =>
      q.status ≠ .approved ∧ r.status = .approved ∧ r.vendorBankAccountVersionId = some 2)
    bankSettles_of_changesFirst (by decide +kernel)
  obtain ⟨q, hq, hcheck⟩ := (Option.any_eq_true _ _).mp hcheck
  obtain ⟨r, hr, hcheck⟩ := (Option.any_eq_true _ _).mp hcheck
  obtain ⟨hopen, happroved, hsecond⟩ := of_decide_eq_true hcheck
  have hnumbered : Numbered sampleStart.db := by
    intro id b hb
    obtain ⟨rfl, rfl⟩ := sampleStart_bank hb
    decide
  obtain ⟨v, vendorId, bankId, hv, hvendor, hbank, hlatest⟩ := approved_bank sampleConfig
    sampleStart_idle sampleStart_clear hnumbered hrun hstep 1 q r hq hr hopen happroved
  have hsame : bankId = 2 := Option.some.inj (hbank.symm.trans hsecond)
  exact ⟨s, s', r, v, vendorId, hstep, hr, happroved, hv, hvendor, hsecond, hsame ▸ hlatest⟩

/-- A bank change scans the pending requests before the submission and commits after the
decider has read the bank account. -/
def crossingChange : List SystemAction :=
  .start (.addBankVersion (sampleAuth 3) 1 ⟨[], none, [], []⟩) :: execs 0 [0, 0, 2, 0, 0, 50] ++
    .start (.submit (sampleAuth 1) 1 ⟨1⟩ (sampleKey 'a')) :: submission 1 ++
    .start (.decide (sampleAuth 2) 1 (sampleDecision .approve) (sampleKey 'b')) ::
    (approval 2).dropLast ++ execs 0 [0]

theorem superseded_bank : ∃ s s' q r v,
    Run (machine sampleConfig) (Account.permitted (·.isBanking = true) always) sampleStart s ∧
      Step (machine sampleConfig) s (.exec 2 0) s' ∧ Db.request s.db 1 = some q ∧
      Db.request s'.db 1 = some r ∧ q.status = .pending ∧ r.status = .approved ∧
      Db.invoice s.db r.invoiceId = some v ∧ v.vendorId = some 1 ∧
      r.vendorBankAccountVersionId = some 1 ∧ ¬ LatestBank s.db r.organizationId 1 1 := by
  obtain ⟨s, s', hrun, -, hstep, hcheck⟩ := exists_step (M := machine sampleConfig)
    (s := sampleStart) crossingChange (.exec 2 0)
    (fun s s' => (Db.request s.db 1).any fun q => (Db.request s'.db 1).any fun r =>
      (Db.invoice s.db r.invoiceId).any fun v => (Db.bank s.db 1).any fun b =>
        (Db.bank s.db 2).any fun c => q.status = .pending ∧ r.status = .approved ∧
          v.vendorId = some 1 ∧ r.vendorBankAccountVersionId = some 1 ∧
          c.organizationId = r.organizationId ∧ c.vendorId = 1 ∧
          b.versionNumber < c.versionNumber) (permitted_starts Op.isBanking) (by decide +kernel)
  obtain ⟨q, hq, hcheck⟩ := (Option.any_eq_true _ _).mp hcheck
  obtain ⟨r, hr, hcheck⟩ := (Option.any_eq_true _ _).mp hcheck
  obtain ⟨v, hv, hcheck⟩ := (Option.any_eq_true _ _).mp hcheck
  obtain ⟨b, hb, hcheck⟩ := (Option.any_eq_true _ _).mp hcheck
  obtain ⟨c, hc, hcheck⟩ := (Option.any_eq_true _ _).mp hcheck
  obtain ⟨hpending, happroved, hvendor, hbank, horg, hcvendor, hlt⟩ := of_decide_eq_true hcheck
  refine ⟨s, s', q, r, v, hrun, hstep, hq, hr, hpending, happroved, hv, hvendor, hbank, ?_⟩
  rintro ⟨b', hb', -, -, hmax⟩
  have hsame : b' = b := Option.some.inj (hb'.symm.trans hb)
  have hle := hmax 2 c hc horg hcvendor
  rw [hsame] at hle
  omega

end Sample
end BlocTrust
