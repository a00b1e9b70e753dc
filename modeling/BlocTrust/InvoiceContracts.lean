import BlocTrust.Tenancy

/-!
An invoice names a contract of its vendor.
The trigger on invoices looks at the contract whenever a statement assigns the vendor or the
contract, and no other statement changes either.  So an invoice and its contract part only when the
contract itself is moved to another vendor, which no trigger compares with the invoices.
-/
namespace BlocTrust

open ReadCommitted

section Rows

variable {cfg : Config} {db view rows : Db} {p : Process} {v : Invoice} {i : Id}

/-- The contract that the invoice names is, or was, one of its organization and its vendor. -/
def Contracted (db : Db) (v : Invoice) : Prop :=
  ∀ id, v.contractId = some id → ∃ c : Contract, (⟨.contract id, c⟩ : Sigma Val) ∈ db ∧
    c.organizationId = v.organizationId ∧ v.vendorId = some c.vendorId

theorem Contracted.mono (h : Contracted view v) (hsub : view ⊆ db) : Contracted db v := by
  intro id hid
  obtain ⟨c, hc, hsame⟩ := h id hid
  exact ⟨c, hsub hc, hsame⟩

theorem contracted_of_none (h : v.contractId = none) : Contracted db v := by
  intro id hid
  rw [h] at hid
  cases hid

theorem contracted_of_validated (h : validateInvoiceContractVendor view v = true) :
    Contracted view v := by
  intro id hid
  simp only [validateInvoiceContractVendor, hid] at h
  cases hvendor : v.vendorId with
  | none => simp [hvendor] at h
  | some vendorId =>
      cases hcontract : view.contract id with
      | none => simp [hvendor, hcontract] at h
      | some c =>
          simp only [hvendor, hcontract, decide_eq_true_eq] at h
          exact ⟨c, Log.mem_of_row hcontract, h.1, congrArg some h.2.symm⟩

theorem overwrite_absent {α : Type} {f : Field α} {a : Option α} (h : f.isPresent = false) :
    f.overwrite a = a := by
  cases f with
  | absent => rfl
  | _ => cases h

/-- A change of an invoice that sets its contract has it checked by the trigger. -/
theorem contracted_of_changed {c : InvoiceChange} {old new : Invoice}
    (h : changeInvoice view i c old = .ok new) (hold : Contracted db old) (hsub : view ⊆ db) :
    Contracted db new := by
  obtain ⟨rfl, htriggers⟩ := admitted_ok h
  have hchecked := htriggers _ (List.mem_cons_of_mem _ List.mem_cons_self)
  rcases Bool.or_eq_true_iff.mp hchecked with hkept | hvalidated
  · intro id hid
    obtain ⟨hcontract, hvendor⟩ : (c.apply old).contractId = old.contractId ∧
        (c.apply old).vendorId = old.vendorId := by
      cases c with
      | edited org version e =>
          have habsent : (e.vendorId.isPresent || e.contractId.isPresent) = false := by
            simpa [InvoiceChange.setsContract] using hkept
          obtain ⟨hvendor, hcontract⟩ := Bool.or_eq_false_iff.mp habsent
          exact ⟨overwrite_absent hcontract, overwrite_absent hvendor⟩
      | _ => exact ⟨rfl, rfl⟩
    rw [hcontract] at hid
    rw [c.apply_organizationId old, hvendor]
    exact hold id hid
  · exact (contracted_of_validated hvalidated).mono hsub

theorem contracted_of_ran {s : Stmt} {choice : Nat} {out : Out s}
    (hrun : engine cfg s choice view = some (.ok (out, rows)))
    (hview : ∀ i v, (⟨.invoice i, v⟩ : Sigma Val) ∈ view → Contracted db v) (hsub : view ⊆ db)
    (hv : (⟨.invoice i, v⟩ : Sigma Val) ∈ rows) : Contracted db v := by
  have hkey : Key.invoice i ∈ rows.keys := List.mem_map.mpr ⟨_, hv, rfl⟩
  cases engine_ok hrun with
  | read choice hanswer => exact absurd hv List.not_mem_nil
  | call choice hreply => cases reply_internal hreply hkey
  | @write u out rows hwrote =>
      have htarget := hwrote.target hkey rfl
      have hupdate : performUpdate choice view u = .ok (out, rows) := Option.some.inj hrun
      cases u with
      | insertInvoice id w =>
          simp only [performUpdate] at hupdate
          split at hupdate
          · rename_i hvalidated
            cases hwrote with
            | insertInvoice hinserted =>
                rcases hinserted.mem hv with heq | hinternal
                · cases heq
                  exact (contracted_of_validated hvalidated).mono hsub
                · cases hinternal
          · cases hupdate
      | updateInvoice id c =>
          cases hwrote with
          | updateInvoice hupdated =>
              cases hupdated with
              | missed hmissed => exact absurd hv List.not_mem_nil
              | wrote old new hrow happlies hchange =>
                  cases List.mem_singleton.mp hv
                  exact contracted_of_changed hchange (hview _ _ (Log.mem_of_row hrow)) hsub
      | _ => cases htarget

/-- The invoices that the open transaction has written, by induction on its statements. -/
theorem contracted_writes (h : ProcOk (machine cfg) (conduct cfg) Legal db p)
    (hdb : ∀ i v, (⟨.invoice i, v⟩ : Sigma Val) ∈ db → Contracted db v)
    {older : List (Event Val Out)} : ∀ newer : List (Event Val Out), p.current = newer ++ older →
      ∀ i v, (⟨.invoice i, v⟩ : Sigma Val) ∈ writes older → Contracted (p.writes ++ db) v := by
  induction older with
  | nil => exact fun _ _ _ _ hv => absurd hv List.not_mem_nil
  | cons e older ih =>
      intro newer hcur i v hv
      have hcur' : p.current = (newer ++ [e]) ++ older := by
        rw [hcur, List.append_assoc]
        rfl
      rw [writes_cons] at hv
      rcases List.mem_append.mp hv with hv | hv
      · have htrace := h.trace
        rw [hcur] at htrace
        obtain ⟨choice, hrun⟩ := htrace.executed.ran
        have hbase : e.base ⊆ db := (h.bases (mem_of_event hcur)).subset
        refine contracted_of_ran hrun (fun j w hw => ?_) (h.view_subset hcur) hv
        rcases List.mem_append.mp hw with hw | hw
        · exact ih _ hcur' j w hw
        · exact (hdb j w (hbase hw)).mono (List.subset_append_right _ _)
      · exact ih _ hcur' i v hv

/-- The services write no table of the services outside. -/
theorem written_inner {C : Op → Conduct Out} (h : ProcOk (machine cfg) C Legal db p)
    {s : Sigma Val} (hs : s ∈ p.writes) : outside s.1 = false := by
  obtain ⟨e, he, hrows⟩ := List.mem_flatMap.mp hs
  have hkey : s.1 ∈ e.rows.keys := List.mem_map.mpr ⟨s, hrows, rfl⟩
  obtain ⟨newer, older, hcur, hx⟩ := h.trace.split he
  have hinternal : s.1.internal = true → outside s.1 = false := by
    intro hinternal
    cases hk : s.1 <;> first | rfl | (rw [hk] at hinternal; cases hinternal)
  obtain ⟨q, out, rows, base⟩ := e
  cases executed_ran hx with
  | read choice hanswer => exact absurd hrows List.not_mem_nil
  | call choice hreply => exact hinternal (reply_internal hreply hkey)
  | @write u out rows hwrote =>
      by_cases hk : s.1.internal = true
      · exact hinternal hk
      · rw [hwrote.target hkey (eq_false_of_ne_true hk)]
        cases u <;> rfl

end Rows
section Runs

variable {cfg : Config} {ok : System → SystemAction → Prop} {s₀ s : System}

/-- Every version of an invoice was committed with a contract of its vendor. -/
theorem contracted (cfg : Config) (h₀ : Idle Legal s₀)
    (hc : ∀ i v, (⟨.invoice i, v⟩ : Sigma Val) ∈ s₀.db → Contracted s₀.db v)
    (hs : Run (machine cfg) ok s₀ s) :
    ∀ i v, (⟨.invoice i, v⟩ : Sigma Val) ∈ s.db → Contracted s.db v := by
  refine hs.invariant
    (I := fun s : System => ∀ i v, (⟨.invoice i, v⟩ : Sigma Val) ∈ s.db → Contracted s.db v)
    hc fun u a w hu hc _ hstep => ?_
  cases hstep.effect with
  | quiet hdb hprocs => exact hdb ▸ hc
  | answered i c p q next out rows hp hq hrun => exact hc
  | committed i c p next hp hq =>
      intro j v hv
      rcases List.mem_append.mp hv with hv | hv
      · have hproc := (Run.consistent (discipline cfg) h₀.consistent hu).proc i p hp
        exact contracted_writes hproc hc [] rfl j v hv
      · exact (hc j v hv).mono (List.subset_append_right _ _)
  | outside rows hext =>
      intro j v hv
      rcases List.mem_append.mp hv with hv | hv
      · cases hext.1 _ hv
      · exact (hc j v hv).mono (List.subset_append_right _ _)

/-- The contract has stayed with one vendor of one organization. -/
def Stays (db : Db) (id : Id) : Prop :=
  ∀ c c' : Contract, (⟨.contract id, c⟩ : Sigma Val) ∈ db → (⟨.contract id, c'⟩ : Sigma Val) ∈ db →
    c.organizationId = c'.organizationId ∧ c.vendorId = c'.vendorId

/-- In every run, whatever the contracts do meanwhile, an invoice that names a contract has a vendor
that the contract was once of; a contract that never moved is the vendor's still. -/
theorem contracts_of_vendor (cfg : Config) (h₀ : Idle Legal s₀)
    (hc : ∀ i v, (⟨.invoice i, v⟩ : Sigma Val) ∈ s₀.db → Contracted s₀.db v)
    (hs : Run (machine cfg) ok s₀ s) {i id : Id} {v : Invoice} (hv : Db.invoice s.db i = some v)
    (hid : v.contractId = some id) :
    (∃ c : Contract, (⟨.contract id, c⟩ : Sigma Val) ∈ s.db ∧
      c.organizationId = v.organizationId ∧ v.vendorId = some c.vendorId) ∧
    (Stays s.db id → ∃ c, Db.contract s.db id = some c ∧
      c.organizationId = v.organizationId ∧ v.vendorId = some c.vendorId) := by
  obtain ⟨c, hmem, horg, hvendor⟩ := contracted cfg h₀ hc hs i v (Log.mem_of_row hv) id hid
  refine ⟨⟨c, hmem, horg, hvendor⟩, fun hstays => ?_⟩
  obtain ⟨c', hc'⟩ := Log.exists_row_of_mem_keys (List.mem_map.mpr ⟨_, hmem, rfl⟩)
  have hsame := hstays c c' hmem (Log.mem_of_row hc')
  exact ⟨c', hc', hsame.1 ▸ horg, hsame.2 ▸ hvendor⟩

end Runs
section Sample

def servicesOnly (_ : System) : SystemAction → Bool
  | .env _ => false
  | _ => true

/-- The sample tenant with a contract of the vendor. -/
def contractDb : Db := ⟨.contract 3, (⟨1, 1, none⟩ : Contract)⟩ :: sampleDb

theorem contractDb_idle : Idle Legal (⟨contractDb, []⟩ : System) := by
  refine idle_of_first (by decide) fun s hs => ?_
  simp only [contractDb, sampleDb, List.mem_cons, List.not_mem_nil, or_false] at hs
  rcases hs with rfl | rfl | rfl | rfl | rfl | rfl | rfl | rfl | rfl | rfl | rfl | rfl | rfl |
    rfl <;> trivial

theorem contractDb_contracted (i : Id) (v : Invoice)
    (hv : (⟨.invoice i, v⟩ : Sigma Val) ∈ contractDb) : Contracted contractDb v := by
  refine contracted_of_none ?_
  simp only [contractDb, sampleDb, List.mem_cons, List.not_mem_nil, or_false] at hv
  simp_all [sampleInvoice]

/-- An edit names the contract, and then the contract goes to another vendor. -/
theorem contracts_of_vendor_sample : ∃ t : System, ∃ v, ∃ c : Contract,
    Db.invoice t.db 1 = some v ∧ v.contractId = some 3 ∧
      (⟨.contract 3, c⟩ : Sigma Val) ∈ t.db ∧ v.vendorId = some c.vendorId ∧
      Db.contract t.db 3 = some ⟨1, 2, none⟩ := by
  let moved : Db := [⟨.contract 3, (⟨1, 2, none⟩ : Contract)⟩]
  have hok : ∀ (s : System) (a : SystemAction), servicesOnly s a = true → True :=
    fun _ _ _ => trivial
  obtain ⟨t, hrun, hcheck⟩ := exists_run (M := machine sampleConfig) (s := ⟨contractDb, []⟩)
    (.start (.update (sampleAuth 1) 1 { sampleEdit 1 200 with contractId := .given 3 }) ::
      execs 0 (List.replicate 10 0 ++ [5, 0]))
    (fun t => (Db.invoice t.db 1).any (·.contractId = some 3) && decide (t.locked = [])) hok
    (by decide +kernel)
  obtain ⟨hcontract, hfree⟩ := Bool.and_eq_true_iff.mp hcheck
  obtain ⟨v, hv, hid⟩ := (Option.any_eq_true _ _).mp hcontract
  have hchain := (Run.consistent (discipline sampleConfig) contractDb_idle.consistent hrun).chain
  have hext : (machine sampleConfig).external t.db moved := by
    refine ⟨fun s hs => ?_, trivial, hchain⟩
    rw [List.mem_singleton.mp hs]
    rfl
  have hmoves : Step (machine sampleConfig) t (.env moved) { t with db := moved ++ t.db } := by
    refine .env moved hext fun k _ hk => ?_
    rw [of_decide_eq_true hfree] at hk
    exact absurd hk List.not_mem_nil
  have hv' : Db.invoice (moved ++ t.db) 1 = some v := (external_row hext rfl).trans hv
  obtain ⟨⟨c, hc, -, hvendor⟩, -⟩ := contracts_of_vendor sampleConfig contractDb_idle
    contractDb_contracted (.step hrun trivial hmoves) hv' (of_decide_eq_true hid)
  exact ⟨⟨moved ++ t.db, t.procs⟩, v, c, hv', of_decide_eq_true hid, hc, hvendor,
    Log.row_cons_self ..⟩

end Sample
end BlocTrust
