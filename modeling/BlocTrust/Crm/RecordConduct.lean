import BlocTrust.Crm.Records

/-!
What the record services have seen before they write.
A link is inserted for a building that the caller may manage, and a row is changed after the links it
had were checked; a contract is written before it is linked.
-/
namespace BlocTrust.Crm

open ReadCommitted Prog Log

/-- Rows that no other row is checked against. -/
def Key.incidental : Key → Bool
  | building _ | vendor _ | audit _ | buildingName _ _ | contractReference _ _ => true
  | _ => false

section Statements

/-- What the statement `q` writes over its view. -/
inductive Writes (view : Db) (q : Stmt ⊕ Creation) : Db → Prop
  | other {rows : Db} (hrows : ∀ k ∈ rows.keys, k.incidental = true) : Writes view q rows
  | created {c : Id} {k : Contract} {entries : Db} (hfresh : Key.contract c ∉ view.keys)
      (hentries : ∀ k ∈ entries.keys, k.incidental = true) :
      Writes view q (⟨.contract c, k⟩ :: entries)
  | moved {c : Id} {old k : Contract} {entries : Db} (hold : view.contract c = some old)
      (horg : k.organizationId = old.organizationId)
      (hvalid : validateContractVendorChange view c old k = true)
      (hentries : ∀ k ∈ entries.keys, k.incidental = true) :
      Writes view q (⟨.contract c, k⟩ :: entries)
  | unlinkedVendor {v b org : Id} (hlink : view.vendorBuilding v b = some org)
      (hfree : vendorBuildingReferenced view v org b = false) :
      Writes view q [⟨.vendorBuilding v b, none⟩]
  | linkedVendor {v b org : Id} (hnone : view.vendorBuilding v b = none) :
      Writes view q [⟨.vendorBuilding v b, some org⟩]
  | unlinkedContract {c b : Id} : Writes view q [⟨.contractBuilding c b, none⟩]
  | linkedContract {c b org : Id} (hq : q = .inl (.insertLink (.contract c) org b))
      (hvalid : validateContractVendorBuilding view c org b = true) :
      Writes view q [⟨.contractBuilding c b, some org⟩]

variable {view rows : Db} {q : Stmt ⊕ Creation} {choice : Nat}

theorem admitUpdate_entries {k : Key} {c : Change k} {old new : Val k} {entries : Db}
    (h : admitUpdate view k c old new = .ok entries) : ∀ k' ∈ entries.keys, k'.incidental = true := by
  cases k with
  | building id =>
      simp only [admitUpdate] at h
      split at h
      · cases h
      · split at h
        · cases h
          simp
        · split at h
          · cases h
          · cases h
            simp [List.keys, Key.incidental]
  | vendor id =>
      simp only [admitUpdate] at h
      split at h
      · cases h
      · cases h
        simp
  | contract id =>
      simp only [admitUpdate] at h
      split at h
      · cases h
      · split at h
        · cases h
        · split at h
          · cases h
          · split at h
            · cases h
              simp
            · split at h
              · cases h
              · cases h
                simp [List.keys, Key.incidental]
  | _ => exact c.elim

theorem updateRow_writes {k : Key} {org expected n : Nat} {c : Change k}
    (h : updateRow view k org expected c = .ok (n, rows)) : Writes view q rows := by
  unfold updateRow at h
  split at h
  · cases h
    exact .other (by simp)
  · rename_i old hold
    split at h
    · cases hentries : admitUpdate view k c old (apply k c old) with
      | error e =>
          rw [hentries] at h
          cases h
      | ok entries =>
          rw [hentries] at h
          cases h
          have hfree := admitUpdate_entries hentries
          cases k with
          | contract id =>
              refine .moved hold rfl ?_ hfree
              by_contra hvalid
              have hvalid := Bool.eq_false_iff.mpr hvalid
              simp only [admitUpdate, if_pos hvalid] at hentries
              cases hentries
          | building id =>
              refine .other fun k hk => ?_
              rcases List.mem_cons.mp hk with rfl | hk
              · rfl
              · exact hfree k hk
          | vendor id =>
              refine .other fun k hk => ?_
              rcases List.mem_cons.mp hk with rfl | hk
              · rfl
              · exact hfree k hk
          | _ => exact c.elim
    · cases h
      exact .other (by simp)

theorem deleteLink_writes {k : Key} {org b n : Id} (h : deleteLink view org b k = .ok (n, rows)) :
    Writes view q rows := by
  cases k with
  | vendor v =>
      simp only [deleteLink] at h
      split at h
      · rename_i hlink
        split at h
        · cases h
        · rename_i hfree
          cases h
          exact .unlinkedVendor hlink (Bool.eq_false_iff.mpr hfree)
      · cases h
        exact .other (by simp)
  | contract c =>
      simp only [deleteLink] at h
      split at h
      · cases h
        exact .unlinkedContract
      · cases h
        exact .other (by simp)
  | _ =>
      cases h
      exact .other (by simp)

theorem insertLink_writes {k : Key} {org b : Id} {u : Unit}
    (h : insertLink view org b k = .ok (u, rows)) :
    Writes view (.inl (.insertLink k org b)) rows := by
  cases k with
  | vendor v =>
      simp only [insertLink] at h
      split at h
      · cases h
      · rename_i hnone
        split at h
        · cases h
          exact .linkedVendor (Option.not_isSome_iff_eq_none.mp hnone)
        · cases h
  | contract c =>
      simp only [insertLink] at h
      split at h
      · cases h
      · rename_i hvalid
        split at h
        · cases h
        · split at h
          · cases h
            exact .linkedContract rfl (eq_true_of_ne_false hvalid)
          · cases h
  | _ => cases h

theorem createRow_writes {x : Creation} {id : Id} (hfresh : x.key id ∉ view.keys)
    (h : createRow view id x = .ok rows) : Writes view q rows := by
  cases x with
  | building b =>
      simp only [createRow] at h
      split at h
      · cases h
      · split at h
        · cases h
        · cases h
          exact .other (by simp [List.keys, Key.incidental])
  | vendor v =>
      simp only [createRow] at h
      split at h
      · cases h
      · cases h
        exact .other (by simp [List.keys, Key.incidental])
  | contract c =>
      simp only [createRow] at h
      split at h
      · cases h
      · split at h
        · cases h
        · split at h
          · cases h
          · cases h
            exact .created hfresh (by simp [List.keys, Key.incidental])

theorem engine_writes {cfg : Config} {out : RecordOut q}
    (h : (recordMachine cfg).engine q choice view = some (.ok (out, rows))) : Writes view q rows := by
  cases q with
  | inl s =>
      have h : engine s choice view = some (.ok (out, rows)) := h
      cases s with
      | read q => exact .other (by simp [(read_ok h).2])
      | update k org expected c => exact updateRow_writes (Option.some.inj h)
      | deleteLink k org b => exact deleteLink_writes (Option.some.inj h)
      | insertLink k org b => exact insertLink_writes (Option.some.inj h)
      | insertAudit a =>
          simp only [engine] at h
          split at h
          · cases h
          · cases h
            exact .other (by simp [List.keys, Key.incidental])
      | clock =>
          cases h
          exact .other (by simp)
  | inr x =>
      have h : createEngine x choice view = some (.ok (out, rows)) := h
      simp only [createEngine] at h
      split at h
      · cases h
      · rename_i hfresh
        cases hrow : createRow view choice x with
        | error e =>
            rw [hrow] at h
            cases h
        | ok rows' =>
            rw [hrow] at h
            cases h
            exact createRow_writes hfresh hrow

/-- A vendor is unlinked where it was linked, and linked where it was not. -/
def linking : Transition Val
  | .vendorBuilding _ _, old, new => new = none ∨ old.join = none
  | _, _, _ => True

end Statements

section Conduct

def RecordOp.auth : RecordOp → AuthContext
  | update (.updateBuilding auth _ _ _) | update (.updateVendor auth _ _ _)
  | update (.updateContract auth _ _ _) => auth
  | createBuilding auth _ | createVendor auth _ | createContract auth _ => auth

/-- The caller is an owner, or an administrator whose grant for the building was found. -/
def GrantFound (auth : AuthContext) (cur : Calls RecordOut) (b : Id) : Prop :=
  auth.role = .owner ∨ auth.role = .administrator ∧ ∃ now id : Nat,
    ⟨.inl .clock, now⟩ ∈ cur ∧
      ⟨.inl (.read (.findAccess auth.organizationId auth.membershipId b now)), some id⟩ ∈ cur

/-- The buildings that the entity was found linked to are granted. -/
def Managed (auth : AuthContext) (cur : Calls RecordOut) (k : Key) (links : List Id) : Prop :=
  ⟨.inl (.read (.buildingLinks k auth.organizationId)), links⟩ ∈ cur ∧
    ∀ b ∈ links, GrantFound auth cur b

/-- The transaction has written the contract. -/
def Wrote (cur : Calls RecordOut) (c : Id) : Prop :=
  (∃ org version e, ⟨.inl (.update (.contract c) org version e), (1 : Nat)⟩ ∈ cur) ∨
    ∃ k, ⟨.inr (.contract k), c⟩ ∈ cur

/-- What leads to a write. -/
def authorized (auth : AuthContext) (cur : Calls RecordOut) : Stmt ⊕ Creation → Prop
  | .inl (.update (.building id) _ _ _) => GrantFound auth cur id
  | .inl (.update (.vendor v) _ _ _) =>
      ∃ links, Managed auth cur (.vendor v) links ∧ (auth.role = .owner ∨ links ≠ [])
  | .inl (.update (.contract c) _ _ _) => ∃ links, Managed auth cur (.contract c) links
  | .inl (.deleteLink (.vendor _) _ b) => GrantFound auth cur b
  | .inl (.insertLink k org b) => org = auth.organizationId ∧ GrantFound auth cur b ∧
      ∀ c, k = .contract c → Wrote cur c
  | _ => True

def recordConduct (op : RecordOp) : Conduct RecordOut where
  before _ cur q := authorized op.auth cur q
  due _ _ := True
  answers _ _ := True

variable {auth : AuthContext} {cur cur' : Calls RecordOut}

theorem GrantFound.mono {b : Id} (hsub : cur ⊆ cur') (h : GrantFound auth cur b) :
    GrantFound auth cur' b := by
  refine h.imp_right ?_
  rintro ⟨hrole, now, id, hclock, hfound⟩
  exact ⟨hrole, now, id, hsub hclock, hsub hfound⟩

theorem Managed.mono {k : Key} {links : List Id} (hsub : cur ⊆ cur')
    (h : Managed auth cur k links) : Managed auth cur' k links :=
  ⟨hsub h.1, fun b hb => (h.2 b hb).mono hsub⟩

theorem Wrote.mono {c : Id} (hsub : cur ⊆ cur') (h : Wrote cur c) : Wrote cur' c := by
  rcases h with ⟨org, version, e, hmem⟩ | ⟨k, hmem⟩
  · exact .inl ⟨org, version, e, hsub hmem⟩
  · exact .inr ⟨k, hsub hmem⟩

end Conduct

section Programs

variable {cfg : Config} {op : RecordOp} {auth : AuthContext} {α β : Type} {cur : Calls RecordOut}
  {Q : α → Calls RecordOut → Prop}

/-- The open transaction keeps the conduct, and leads to `Q` where it goes on. -/
def Leads (op : RecordOp) (cur : Calls RecordOut) (p : RecordProgram α)
    (Q : α → Calls RecordOut → Prop) : Prop :=
  ∀ past, p.wp (recordConduct op) (fun a _ cur => Q a cur) (fun _ _ _ => True) past cur

theorem leads_bind {p : RecordProgram α} {f : α → RecordProgram β}
    {Q : β → Calls RecordOut → Prop}
    (h : Leads op cur p fun a cur => Leads op cur (f a) Q) : Leads op cur (p >>= f) Q :=
  fun past => (wp_bind p f).mpr
    (wp_mono (fun _ past _ hf => hf past) (fun _ _ _ _ => trivial) (h past))

theorem leads_pure {a : α} (h : Q a cur) : Leads op cur (pure a) Q := fun _ => h

theorem leads_throw {e : Failure} : Leads op cur (throw e : RecordProgram α) Q :=
  fun _ => trivial

theorem leads_sql {q : Stmt ⊕ Creation} {Q : RecordOut q → Calls RecordOut → Prop}
    (hq : authorized op.auth cur q) (h : ∀ out, Q out (⟨q, out⟩ :: cur)) :
    Leads op cur (sql q) Q := fun _ => ⟨hq, fun out _ => h out, fun _ => trivial⟩

theorem leads_require {c : Prop} [Decidable c] {e : Failure} {Q : Unit → Calls RecordOut → Prop}
    (h : c → Q () cur) : Leads op cur (require c e) Q :=
  fun _ => (wp_require c e).mpr ⟨h, fun _ => trivial⟩

theorem leads_orThrow {o : Option α} {e : Failure} (h : ∀ a, o = some a → Q a cur) :
    Leads op cur (orThrow o e) Q := fun _ => (wp_orThrow o e).mpr ⟨h, fun _ => trivial⟩

theorem leads_each {γ : Type} {p : γ → RecordProgram α} {I : List γ → Calls RecordOut → Prop}
    (cs : List γ) {Q : List α → Calls RecordOut → Prop} (hinit : I [] cur)
    (hstep : ∀ c ∈ cs, ∀ done cur, I done cur → Leads op cur (p c) fun _ => I (done ++ [c]))
    (hQ : ∀ as cur, I cs cur → Q as cur) : Leads op cur (each p cs) Q := by
  intro past
  refine wp_mono (fun as _ cur hI => hQ as cur hI) (fun _ _ _ h => h)
    (wp_each p cs (fun done _ cur => I done cur) ?_ cs [] rfl hinit)
  intro c done rest past cur hall hI
  exact hstep c (by simp [hall]) done cur hI past

/-- A transaction that leads anywhere. -/
theorem leads_transaction {p : RecordProgram α} (h : Leads op [] p fun _ _ => True) :
    (transaction p).wp (recordConduct op) (fun _ _ _ => True) (fun _ _ _ => True) [] [] :=
  (wp_transaction p).mpr (wp_mono (fun _ _ _ _ => ⟨trivial, trivial, fun _ => trivial⟩)
    (fun _ _ _ h => h) (h []))

/-- Statements that need no authorization. -/
def harmless : Stmt → Prop
  | .update _ _ _ _ | .insertLink _ _ _ | .deleteLink (.vendor _) _ _ => False
  | _ => True

theorem harmless_authorized {s : Stmt} (h : harmless s) : authorized auth cur (.inl s) := by
  cases s with
  | update k org version c => exact h.elim
  | insertLink k org b => exact h.elim
  | deleteLink k org b =>
      cases k with
      | vendor v => exact h.elim
      | _ => trivial
  | _ => trivial

theorem reading_harmless (s : Stmt) (h : reading s) : harmless s := by
  cases s with
  | read q => trivial
  | clock => trivial
  | _ => exact h.elim

theorem leads_harmless {p : Program α} (hp : p.Plain harmless)
    (h : ∀ a cur', cur ⊆ cur' → Q a cur') : Leads op cur (p.extend fun _ => Id) Q := by
  intro past
  refine wp_mono (fun a _ cur' hkeeps => h a cur' hkeeps.2.1) (fun _ _ _ _ => trivial)
    (hp.extend.keeps (fun q hq cur => ?_) cur)
  cases q with
  | inl s => exact harmless_authorized hq
  | inr x => exact hq.elim

theorem leads_reading {p : Program α} (hp : p.Plain reading)
    (h : ∀ a cur', cur ⊆ cur' → Q a cur') : Leads op cur (p.extend fun _ => Id) Q :=
  leads_harmless (hp.mono reading_harmless) h

theorem leads_query {q : Query} {Q : q.Out → Calls RecordOut → Prop}
    (h : ∀ out, Q out (⟨.inl (.read q), out⟩ :: cur)) :
    Leads op cur ((query q).extend fun _ => Id) Q := by
  rw [query, extend_sql]
  exact leads_sql (q := .inl (.read q)) trivial h

theorem leads_assertCanManage {b : Id} {Q : Unit → Calls RecordOut → Prop}
    (h : ∀ cur', cur ⊆ cur' → GrantFound op.auth cur' b → Q () cur') :
    Leads op cur ((BuildingAccessService.assertCanManage op.auth b).extend fun _ => Id) Q := by
  unfold BuildingAccessService.assertCanManage
  split
  · rename_i howner
    exact leads_pure (h cur (List.Subset.refl _) (.inl howner))
  · split
    · rename_i hrole
      simp only [extend_bind, extend_sql]
      refine leads_bind (leads_sql (q := .inl .clock) trivial fun (now : Nat) => ?_)
      refine leads_bind (leads_query fun found => ?_)
      rw [extend_orThrow]
      refine leads_bind (leads_orThrow fun id hid => ?_)
      refine leads_pure (h _ (fun c hc => by simp [hc]) (.inr ⟨hrole, now, id, by simp, ?_⟩))
      simp [hid]
    · exact leads_throw

theorem leads_assertAllCanManage {bs : List Id} {Q : Unit → Calls RecordOut → Prop}
    (h : ∀ cur', cur ⊆ cur' → (∀ b ∈ bs, GrantFound op.auth cur' b) → Q () cur') :
    Leads op cur ((BuildingAccessService.assertAllCanManage op.auth bs).extend fun _ => Id) Q := by
  rw [BuildingAccessService.assertAllCanManage, extend_bind, extend_each]
  refine leads_bind (leads_each (I := fun done cur' => cur ⊆ cur' ∧
    ∀ b ∈ done, GrantFound op.auth cur' b) _ ⟨List.Subset.refl _, by simp⟩ ?_ ?_)
  · rintro b - done cur' ⟨hsub, hdone⟩
    rw [extend_bind]
    refine leads_bind (leads_reading ?_ fun _ cur₁ hsub₁ => ?_)
    · exact Plain.bind ((plain_sql _).mpr trivial) fun building =>
        Plain.bind (plain_orThrow _ _) fun _ => trivial
    · refine leads_assertCanManage fun cur₂ hsub₂ hgranted => ?_
      have hle : cur' ⊆ cur₂ := List.Subset.trans hsub₁ hsub₂
      refine ⟨List.Subset.trans hsub hle, fun b' hb' => ?_⟩
      rcases List.mem_append.mp hb' with hb' | hb'
      · exact (hdone b' hb').mono hle
      · rw [List.mem_singleton.mp hb']
        exact hgranted
  · intro _ cur' hI
    exact leads_pure (h cur' hI.1 fun b hb => hI.2 b (List.mem_eraseDups.mpr hb))

theorem leads_createLinks {k : Key} {bs : List Id} {Q : Unit → Calls RecordOut → Prop}
    (hgranted : ∀ b ∈ bs, GrantFound op.auth cur b) (hwrote : ∀ c, k = .contract c → Wrote cur c)
    (h : ∀ cur', Q () cur') :
    Leads op cur ((createLinks op.auth k bs).extend fun _ => Id) Q := by
  simp only [createLinks, extend_bind, extend_each, extend_sql]
  refine leads_bind (leads_each (I := fun _ cur' => cur ⊆ cur') bs (List.Subset.refl _) ?_ ?_)
  · intro b hb done cur' hsub
    refine leads_sql (q := .inl (.insertLink k op.auth.organizationId b))
      ⟨rfl, (hgranted b hb).mono hsub, fun c hc => (hwrote c hc).mono hsub⟩ fun _ => ?_
    exact fun c hc => List.mem_cons_of_mem _ (hsub hc)
  · intro _ cur' _
    exact leads_pure (h cur')

theorem leads_unlinkVendor {v : Id} {bs : List Id} {Q : Unit → Calls RecordOut → Prop}
    (hgranted : ∀ b ∈ bs, GrantFound op.auth cur b) (h : ∀ cur', cur ⊆ cur' → Q () cur') :
    Leads op cur ((deleteLinks op.auth (.vendor v) bs).extend fun _ => Id) Q := by
  simp only [deleteLinks, extend_bind, extend_each, extend_sql]
  refine leads_bind (leads_each (I := fun _ cur' => cur ⊆ cur') bs (List.Subset.refl _) ?_ ?_)
  · intro b hb done cur' hsub
    refine leads_sql (q := .inl (.deleteLink (.vendor v) op.auth.organizationId b))
      ((hgranted b hb).mono hsub) fun _ => ?_
    exact fun c hc => List.mem_cons_of_mem _ (hsub hc)
  · intro _ cur' hsub
    exact leads_pure (h cur' hsub)

theorem unlink_plain (auth : AuthContext) (id : Id) :
    (ContractsService.unlink auth id).Plain harmless := by
  refine Plain.bind ((plain_sql _).mpr trivial) fun links => ?_
  refine Plain.bind (plain_each (fun b => ?_) _) fun _ => trivial
  exact (plain_sql (Stmt.deleteLink (.contract id) auth.organizationId b)).mpr trivial

theorem leads_updateExpected {k : Key} {expected : Nat} {c : Change k}
    {Q : Unit → Calls RecordOut → Prop}
    (hk : authorized op.auth cur (.inl (.update k op.auth.organizationId expected c)))
    (h : Q () (⟨.inl (.update k op.auth.organizationId expected c), (1 : Nat)⟩ :: cur)) :
    Leads op cur ((updateExpected op.auth k expected c).extend fun _ => Id) Q := by
  simp only [updateExpected, extend_bind, extend_sql, extend_require]
  refine leads_bind (leads_sql (q := .inl (.update k op.auth.organizationId expected c)) hk
    fun (n : Nat) => ?_)
  refine leads_require fun hn => ?_
  subst hn
  exact h

theorem leads_writeAudit {action entityType : String} {id : Id}
    {Q : Unit → Calls RecordOut → Prop} (h : ∀ cur', Q () cur') :
    Leads op cur ((writeAudit op.auth action entityType id).extend fun _ => Id) Q := by
  refine leads_harmless ((plain_sql _).mpr trivial) fun _ cur' _ => h cur'

end Programs

section Services

variable {cfg : Config} {op : RecordOp} {cur : Calls RecordOut}

theorem updateBuilding_leads (id : Id) (version : Nat) (dto : BuildingsService.UpdateBuildingDto) :
    ((BuildingsService.update op.auth id version dto).extend fun _ => Id).wp (recordConduct op)
      (fun _ _ _ => True) (fun _ _ _ => True) [] [] := by
  rw [BuildingsService.update, extend_transaction]
  refine leads_transaction ?_
  rw [extend_bind]
  refine leads_bind (leads_assertCanManage fun cur _ hgranted => ?_)
  cases BuildingsService.buildingEdit dto with
  | error failure => exact leads_throw
  | ok edit =>
      simp only [extend_bind]
      refine leads_bind (leads_updateExpected hgranted (leads_bind (leads_query fun after => ?_)))
      exact leads_harmless (plain_orThrow _ _) fun _ _ _ => trivial

theorem leads_assertCanManageVendor {v : Id} {Q : Vendor × List Id → Calls RecordOut → Prop}
    (h : ∀ vendor links cur', cur ⊆ cur' → Managed op.auth cur' (.vendor v) links →
      op.auth.role = .owner ∨ links ≠ [] → Q (vendor, links) cur') :
    Leads op cur ((VendorsService.assertCanManageVendor op.auth v).extend fun _ => Id) Q := by
  simp only [VendorsService.assertCanManageVendor, extend_bind, extend_orThrow, extend_require]
  refine leads_bind (leads_query fun found => ?_)
  refine leads_bind (leads_orThrow fun vendor _ => ?_)
  refine leads_bind (leads_query fun links => ?_)
  refine leads_bind (leads_require fun hlinks => ?_)
  refine leads_bind (leads_assertAllCanManage fun cur' hsub hgranted => ?_)
  refine leads_pure (h vendor links cur' (fun c hc => hsub ?_) ⟨hsub ?_, hgranted⟩ hlinks)
  · simp [hc]
  · simp

theorem leads_relink {v : Id} {current requested : List Id} {Q : Unit → Calls RecordOut → Prop}
    (hcurrent : ∀ b ∈ current, GrantFound op.auth cur b)
    (hgranted : ∀ b ∈ requested, GrantFound op.auth cur b) (h : ∀ cur', Q () cur') :
    Leads op cur ((VendorsService.relink op.auth v current requested).extend fun _ => Id) Q := by
  simp only [VendorsService.relink, extend_bind]
  refine leads_bind (leads_harmless ?_ fun _ cur₁ hsub₁ => ?_)
  · unfold whenever
    split
    · exact Plain.bind ((plain_sql _).mpr trivial) fun _ => plain_require _ _
    · trivial
  · refine leads_bind (leads_unlinkVendor (fun b hb => ?_) fun cur₂ hsub₂ => ?_)
    · exact (hcurrent b (List.mem_filter.mp hb).1).mono hsub₁
    refine leads_createLinks (fun b hb => ?_) (fun c hc => by cases hc) h
    exact (hgranted b (List.mem_filter.mp hb).1).mono (List.Subset.trans hsub₁ hsub₂)

theorem updateVendor_leads (id : Id) (expected : Nat) (dto : VendorsService.UpdateVendorDto) :
    ((VendorsService.update cfg op.auth id expected dto).extend fun _ => Id).wp (recordConduct op)
      (fun _ _ _ => True) (fun _ _ _ => True) [] [] := by
  rw [VendorsService.update, extend_transaction]
  refine leads_transaction ?_
  rw [extend_bind]
  refine leads_bind (leads_assertCanManageVendor fun vendor links cur₁ _ hmanaged hlinks => ?_)
  simp only [extend_bind, extend_require]
  refine leads_bind (leads_assertAllCanManage fun cur₂ hsub hgranted => ?_)
  refine leads_bind (leads_require fun _ => ?_)
  cases VendorsService.vendorEdit cfg dto with
  | error failure => exact leads_throw
  | ok edit =>
      rw [extend_bind]
      refine leads_bind (leads_updateExpected ⟨links, hmanaged.mono hsub, hlinks⟩ ?_)
      have hend : ∀ cur, Leads op cur ((do
          let after ← query (.get (.vendor id))
          let vendor ← orThrow after (.notFound "P2025")
          writeAudit op.auth "VENDOR_UPDATED" "VENDOR" id
          return vendor : Program Vendor).extend fun _ => Id) fun _ _ => True := fun cur => by
        simp only [extend_bind]
        refine leads_bind (leads_query fun after => ?_)
        refine leads_bind (leads_harmless (plain_orThrow _ _) fun vendor cur _ => ?_)
        exact leads_bind (leads_writeAudit fun _ => leads_pure trivial)
      cases hids : (givenList dto.buildingIds).map List.eraseDups with
      | none => exact hend _
      | some requested =>
          rw [hids] at hgranted
          rw [extend_bind]
          refine leads_bind (leads_relink (fun b hb => ?_) (fun b hb => ?_) hend)
          · exact ((hmanaged.2 b hb).mono hsub).mono (List.subset_cons_self _ _)
          · exact (hgranted b hb).mono (List.subset_cons_self _ _)

theorem leads_assertVendorForBuildings {v : Id} {bs : List Id} {Q : Unit → Calls RecordOut → Prop}
    (h : ∀ cur', cur ⊆ cur' → Q () cur') :
    Leads op cur ((ContractsService.assertVendorForBuildings op.auth v bs).extend fun _ => Id) Q :=
  leads_reading (assertVendorForBuildings_plain _ _ _) fun _ => h

/-- An update of a contract after its access checks. -/
theorem leads_saveContract {id : Id} {expected : Nat} {links : List Id} (bs : List Id)
    (hmanaged : Managed op.auth cur (.contract id) links)
    (hgranted : ∀ b ∈ bs, GrantFound op.auth cur b) (edit : Except Failure ContractEdit) :
    Leads op cur ((saveContract op.auth id expected bs edit).extend fun _ => Id)
      fun _ _ => True := by
  cases edit with
  | error failure => exact leads_throw
  | ok edit =>
      simp only [saveContract, extend_bind]
      refine leads_bind (leads_updateExpected ⟨links, hmanaged⟩ ?_)
      refine leads_bind (leads_createLinks (fun b hb => ?_) (fun c hc => ?_) fun cur => ?_)
      · exact (hgranted b hb).mono (List.subset_cons_self _ _)
      · cases hc
        exact .inl ⟨_, _, _, List.mem_cons_self⟩
      · refine leads_bind (leads_query fun after => ?_)
        refine leads_bind (leads_harmless (plain_orThrow _ _) fun contract cur _ => ?_)
        exact leads_bind (leads_writeAudit fun _ => leads_pure trivial)

theorem updateContract_leads (id : Id) (expected : Nat)
    (dto : ContractsService.UpdateContractDto) :
    ((ContractsService.update op.auth id expected dto).extend fun _ => Id).wp (recordConduct op)
      (fun _ _ _ => True) (fun _ _ _ => True) [] [] := by
  rw [ContractsService.update, extend_transaction]
  refine leads_transaction ?_
  simp only [extend_bind]
  refine leads_bind (leads_query fun found => ?_)
  refine leads_bind (leads_harmless (plain_orThrow _ _) fun before cur₁ _ => ?_)
  refine leads_bind (leads_query fun links => ?_)
  refine leads_bind (leads_assertAllCanManage fun cur₂ hsub₂ hlinks => ?_)
  have hmanaged : Managed op.auth cur₂ (.contract id) links := ⟨hsub₂ (by simp), hlinks⟩
  refine leads_bind (leads_assertAllCanManage fun cur₃ hsub₃ hgranted => ?_)
  refine leads_bind (leads_assertVendorForBuildings fun cur₄ hsub₄ => ?_)
  have hsub : cur₂ ⊆ cur₄ := List.Subset.trans hsub₃ hsub₄
  cases hids : (givenList dto.buildingIds).map List.eraseDups with
  | none =>
      exact leads_saveContract [] (hmanaged.mono hsub) (by simp)
        (ContractsService.contractEdit dto before)
  | some requested =>
      rw [hids] at hgranted
      rw [extend_bind]
      refine leads_bind (leads_harmless (unlink_plain _ _) fun _ cur₅ hsub₅ => ?_)
      refine leads_saveContract requested (hmanaged.mono (List.Subset.trans hsub hsub₅))
        (fun b hb => ?_) (ContractsService.contractEdit dto before)
      exact (hgranted b hb).mono (List.Subset.trans hsub₄ hsub₅)

theorem createVendor_leads (dto : VendorsService.CreateVendorDto) :
    (VendorsService.create cfg op.auth dto).wp (recordConduct op)
      (fun _ _ _ => True) (fun _ _ _ => True) [] [] := by
  refine leads_transaction ?_
  refine leads_bind (leads_assertAllCanManage fun cur _ hgranted => ?_)
  refine leads_bind (leads_require fun _ => ?_)
  cases VendorsService.newVendor cfg op.auth dto with
  | error failure => exact leads_throw
  | ok vendor =>
      refine leads_bind (leads_sql (q := .inr (.vendor vendor)) trivial fun (id : Id) => ?_)
      refine leads_bind (leads_createLinks (fun b hb => ?_) (fun c hc => by cases hc) fun cur => ?_)
      · exact (hgranted b hb).mono (List.subset_cons_self _ _)
      · exact leads_bind (leads_writeAudit fun _ => leads_pure trivial)

theorem createContract_leads (dto : ContractsService.CreateContractDto) :
    (ContractsService.create op.auth dto).wp (recordConduct op)
      (fun _ _ _ => True) (fun _ _ _ => True) [] [] := by
  refine leads_transaction ?_
  refine leads_bind (leads_assertAllCanManage fun cur₁ _ hgranted => ?_)
  refine leads_bind (leads_assertVendorForBuildings fun cur₂ hsub => ?_)
  cases ContractsService.newContract op.auth dto with
  | error failure => exact leads_throw
  | ok contract =>
      refine leads_bind (leads_sql (q := .inr (.contract contract)) trivial fun (id : Id) => ?_)
      refine leads_bind (leads_createLinks (fun b hb => ?_) (fun c hc => ?_) fun cur => ?_)
      · exact ((hgranted b hb).mono hsub).mono (List.subset_cons_self _ _)
      · cases hc
        exact .inr ⟨contract, List.mem_cons_self⟩
      · exact leads_bind (leads_writeAudit fun _ => leads_pure trivial)

theorem recordProgram_leads (op : RecordOp) : (recordProgram cfg op).wp (recordConduct op)
    (fun _ _ _ => True) (fun _ _ _ => True) [] [] := by
  cases op with
  | update op =>
      refine (wp_bind _ _).mpr ?_
      cases op with
      | updateBuilding auth id version dto =>
          rw [program, extend_bind]
          exact (wp_bind _ _).mpr (updateBuilding_leads ..)
      | updateVendor auth id expected dto =>
          rw [program, extend_bind]
          exact (wp_bind _ _).mpr (updateVendor_leads ..)
      | updateContract auth id expected dto =>
          rw [program, extend_bind]
          exact (wp_bind _ _).mpr (updateContract_leads ..)
  | createBuilding auth dto =>
      refine (wp_bind _ _).mpr (leads_transaction ?_)
      exact leads_sql (q := .inr _) trivial fun _ => trivial
  | createVendor auth dto =>
      exact (wp_bind _ _).mpr (createVendor_leads dto)
  | createContract auth dto =>
      exact (wp_bind _ _).mpr (createContract_leads dto)

end Services

section Discipline

variable {cfg : Config} {view rows : Db} {q : Stmt ⊕ Creation}

theorem chain_unlinked (hrows : ∀ v b, Key.vendorBuilding v b ∉ rows.keys)
    (h : Chain linking view) : Chain linking (rows ++ view) := by
  induction rows with
  | nil => exact h
  | cons s rows ih =>
      refine ⟨?_, ih fun v b hmem => hrows v b (List.mem_cons_of_mem _ hmem)⟩
      obtain ⟨k, o⟩ := s
      cases k with
      | vendorBuilding v b => exact absurd List.mem_cons_self (hrows v b)
      | _ => trivial

theorem Writes.chain (hw : Writes view q rows) (h : Chain linking view) :
    Chain linking (rows ++ view) := by
  have hother : ∀ {rows : Db}, (∀ k ∈ rows.keys, k.incidental = true) →
      Chain linking (rows ++ view) := fun hrows =>
    chain_unlinked (fun v b hmem => by cases hrows _ hmem) h
  cases hw with
  | other hrows => exact hother hrows
  | created hfresh hentries => exact ⟨trivial, hother hentries⟩
  | moved hold horg hvalid hentries => exact ⟨trivial, hother hentries⟩
  | unlinkedVendor hlink hfree => exact ⟨.inl rfl, h⟩
  | linkedVendor hnone => exact ⟨.inr hnone, h⟩
  | unlinkedContract => exact ⟨trivial, h⟩
  | linkedContract hq hvalid => exact ⟨trivial, h⟩

theorem outside_of_mem (hrows : ∀ s ∈ rows, outside s.1 = true) {k : Key} (hk : k ∈ rows.keys) :
    outside k = true := by
  obtain ⟨s, hs, rfl⟩ := List.mem_map.mp hk
  exact hrows s hs

theorem recordDiscipline : Discipline (recordMachine cfg) recordConduct linking where
  program op := recordProgram_leads op
  legal _ _ _ _ _ h hview := (engine_writes h).chain hview
  answers _ _ _ _ _ _ _ := trivial
  external _ _ hrows hdb := chain_unlinked (fun v b hmem => by cases outside_of_mem hrows hmem) hdb

end Discipline
end BlocTrust.Crm
