import BlocTrust.Evidence
import BlocTrust.Tenant

/-!
The bank-account versions of a vendor.
The committed log holds them in the order of their commits.  A new version takes the number
after the highest that its transaction read; the unique index lets it in only where that
number is still free, so that no other version was committed since.
-/
namespace BlocTrust

open ReadCommitted

/-- The number of a version, when `s` is a bank-account version of the vendor. -/
def bankNumber (org vendorId : Id) : Sigma Val → Option Nat
  | ⟨.bank _, b⟩ =>
      if b.organizationId = org ∧ b.vendorId = vendorId then some b.versionNumber else none
  | _ => none

/-- The numbers of a vendor's bank-account versions in the order of their commits. -/
def bankHistory (db : Db) (org vendorId : Id) : List Nat :=
  db.reverse.filterMap (bankNumber org vendorId)

def bankIndex (b : VendorBankAccountVersion) : Key :=
  .unique (.bankVersion b.organizationId b.vendorId b.versionNumber)

/-- Numbers without a gap, each with its entry in the unique index. -/
structure BankHistories (db : Db) : Prop where
  numbers : ∀ org vendorId, ∃ n, bankHistory db org vendorId = List.range' 1 n
  indexed : ∀ id b, Db.bank db id = some b → bankIndex b ∈ db.keys

section Histories

variable {db w : Db} {org vendorId n : Nat}

theorem bankHistory_append : bankHistory (w ++ db) org vendorId =
    bankHistory db org vendorId ++ bankHistory w org vendorId := by
  unfold bankHistory
  rw [List.reverse_append, List.filterMap_append]

theorem bankNumber_eq_some {s : Sigma Val} (h : bankNumber org vendorId s = some n) :
    ∃ id b, s = ⟨.bank id, b⟩ ∧ b.organizationId = org ∧ b.vendorId = vendorId ∧
      b.versionNumber = n := by
  obtain ⟨k, v⟩ := s
  cases k with
  | bank id =>
      have hite : (if v.organizationId = org ∧ v.vendorId = vendorId then some v.versionNumber
          else none) = some n := h
      by_cases hboth : v.organizationId = org ∧ v.vendorId = vendorId
      · rw [if_pos hboth] at hite
        exact ⟨id, v, rfl, hboth.1, hboth.2, Option.some.inj hite⟩
      · rw [if_neg hboth] at hite
        cases hite
  | _ => cases h

theorem bankNumber_bank {id : Id} {b : VendorBankAccountVersion} (horg : b.organizationId = org)
    (hvendor : b.vendorId = vendorId) :
    bankNumber org vendorId ⟨.bank id, b⟩ = some b.versionNumber :=
  if_pos ⟨horg, hvendor⟩

theorem mem_bankHistory : n ∈ bankHistory db org vendorId ↔ ∃ id b,
    (⟨.bank id, b⟩ : Sigma Val) ∈ db ∧ b.organizationId = org ∧ b.vendorId = vendorId ∧
      b.versionNumber = n := by
  unfold bankHistory
  constructor
  · intro h
    obtain ⟨s, hs, hn⟩ := List.mem_filterMap.mp h
    obtain ⟨id, b, rfl, horg, hvendor, hnumber⟩ := bankNumber_eq_some hn
    exact ⟨id, b, List.mem_reverse.mp hs, horg, hvendor, hnumber⟩
  · rintro ⟨id, b, hmem, horg, hvendor, rfl⟩
    exact List.mem_filterMap.mpr ⟨_, List.mem_reverse.mpr hmem, bankNumber_bank horg hvendor⟩

theorem bankHistory_eq_nil (h : ∀ id b, (⟨.bank id, b⟩ : Sigma Val) ∉ db) :
    bankHistory db org vendorId = [] := by
  refine List.eq_nil_iff_forall_not_mem.mpr fun n hn => ?_
  obtain ⟨id, b, hmem, -⟩ := mem_bankHistory.mp hn
  exact h id b hmem

/-- A bank-account version that was ever committed is the row of its identifier. -/
theorem bank_of_mem (hc : Log.Chain Legal db) {id : Id} {b : VendorBankAccountVersion}
    (h : (⟨.bank id, b⟩ : Sigma Val) ∈ db) : Db.bank db id = some b := by
  obtain ⟨newer, older, rfl⟩ := List.append_of_mem h
  exact bank_later hc (List.suffix_append _ _) (Log.row_cons_self ..)

theorem mem_history_iff (hc : Log.Chain Legal db) : n ∈ bankHistory db org vendorId ↔ ∃ id b,
    Db.bank db id = some b ∧ b.organizationId = org ∧ b.vendorId = vendorId ∧
      b.versionNumber = n := by
  rw [mem_bankHistory]
  constructor
  · rintro ⟨id, b, hmem, hrest⟩
    exact ⟨id, b, bank_of_mem hc hmem, hrest⟩
  · rintro ⟨id, b, hrow, hrest⟩
    exact ⟨id, b, Log.mem_of_row hrow, hrest⟩

theorem anyOf_none {α : Type} {choice : Nat} {as : List α} (h : anyOf choice as = some none) :
    as = [] := by
  unfold anyOf at h
  split at h
  · rename_i hempty
    exact List.isEmpty_iff.mp hempty
  · obtain ⟨b, -, heq⟩ := Option.map_eq_some_iff.mp h
    cases heq

theorem mem_of_latestBank {cfg : Config} {choice : Nat} {bank : Id × VendorBankAccountVersion}
    (h : answer cfg choice db (.latestBank org vendorId) = some (some bank)) :
    Db.bank db bank.1 = some bank.2 ∧ bank.2.organizationId = org ∧ bank.2.vendorId = vendorId ∧
      ∀ id b, Db.bank db id = some b → b.organizationId = org → b.vendorId = vendorId →
        b.versionNumber ≤ bank.2.versionNumber := by
  obtain ⟨hmem, hgreatest⟩ := List.mem_filter.mp (mem_of_anyOf h)
  obtain ⟨hmem, hcond⟩ := List.mem_filter.mp hmem
  obtain ⟨horg, hvendor⟩ := of_decide_eq_true hcond
  refine ⟨Db.mem_banks.mp hmem, horg, hvendor, fun id b hb hborg hbvendor => ?_⟩
  have hmem : (id, b) ∈ db.banks.filter fun e =>
      e.2.organizationId = org ∧ e.2.vendorId = vendorId :=
    List.mem_filter.mpr ⟨Db.mem_banks.mpr hb, decide_eq_true ⟨hborg, hbvendor⟩⟩
  exact of_decide_eq_true (List.all_eq_true.mp hgreatest _ hmem)

/-- The highest number of a gapless history is its length. -/
theorem latest_number (hc : Log.Chain Legal db)
    (hn : bankHistory db org vendorId = List.range' 1 n) {cfg : Config} {choice : Nat}
    {latest : Option (Id × VendorBankAccountVersion)}
    (h : answer cfg choice db (.latestBank org vendorId) = some latest) :
    (latest.map (·.2.versionNumber)).getD 0 = n := by
  have hmem : ∀ m, (1 ≤ m ∧ m ≤ n) ↔ ∃ id b, Db.bank db id = some b ∧
      b.organizationId = org ∧ b.vendorId = vendorId ∧ b.versionNumber = m := by
    intro m
    rw [← mem_history_iff hc, hn, List.mem_range'_1]
    omega
  cases latest with
  | none =>
      have hempty := anyOf_none h
      show 0 = n
      by_contra hne
      obtain ⟨id, b, hrow, horg, hvendor, hnumber⟩ := (hmem n).mp ⟨by omega, le_refl n⟩
      have hgreatest : (id, b) ∈ greatest (·.2.versionNumber) (db.banks.filter fun e =>
          e.2.organizationId = org ∧ e.2.vendorId = vendorId) := by
        refine List.mem_filter.mpr ⟨List.mem_filter.mpr ⟨Db.mem_banks.mpr hrow,
          decide_eq_true ⟨horg, hvendor⟩⟩, List.all_eq_true.mpr fun c hc => ?_⟩
        obtain ⟨hc, hcond⟩ := List.mem_filter.mp hc
        obtain ⟨hcorg, hcvendor⟩ := of_decide_eq_true hcond
        have hle := (hmem c.2.versionNumber).mpr
          ⟨c.1, c.2, Db.mem_banks.mp hc, hcorg, hcvendor, rfl⟩
        have hgreater : c.2.versionNumber ≤ b.versionNumber := by omega
        exact decide_eq_true hgreater
      rw [hempty] at hgreatest
      exact absurd hgreatest List.not_mem_nil
  | some bank =>
      obtain ⟨hrow, horg, hvendor, hmax⟩ := mem_of_latestBank h
      show bank.2.versionNumber = n
      have hbound := (hmem bank.2.versionNumber).mpr ⟨bank.1, bank.2, hrow, horg, hvendor, rfl⟩
      obtain ⟨id, b, hb, hborg, hbvendor, hnumber⟩ :=
        (hmem n).mp ⟨by omega, le_refl n⟩
      have hle := hmax id b hb hborg hbvendor
      omega

end Histories

section Commit

variable {cfg : Config} {db : Db} {p : Process} {org vendorId : Id}

/-- A statement that wrote a bank-account version inserted it. -/
theorem event_bank (h : ProcOk (machine cfg) (conduct cfg) Legal db p) {e : Event Val Out}
    (he : e ∈ p.current) {id : Id} {b : VendorBankAccountVersion}
    (hmem : (⟨.bank id, b⟩ : Sigma Val) ∈ e.rows) : e.call = ⟨.write (.insertBank b), id⟩ := by
  obtain ⟨newer, older, hcur, hx⟩ := h.trace.split he
  obtain ⟨s, out, rows, base⟩ := e
  have hran : Ran cfg (writes older ++ base) s out rows := executed_ran hx
  have hkey : Key.bank id ∈ rows.keys := List.mem_map_of_mem hmem
  cases hran with
  | read choice hanswer => cases hmem
  | call choice hreply => cases reply_internal hreply hkey
  | write hwrote =>
      have htarget := hwrote.target hkey rfl
      cases hwrote with
      | insertBank k hinserted =>
          cases htarget
          have hsame := (hinserted.mem hmem).resolve_right nofun
          cases hsame
          rfl
      | _ => cases htarget

/-- One transaction inserts one bank-account version. -/
theorem inserts_once (h : ProcOk (machine cfg) (conduct cfg) Legal db p)
    (hevidence : ProcOk (machine cfg) (evidenceConduct cfg) Legal db p)
    {newer older : List (Event Val Out)} {e : Event Val Out}
    (hcur : p.current = newer ++ e :: older) {b : VendorBankAccountVersion} {id : Id}
    (he : e.call = ⟨.write (.insertBank b), id⟩) (c : VendorBankAccountVersion) (k : Id) :
    ¬ Did (older.map Event.call) (.insertBank c) k := by
  have htrace := h.trace
  rw [hcur] at htrace
  have hevidenced := hevidence.trace
  rw [hcur] at hevidenced
  obtain ⟨s, out, rows, base⟩ := e
  cases he
  obtain ⟨auth, dto, hop, -⟩ := conduct_insertBank htrace.executed.allowed
  have hbefore := hevidenced.executed.allowed
  rw [hop] at hbefore
  exact hbefore c k

/-- The new version of a bank account is the only one that its transaction commits. -/
theorem writes_one (h : ProcOk (machine cfg) (conduct cfg) Legal db p)
    (hevidence : ProcOk (machine cfg) (evidenceConduct cfg) Legal db p)
    {b : VendorBankAccountVersion} {id : Id} (hdid : Did p.calls (.insertBank b) id) :
    bankHistory p.writes org vendorId = (bankNumber org vendorId ⟨.bank id, b⟩).toList := by
  obtain ⟨newer, older, rows, base, hcur, hwrote, -⟩ := did_event h hdid
  have hnone : ∀ es : List (Event Val Out), (∀ e ∈ es, e ∈ p.current) →
      (∀ e ∈ es, ∀ c k, e.call ≠ ⟨.write (.insertBank c), k⟩) →
      bankHistory (writes es) org vendorId = [] := by
    intro es hsub hcalls
    refine bankHistory_eq_nil fun k c hmem => ?_
    obtain ⟨e, he, hrows⟩ := List.mem_flatMap.mp hmem
    exact hcalls e he c k (event_bank h (hsub e he) hrows)
  have holder : bankHistory (writes older) org vendorId = [] := by
    refine hnone older (fun e he => by simp [hcur, he]) fun e he c k hcall => ?_
    exact inserts_once h hevidence hcur rfl c k (List.mem_map.mpr ⟨e, he, hcall⟩)
  have hnewer : bankHistory (writes newer) org vendorId = [] := by
    refine hnone newer (fun e he => by simp [hcur, he]) fun e he c k hcall => ?_
    obtain ⟨front, back, rfl⟩ := List.append_of_mem he
    have hcur' : p.current =
        front ++ e :: (back ++ ⟨.write (.insertBank b), id, rows, base⟩ :: older) := by
      rw [hcur, List.append_assoc, List.cons_append]
    refine inserts_once h hevidence hcur' hcall b id ?_
    exact List.mem_map_of_mem (f := Event.call)
      (a := (⟨.write (.insertBank b), id, rows, base⟩ : Event Val Out)) (by simp)
  have hrows : bankHistory rows org vendorId = (bankNumber org vendorId ⟨.bank id, b⟩).toList := by
    cases hwrote with
    | insertBank _ hinserted =>
        rw [hinserted.rows_eq]
        unfold bankHistory
        have hunique : bankNumber org vendorId ⟨.unique (.bankVersion b.organizationId b.vendorId
          b.versionNumber), ()⟩ = none := rfl
        rw [List.map_singleton, List.reverse_cons, List.reverse_singleton, List.singleton_append,
          List.filterMap_cons, hunique]
        show List.filterMap (bankNumber org vendorId) [⟨.bank id, b⟩] = _
        rw [List.filterMap_cons]
        cases bankNumber org vendorId ⟨.bank id, b⟩ <;> rfl
  rw [Proc.writes, hcur, writes_append, writes_cons, bankHistory_append, bankHistory_append,
    holder, hnewer, hrows, List.nil_append, List.append_nil]

/-- A transaction that inserts no bank-account version adds none to a history. -/
theorem writes_none (h : ProcOk (machine cfg) (conduct cfg) Legal db p)
    (hnone : ∀ b id, ¬ Did p.calls (.insertBank b) id) : bankHistory p.writes org vendorId = [] := by
  refine bankHistory_eq_nil fun id b hmem => ?_
  obtain ⟨e, he, hrows⟩ := List.mem_flatMap.mp hmem
  exact hnone b id (List.mem_map.mpr ⟨e, he, event_bank h he hrows⟩)

/-- A new version takes the number after the last one. -/
theorem next_number (h : ProcOk (machine cfg) (conduct cfg) Legal db p)
    (hevidence : ProcOk (machine cfg) (evidenceConduct cfg) Legal db p)
    (hbases : ∀ e ∈ p.current, BankHistories e.base) (hhist : BankHistories db)
    {b : VendorBankAccountVersion} {id : Id} (hdid : Did p.calls (.insertBank b) id) {n : Nat}
    (hn : bankHistory db b.organizationId b.vendorId = List.range' 1 n) :
    b.versionNumber = n + 1 := by
  obtain ⟨newer, older, rows, base, hcur, hwrote, hbefore⟩ := did_event h hdid
  obtain ⟨auth, dto, hop, horg⟩ := conduct_insertBank hbefore
  rw [hop] at hbefore
  obtain ⟨-, -, latest, hsaw, hnumber⟩ := hbefore
  obtain ⟨between, rest, base', choice, rfl, hanswer, hsuffix⟩ := saw_before h hcur hsaw
  -- the read found the committed versions only
  have hmem : (⟨.read (.latestBank auth.organizationId b.vendorId), latest, [], base'⟩ :
      Event Val Out) ∈ p.current := by simp [hcur]
  obtain ⟨m, hm⟩ := (hbases _ hmem).numbers b.organizationId b.vendorId
  have hcur' : p.current = (newer ++ ⟨.write (.insertBank b), id, rows, base⟩ :: between) ++
      ⟨.read (.latestBank auth.organizationId b.vendorId), latest, [], base'⟩ :: rest := by
    simp [hcur]
  have hown : bankHistory (writes rest) b.organizationId b.vendorId = [] := by
    refine bankHistory_eq_nil fun k c hrow => ?_
    obtain ⟨e, he, hrows⟩ := List.mem_flatMap.mp hrow
    refine inserts_once h hevidence hcur rfl c k (List.mem_map.mpr ⟨e, by simp [he], ?_⟩)
    exact event_bank h (by simp [hcur, he]) hrows
  have hview : bankHistory (writes rest ++ base') b.organizationId b.vendorId =
      List.range' 1 m := by
    rw [bankHistory_append, hown, List.append_nil]
    exact hm
  rw [← horg] at hanswer
  have hlatest := latest_number (h.view_chain hcur') hview hanswer
  rw [hnumber, hlatest]
  -- the index has the next number still free
  have hle : m ≤ n := by
    obtain ⟨new, hnew⟩ := h.bases hmem
    have happend : bankHistory (new ++ base') b.organizationId b.vendorId =
        bankHistory base' b.organizationId b.vendorId ++
          bankHistory new b.organizationId b.vendorId := bankHistory_append
    have hlength := congrArg List.length happend
    rw [hnew, hn, hm, List.length_append, List.length_range', List.length_range'] at hlength
    omega
  by_contra hne
  have hmember : m + 1 ∈ bankHistory db b.organizationId b.vendorId := by
    rw [hn, List.mem_range'_1]
    omega
  have hdb : Log.Chain Legal db := h.view.of_append
  obtain ⟨k, c, hc, hcorg, hcvendor, hcnumber⟩ := (mem_history_iff hdb).mp hmember
  have hindex := hhist.indexed k c hc
  have hsame : bankIndex c = bankIndex b := by
    rw [bankIndex, bankIndex, hcorg, hcvendor, hcnumber, hnumber, hlatest]
  rw [hsame] at hindex
  cases hwrote with
  | insertBank _ hinserted =>
      have hkey : bankIndex b ∈ rows.keys := by
        rw [hinserted.rows_eq]
        exact List.mem_cons_of_mem _ List.mem_cons_self
      have hfree : bankIndex b ∉ base.keys := by
        intro hin
        refine hinserted.unique _ (List.mem_singleton.mpr rfl) ?_
        rw [Log.keys_append]
        exact List.mem_append_right _ hin
      have hheld := h.held (e := ⟨.write (.insertBank b), id, rows, base⟩) (mem_of_event hcur) hkey
      rw [Log.row_eq_none.mpr hfree] at hheld
      exact absurd hindex (Log.row_eq_none.mp hheld.symm)

/-- What a commit adds to the history of a vendor: nothing, or the next number. -/
theorem commit_history (h : ProcOk (machine cfg) (conduct cfg) Legal db p)
    (hevidence : ProcOk (machine cfg) (evidenceConduct cfg) Legal db p)
    (hbases : ∀ e ∈ p.current, BankHistories e.base) (hhist : BankHistories db) {n : Nat}
    (hn : bankHistory db org vendorId = List.range' 1 n) :
    bankHistory (p.writes ++ db) org vendorId = List.range' 1 n ∨
      bankHistory (p.writes ++ db) org vendorId = List.range' 1 (n + 1) := by
  rw [bankHistory_append, hn]
  by_cases hdid : ∃ b id, Did p.calls (.insertBank b) id
  · obtain ⟨b, id, hdid⟩ := hdid
    rw [writes_one h hevidence hdid]
    by_cases hvendor : b.organizationId = org ∧ b.vendorId = vendorId
    · right
      obtain ⟨rfl, rfl⟩ := hvendor
      rw [bankNumber_bank rfl rfl, next_number h hevidence hbases hhist hdid hn,
        List.range'_concat]
      simp [Nat.add_comm]
    · left
      have hother : bankNumber org vendorId ⟨.bank id, b⟩ = none := if_neg hvendor
      rw [hother]
      simp
  · left
    have hnone : ∀ b id, ¬ Did p.calls (.insertBank b) id :=
      fun b id hd => hdid ⟨b, id, hd⟩
    rw [writes_none h hnone, List.append_nil]

theorem BankHistories.commit (h : ProcOk (machine cfg) (conduct cfg) Legal db p)
    (hevidence : ProcOk (machine cfg) (evidenceConduct cfg) Legal db p)
    (hbases : ∀ e ∈ p.current, BankHistories e.base) (hhist : BankHistories db) :
    BankHistories (p.writes ++ db) where
  numbers org vendorId := by
    obtain ⟨n, hn⟩ := hhist.numbers org vendorId
    rcases commit_history h hevidence hbases hhist hn with hsame | hnext
    · exact ⟨n, hsame⟩
    · exact ⟨n + 1, hnext⟩
  indexed id b hb := by
    rcases commit_bank h hb with hold | hdid
    · exact Log.keys_subset_of_suffix (List.suffix_append _ _) (hhist.indexed id b hold)
    · obtain ⟨newer, older, rows, base, hcur, hwrote, -⟩ := did_event h hdid
      cases hwrote with
      | insertBank _ hinserted =>
          have hkey : bankIndex b ∈ rows.keys := by
            rw [hinserted.rows_eq]
            exact List.mem_cons_of_mem _ List.mem_cons_self
          rw [Log.keys_append]
          exact List.mem_append_left _ (written_key hcur hkey)

theorem BankHistories.outside {rows : Db} (hext : (machine cfg).external db rows)
    (hhist : BankHistories db) : BankHistories (rows ++ db) where
  numbers org vendorId := by
    have hnone : bankHistory rows org vendorId = [] := by
      refine bankHistory_eq_nil fun id b hmem => ?_
      have hout := hext.1 _ hmem
      cases hout
    obtain ⟨n, hn⟩ := hhist.numbers org vendorId
    exact ⟨n, by rw [bankHistory_append, hnone, List.append_nil, hn]⟩
  indexed id b hb := by
    have hrow : Db.bank (rows ++ db) id = Db.bank db id := external_row hext rfl
    exact Log.keys_subset_of_suffix (List.suffix_append _ _) (hhist.indexed id b (hrow ▸ hb))

end Commit

section Runs

variable {cfg : Config} {ok : System → SystemAction → Prop} {s₀ s s' : System}

theorem bankHistories_always (h₀ : Idle Legal s₀) (hhist : BankHistories s₀.db)
    (h : Run (machine cfg) ok s₀ s) : BankHistories s.db ∧
      ∀ (i : Nat) p, s.procs[i]? = some p → ∀ e ∈ p.current, BankHistories e.base := by
  refine h.always h₀.procs hhist (fun u i p next hrun hp _ hinv hbases => ?_)
    fun u rows _ hext hinv => hinv.outside hext
  have hcons := Run.consistent (discipline cfg) h₀.consistent hrun
  have hevidence := Run.consistent (evidence cfg) h₀.consistent hrun
  exact hinv.commit (hcons.proc i p hp) (hevidence.proc i p hp) hbases

/-- A step leaves a history as it is or adds the next number to it. -/
theorem history_step (h₀ : Idle Legal s₀) (hhist : BankHistories s₀.db)
    (h : Run (machine cfg) ok s₀ s) {a : SystemAction} (hs : Step (machine cfg) s a s')
    (org vendorId : Id) : ∃ n, bankHistory s.db org vendorId = List.range' 1 n ∧
      (bankHistory s'.db org vendorId = List.range' 1 n ∨
        bankHistory s'.db org vendorId = List.range' 1 (n + 1)) := by
  obtain ⟨hinv, hbases⟩ := bankHistories_always h₀ hhist h
  obtain ⟨n, hn⟩ := hinv.numbers org vendorId
  refine ⟨n, hn, ?_⟩
  cases hs.effect with
  | quiet hdb hprocs =>
      rw [hdb]
      exact .inl hn
  | answered i c p q next out rows hp hq hrun => exact .inl hn
  | committed i c p next hp hq =>
      have hcons := Run.consistent (discipline cfg) h₀.consistent h
      have hevidence := Run.consistent (evidence cfg) h₀.consistent h
      exact commit_history (hcons.proc i p hp) (hevidence.proc i p hp) (hbases i p hp) hinv hn
  | outside rows hext =>
      left
      have hnone : bankHistory rows org vendorId = [] := by
        refine bankHistory_eq_nil fun id b hmem => ?_
        have hout := hext.1 _ hmem
        cases hout
      rw [bankHistory_append, hnone, List.append_nil, hn]

end Runs

/-- The stored contributions name the change of the bank account. -/
def RiskAssessment.ReportsChange (a : RiskAssessment) : Prop :=
  ∃ c ∈ a.evaluation.contributions, c.rule = .vendorBankAccountChanged

instance (a : RiskAssessment) : Decidable a.ReportsChange := inferInstanceAs
  (Decidable (∃ c ∈ a.evaluation.contributions, c.rule = .vendorBankAccountChanged))

section Signal

variable {cfg : Config} {db : Db} {p : Process} {s s' : System} {a : RiskAssessment}

/-- The rule on bank accounts alone reports a change, and only past the first version. -/
theorem evaluation_reports {invoiceId : Text} {facts : InvoiceRiskFacts}
    {policy : RiskPolicySnapshot} {sha256 : Bytes → Digest}
    {localeCompare : Text → Text → Ordering} :
    (∃ c ∈ (evaluateInvoiceRisk invoiceId facts policy sha256 localeCompare).contributions,
      c.rule = .vendorBankAccountChanged) ↔ 1 < facts.bankAccountVersion.getD 0 := by
  have hother : ∀ c ∈ documentRule invoiceId facts policy ++ invoiceNumberRule invoiceId facts policy
      ++ contractRule invoiceId facts policy ++ amountRule invoiceId facts policy,
      c.rule ≠ .vendorBankAccountChanged := by
    intro c hc
    simp only [List.mem_append] at hc
    rcases hc with ((hc | hc) | hc) | hc
    · unfold documentRule at hc
      split at hc
      · simp only [List.mem_singleton] at hc
        simp [hc]
      · cases hc
    · unfold invoiceNumberRule at hc
      split at hc
      · simp only [List.mem_singleton] at hc
        simp [hc]
      · cases hc
    · unfold contractRule at hc
      split at hc
      · split at hc
        · simp only [List.mem_singleton] at hc
          simp [hc]
        · cases hc
      · cases hc
    · unfold amountRule at hc
      split at hc
      · split at hc
        · simp only [List.mem_singleton] at hc
          simp [hc]
        · cases hc
      · cases hc
  simp only [evaluateInvoiceRisk, List.append_assoc, List.mem_append] at hother ⊢
  constructor
  · rintro ⟨c, hc | hc, hrule⟩
    · unfold bankRule at hc
      by_contra hle
      rw [if_neg hle] at hc
      cases hc
    · exact absurd hrule (hother c hc)
  · intro hlt
    have hreported : bankRule invoiceId facts policy = [⟨.vendorBankAccountChanged, _, _, _⟩] :=
      if_pos hlt
    rw [hreported]
    exact ⟨_, .inl List.mem_cons_self, rfl⟩

/-- The read of the latest bank account that an assessment of the open transaction rests on. -/
structure AssessedOn (p : Process) (a : RiskAssessment) (auth : AuthContext) (vendorId : Id)
    (e : Event Val Out) : Prop where
  op : ∃ dto key, p.op = .submit auth a.invoiceId dto key
  organization : a.organizationId = auth.organizationId
  invoice : ∃ v, Saw p.calls (.findInvoice auth.organizationId a.invoiceId) (some v) ∧
    v.vendorId = some vendorId
  event : e ∈ p.current
  read : ∃ bank, e.call = ⟨.read (.latestBank auth.organizationId vendorId), some bank⟩
  reports : a.ReportsChange ↔ 2 ≤ (bankHistory e.base auth.organizationId vendorId).length

/-- An assessment reports a change when the read of the latest account found a second version. -/
theorem assessed_on (h : ProcOk (machine cfg) (conduct cfg) Legal db p)
    (hevidence : ProcOk (machine cfg) (evidenceConduct cfg) Legal db p)
    (hbases : ∀ e ∈ p.current, BankHistories e.base) {id : Id}
    (hdid : Did p.calls (.insertRisk a) id) : ∃ auth vendorId e, AssessedOn p a auth vendorId e := by
  obtain ⟨newer, older, rows, base, hcur, -, hbefore⟩ := did_event h hdid
  obtain ⟨newer', older', rows', base', hcur', -, hcomputed⟩ := did_event hevidence hdid
  cases hop : p.op with
  | submit auth i dto key =>
      rw [hop] at hcomputed
      obtain ⟨v, vendorId, bank, policy, hc⟩ := hcomputed
      obtain ⟨between, rest, base'', choice, rfl, hanswer, -⟩ := saw_before h hcur' hc.latest
      have hinvoice := calls_subset_of_event hcur' hc.invoice
      obtain ⟨e, he⟩ : ∃ e : Event Val Out,
          e = ⟨.read (.latestBank auth.organizationId vendorId), some bank, [], base''⟩ := ⟨_, rfl⟩
      rw [← he] at hcur'
      have hmem : e ∈ p.current := by
        rw [hcur']
        simp
      have hsplit : p.current =
          (newer' ++ ⟨.write (.insertRisk a), id, rows', base'⟩ :: between) ++ e :: rest := by
        rw [hcur', List.append_assoc, List.cons_append]
      -- a submission writes no bank account
      have hown : bankHistory (writes rest) auth.organizationId vendorId = [] := by
        refine bankHistory_eq_nil fun k c hrow => ?_
        obtain ⟨e', he', hrows⟩ := List.mem_flatMap.mp hrow
        have hin : e' ∈ p.current := by
          rw [hsplit]
          exact List.mem_append_right _ (List.mem_cons_of_mem _ he')
        have hins : Did p.calls (.insertBank c) k :=
          List.mem_map.mpr ⟨e', hin, event_bank h hin hrows⟩
        obtain ⟨_, _, _, _, -, -, hallowed⟩ := did_event h hins
        obtain ⟨_, _, hop', -⟩ := conduct_insertBank hallowed
        rw [hop] at hop'
        cases hop'
      obtain ⟨n, hn⟩ := (hbases e hmem).numbers auth.organizationId vendorId
      have hview : bankHistory (writes rest ++ base'') auth.organizationId vendorId =
          List.range' 1 n := by
        have hbase : e.base = base'' := by rw [he]
        rw [bankHistory_append, hown, List.append_nil, ← hbase]
        exact hn
      have hnumber := latest_number (by have := h.view_chain hsplit; rw [he] at this; exact this)
        hview hanswer
      refine ⟨auth, vendorId, e, ⟨dto, key, ?_⟩, hc.organization, ⟨v, ?_, hc.vendor⟩, hmem,
        ⟨bank, ?_⟩, ?_⟩
      · rw [hc.subject]
        exact hop
      · rw [hc.subject]
        exact hinvoice
      · rw [he]
        rfl
      · unfold RiskAssessment.ReportsChange
        rw [hc.evaluation, evaluation_reports, hc.account, hn, List.length_range']
        have hsame : bank.2.versionNumber = n := hnumber
        show 1 < bank.2.versionNumber ↔ 2 ≤ n
        omega
  | _ =>
      rw [hop] at hbefore
      exact hbefore.elim

end Signal

/-- The bank-account versions of a vendor are numbered in the order of their commits and never
change, and an assessment reports a change exactly past the first of them. -/
theorem bank_history (cfg : Config) {ok : System → SystemAction → Prop} {s₀ s : System}
    (h₀ : Idle Legal s₀) (hhist : BankHistories s₀.db) (h : Run (machine cfg) ok s₀ s) :
    (∀ org vendorId, ∃ n, bankHistory s.db org vendorId = List.range' 1 n) ∧
    (∀ a s', Step (machine cfg) s a s' → ∀ org vendorId, ∃ n,
      bankHistory s.db org vendorId = List.range' 1 n ∧
        (bankHistory s'.db org vendorId = List.range' 1 n ∨
          bankHistory s'.db org vendorId = List.range' 1 (n + 1))) ∧
    (∀ t, Run (machine cfg) ok s t → ∀ id b, Db.bank s.db id = some b → Db.bank t.db id = some b) ∧
    ∀ a s', Step (machine cfg) s a s' → ∀ id r, Db.risk s'.db id = some r →
      Db.risk s.db id = none → ∃ (i : Nat) (p : Process) (auth : AuthContext) (vendorId : Id)
        (e : Event Val Out) (t : System), s.procs[i]? = some p ∧ AssessedOn p r auth vendorId e ∧
          Run (machine cfg) ok s₀ t ∧ t.db = e.base ∧ Run (machine cfg) ok t s := by
  refine ⟨(bankHistories_always h₀ hhist h).1.numbers,
    fun a s' hs => history_step h₀ hhist h hs, fun t ht id b hb => ?_, fun a s' hs id r hr hnone => ?_⟩
  · have hchain := (Run.consistent (discipline cfg) h₀.consistent (h.trans ht)).chain
    exact bank_later hchain ht.suffix hb
  · have hfresh : Db.risk s.db id ≠ some r := by
      rw [hnone]
      exact nofun
    cases hs.effect with
    | quiet hdb hprocs => exact absurd (hdb ▸ hr) hfresh
    | answered i c p q next out rows hp hq hrun => exact absurd hr hfresh
    | committed i c p next hp hq =>
        have hproc := (Run.consistent (discipline cfg) h₀.consistent h).proc i p hp
        have hevidence := (Run.consistent (evidence cfg) h₀.consistent h).proc i p hp
        have hdid := (commit_risk hproc hr).resolve_left hfresh
        obtain ⟨auth, vendorId, e, hon⟩ :=
          assessed_on hproc hevidence ((bankHistories_always h₀ hhist h).2 i p hp) hdid
        obtain ⟨t, ht, hdb, hts⟩ := h.exists_base h₀.procs hp hon.event
        exact ⟨i, p, auth, vendorId, e, t, hp, hon, ht, hdb, hts⟩
    | outside rows hext =>
        have hrow : Db.risk (rows ++ s.db) id = Db.risk s.db id := external_row hext rfl
        exact absurd (hrow ▸ hr) hfresh

section Sample

theorem sampleStart_bankHistories : BankHistories sampleStart.db where
  numbers org vendorId := by
    by_cases hboth : sampleBank.organizationId = org ∧ sampleBank.vendorId = vendorId
    · refine ⟨1, ?_⟩
      obtain ⟨rfl, rfl⟩ := hboth
      decide
    · refine ⟨0, ?_⟩
      simpa [bankHistory, sampleStart, sampleDb, bankNumber] using hboth
  indexed id b hb := by
    obtain ⟨rfl, rfl⟩ := sampleStart_bank hb
    decide

/-- A second version of the sample vendor's account, and a submission after it. -/
def submittedAfterChange : List SystemAction :=
  .start (.addBankVersion (sampleAuth 1) 1 ⟨[], none, [], []⟩) :: execs 0 [0, 0, 2, 0, 0, 21, 0] ++
    .start (.submit (sampleAuth 1) 1 ⟨1⟩ (sampleKey 'a')) :: submission 1

/-- The commit of the submission reports the change, and has read both versions. -/
theorem bank_history_sample : ∃ (s s' : System) (r : RiskAssessment) (p : Process)
    (auth : AuthContext) (vendorId : Id) (e : Event Val Out),
    Step (machine sampleConfig) s (.exec 1 0) s' ∧ bankHistory s.db 1 1 = List.range' 1 2 ∧
      (∃ n, bankHistory s.db 1 1 = List.range' 1 n) ∧ Db.risk s'.db 1 = some r ∧
      r.ReportsChange ∧ AssessedOn p r auth vendorId e ∧
      2 ≤ (bankHistory e.base auth.organizationId vendorId).length := by
  obtain ⟨s, s', hrun, -, hstep, hcheck⟩ := exists_step (M := machine sampleConfig)
    (s := sampleStart) submittedAfterChange.dropLast (.exec 1 0)
    (fun s s' => bankHistory s.db 1 1 = List.range' 1 2 ∧ (Db.risk s.db 1).isNone ∧
      (Db.risk s'.db 1).any fun r => r.ReportsChange) permitted_always (by decide +kernel)
  obtain ⟨hnumbers, hnew, hcheck⟩ := of_decide_eq_true hcheck
  obtain ⟨r, hr, hcheck⟩ := (Option.any_eq_true _ _).mp hcheck
  have hreports : r.ReportsChange := of_decide_eq_true hcheck
  obtain ⟨hhistory, -, -, hassessed⟩ :=
    bank_history sampleConfig sampleStart_idle sampleStart_bankHistories hrun
  obtain ⟨i, p, auth, vendorId, e, t, -, hon, -⟩ :=
    hassessed _ _ hstep 1 r hr (Option.isNone_iff_eq_none.mp hnew)
  exact ⟨s, s', r, p, auth, vendorId, e, hstep, hnumbers, hhistory 1 1, hr, hreports, hon,
    hon.reports.mp hreports⟩

end Sample
end BlocTrust
