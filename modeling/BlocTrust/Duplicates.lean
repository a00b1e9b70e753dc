import BlocTrust.Rooted
import BlocTrust.MalwareGate

/-!
Documents with one fingerprint.
A worker looks for an earlier document under an advisory lock on the fingerprint and keeps the
lock until it has committed, so that it sees every document that has the fingerprint.  The
fingerprint of a document is never replaced, as nobody draws an object key twice.
-/
namespace BlocTrust

open ReadCommitted

/-- The document has the fingerprint. -/
def Fingerprinted (db : Db) (org : Id) (sha : Digest) (id : Id) : Prop :=
  ∃ d, Db.document db id = some d ∧ d.organizationId = org ∧ d.sha256 = some sha

/-- A fingerprint appears together with the lock on it. -/
def Tallied (older newer : Db) : Prop :=
  older <:+ newer ∧ ∀ org sha id, Fingerprinted newer org sha id →
    Fingerprinted older org sha id ∨
      ∃ rest, newer = rest ++ older ∧ Key.advisory org sha ∈ rest.keys

theorem Tallied.refl (db : Db) : Tallied db db := ⟨List.suffix_refl _, fun _ _ _ h => .inl h⟩

theorem Tallied.trans {a b c : Db} (h : Tallied a b) (h' : Tallied b c) : Tallied a c := by
  obtain ⟨hsuffix, hold⟩ := h
  obtain ⟨hsuffix', hnew⟩ := h'
  refine ⟨hsuffix.trans hsuffix', fun org sha id hc => ?_⟩
  obtain ⟨first, hfirst⟩ := hsuffix
  rcases hnew org sha id hc with hb | ⟨rest, rfl, hkey⟩
  · rcases hold org sha id hb with ha | ⟨rest', rfl, hkey⟩
    · exact .inl ha
    · obtain ⟨second, rfl⟩ := hsuffix'
      refine .inr ⟨second ++ rest', by rw [List.append_assoc], ?_⟩
      rw [Log.keys_append]
      exact List.mem_append_right _ hkey
  · refine .inr ⟨rest ++ first, by rw [List.append_assoc, hfirst], ?_⟩
    rw [Log.keys_append]
    exact List.mem_append_left _ hkey

def tally : Account Val Out Op where
  rel := Tallied

section Commit

variable {cfg : Config} {db : Db} {p : Process} {i j org : Id} {sha : Digest} {d d' : Document}

/-- The advisory lock on a fingerprint is held from the lookup of its documents on. -/
theorem locked_advisory (h : ProcOk (machine cfg) (conduct cfg) Legal db p)
    {new older : List (Event Val Out)} (hcur : p.current = new ++ older)
    (hd : Did (older.map Event.call) (.advisoryLock org sha) ()) :
    Key.advisory org sha ∈ (writes older).keys := by
  obtain ⟨view, rows, hwrote, hkeys⟩ := did_rows h hcur hd
  cases hwrote with
  | advisoryLock => exact hkeys _ List.mem_cons_self

/-- A document gets a fingerprint by its promotion. -/
theorem commit_fingerprint (h : ProcOk (machine cfg) (conduct cfg) Legal db p)
    (hnew : Fingerprinted (p.writes ++ db) org sha i) : Fingerprinted db org sha i ∨
      ∃ key duplicate d d', ChangesDocument cfg db p i (.promoted org key sha duplicate) d d' ∧
        Db.document (p.writes ++ db) i = some d' := by
  obtain ⟨d', hd', horg, hsha⟩ := hnew
  rcases commit_document h hd' with ⟨-, hold⟩ | hins | ⟨c, d, hch⟩
  · exact .inl ⟨d', hold, horg, hsha⟩
  · rw [hins.quarantined.2.2.1] at hsha
    cases hsha
  · have hresult := hch.result
    cases c with
    | promoted org' key sha' duplicate =>
        have horg' : d.organizationId = org' := of_decide_eq_true hch.applies
        rw [hresult] at horg hsha
        have hsame : sha' = sha := Option.some.inj hsha
        have hsame' : org' = org := horg'.symm.trans horg
        subst hsame hsame'
        exact .inr ⟨key, duplicate, d, d', hch, hd'⟩
    | blocked org' =>
        rw [hresult] at horg hsha
        exact .inl ⟨d, hch.committed, horg, hsha⟩

theorem Tallied.commit (h : ProcOk (machine cfg) (conduct cfg) Legal db p) :
    Tallied db (p.writes ++ db) := by
  refine ⟨List.suffix_append _ _, fun org sha id hnew => ?_⟩
  rcases commit_fingerprint h hnew with hold | ⟨key, duplicate, d, d', hch, -⟩
  · exact .inl hold
  · obtain ⟨newer, older, rows, base, hcur, -, hbefore⟩ := hch.event
    obtain ⟨job, final, hop, -⟩ := hch.op
    rw [hop] at hbefore
    obtain ⟨-, -, -, -, hlock, -⟩ := hbefore
    have hcur' : p.current = (newer ++ [⟨.write (.updateDocument id
        (.promoted org key sha duplicate)), (1 : Nat), rows, base⟩]) ++ older := by simp [hcur]
    have hkey := locked_advisory h hcur' hlock
    refine .inr ⟨p.writes, rfl, ?_⟩
    rw [Proc.writes, hcur', writes_append, Log.keys_append]
    exact List.mem_append_right _ hkey

theorem Tallied.outside {rows : Db} (hext : (machine cfg).external db rows) :
    Tallied db (rows ++ db) := by
  refine ⟨List.suffix_append _ _, fun org sha id hnew => .inl ?_⟩
  obtain ⟨d, hd, hrest⟩ := hnew
  have hrow : Db.document (rows ++ db) id = Db.document db id := external_row hext rfl
  exact ⟨d, hrow.symm.trans hd, hrest⟩

theorem tally_sound {ok : System → SystemAction → Prop} {s₀ : System} :
    tally.Sound (machine cfg) (conduct cfg) Legal ok s₀ where
  refl := Tallied.refl
  trans _ _ _ := Tallied.trans
  keep _ _ _ _ _ _ _ _ := trivial
  commit _ _ _ _ _ _ _ hok _ _ := ⟨trivial, .commit hok, fun _ _ => trivial⟩
  external _ _ _ hext _ := ⟨trivial, .outside hext⟩

/-- A worker writes no document but that of its job. -/
theorem only_own_document (h : ProcOk (machine cfg) (conduct cfg) Legal db p)
    {job : InvoiceIngestJob} {final : Bool} (hop : p.op = .process job final)
    (hk : Key.document j ∈ p.writes.keys) : j = job.documentId := by
  obtain ⟨d, hd⟩ := Log.exists_row_of_mem_keys hk
  obtain ⟨newer, older, u, out, rows, base, -, -, htarget, -, hbefore, -⟩ := written_update h hd rfl
  cases u with
  | insertDocument id d' =>
      obtain ⟨-, _, _, _, _, hop', -⟩ := conduct_insertDocument hbefore
      rw [hop] at hop'
      cases hop'
  | updateDocument id c =>
      obtain ⟨⟨job', final', hop', hid⟩, -⟩ := conduct_updateDocument hbefore
      rw [hop] at hop'
      cases hop'
      cases htarget
      exact hid
  | _ => cases htarget

theorem Fingerprinted.later {older newer : Db} (hc : Log.Chain Legal newer) (hs : older <:+ newer)
    (h : Fingerprinted older org sha i) : Fingerprinted newer org sha i := by
  obtain ⟨d, hd, horg, hsha⟩ := h
  obtain ⟨d', hd', hlater⟩ := document_later hc hs hd
  exact ⟨d', hd', hlater.organizationId.trans horg,
    (hlater.sha256 (by rw [hsha]; exact nofun)).trans hsha⟩

theorem exists_least {α : Type} (key : α → Nat) {as : List α} (h : as ≠ []) :
    ∃ a ∈ as, ∀ b ∈ as, key a ≤ key b := by
  induction as with
  | nil => exact absurd rfl h
  | cons a as ih =>
      by_cases hnil : as = []
      · refine ⟨a, List.mem_cons_self, fun b hb => ?_⟩
        rw [hnil] at hb
        rw [List.mem_singleton.mp hb]
      · obtain ⟨c, hc, hleast⟩ := ih hnil
        by_cases hle : key a ≤ key c
        · refine ⟨a, List.mem_cons_self, fun b hb => ?_⟩
          rcases List.mem_cons.mp hb with rfl | hb
          · exact Nat.le_refl _
          · exact hle.trans (hleast b hb)
        · refine ⟨c, List.mem_cons_of_mem _ hc, fun b hb => ?_⟩
          rcases List.mem_cons.mp hb with rfl | hb
          · omega
          · exact hleast b hb

/-- The lookup finds nothing only where there is nothing to find. -/
theorem anyOf_least {α : Type} {key : α → Nat} {choice : Nat} {as : List α} {found : Option α}
    (h : anyOf choice (least key as) = some found) :
    (found = none → as = []) ∧ ∀ a, found = some a → a ∈ as := by
  constructor
  · rintro rfl
    by_contra hne
    obtain ⟨a, ha, hleast⟩ := exists_least key hne
    have hmem : a ∈ least key as :=
      List.mem_filter.mpr ⟨ha, List.all_eq_true.mpr fun b hb => decide_eq_true (hleast b hb)⟩
    unfold anyOf at h
    split at h
    · rename_i hempty
      rw [List.isEmpty_iff.mp hempty] at hmem
      exact List.not_mem_nil hmem
    · obtain ⟨b, -, heq⟩ := Option.map_eq_some_iff.mp h
      cases heq
  · rintro a rfl
    exact List.mem_of_mem_filter (mem_of_anyOf h)

/-- A promotion knows all documents with its fingerprint. -/
theorem promoted_lookup (h : ProcOk (machine cfg) (conduct cfg) Legal db p)
    (hobs : tally.Observed db p) {key : Id} {duplicate : Option Id}
    (hch : ChangesDocument cfg db p i (.promoted org key sha duplicate) d d') :
    (duplicate = none → ∀ j, j ≠ i → ¬ Fingerprinted db org sha j) ∧
      ∀ j, duplicate = some j → j ≠ i ∧ Fingerprinted db org sha j := by
  obtain ⟨newer, older, rows, base, hcur, -, hbefore⟩ := hch.event
  obtain ⟨job, final, hop, hi⟩ := hch.op
  rw [hop] at hbefore
  obtain ⟨-, -, -, -, -, hsaw, -⟩ := hbefore
  obtain ⟨between, rest, early, choice, rfl, hanswer, -⟩ := saw_before h hcur hsaw
  have hcur' : p.current = (newer ++ ⟨.write (.updateDocument i (.promoted org key sha duplicate)),
      (1 : Nat), rows, base⟩ :: between) ++ ⟨.read (.findDuplicate org sha job.documentId),
        duplicate, [], early⟩ :: rest := by simp [hcur]
  -- the lock was taken before the lookup and is still held
  have htrace := h.trace
  rw [hcur'] at htrace
  have hallowed := htrace.executed.allowed
  rw [hop] at hallowed
  obtain ⟨-, -, hlock⟩ := hallowed
  have hrest : p.current = (newer ++ ⟨.write (.updateDocument i (.promoted org key sha duplicate)),
      (1 : Nat), rows, base⟩ :: between ++ [⟨.read (.findDuplicate org sha job.documentId),
        duplicate, [], early⟩]) ++ rest := by simp [hcur]
  obtain ⟨e', he', hkey⟩ := mem_keys_writes.mp (locked_advisory h hrest hlock)
  obtain ⟨since, hdb, hfree⟩ := h.locked_since hcur' he' hkey
  obtain ⟨hsuffix, htally⟩ := hobs.rel _ (mem_of_event hcur')
  have hknown : ∀ j, Fingerprinted db org sha j → Fingerprinted early org sha j := by
    intro j hj
    rcases htally org sha j hj with hearly | ⟨rest', hdb', hmem⟩
    · exact hearly
    · have hsame : rest' = since := List.append_cancel_right (hdb'.symm.trans hdb)
      exact absurd (hsame ▸ hmem) hfree
  -- other documents are seen as they were committed
  have hview : ∀ j, j ≠ i → Db.document (writes rest ++ early) j = Db.document early j := by
    intro j hj
    refine Log.row_append_of_not_mem _ fun hmem => hj ?_
    rw [hi]
    refine only_own_document h hop ?_
    rw [Proc.writes, hcur', writes_append, writes_cons, Log.keys_append, Log.keys_append]
    exact List.mem_append_right _ (List.mem_append_right _ hmem)
  obtain ⟨found, hfound, hduplicate⟩ := Option.map_eq_some_iff.mp hanswer
  obtain ⟨hnone, hsome⟩ := anyOf_least hfound
  constructor
  · intro hempty j hj hprint
    obtain ⟨x, hx, horg, hsha⟩ := hknown j hprint
    have hcandidates := hnone (by
      rw [hempty] at hduplicate
      exact Option.map_eq_none_iff.mp hduplicate)
    have hmem : (j, x) ∈ (Db.documents (writes rest ++ early)).filter fun e =>
        e.2.organizationId = org ∧ e.2.sha256 = some sha ∧ e.1 ≠ job.documentId :=
      List.mem_filter.mpr ⟨Db.mem_documents.mpr ((hview j hj).trans hx),
        decide_eq_true ⟨horg, hsha, hi ▸ hj⟩⟩
    rw [hcandidates] at hmem
    exact List.not_mem_nil hmem
  · intro j hj
    rw [hj] at hduplicate
    obtain ⟨⟨j', x⟩, rfl, rfl⟩ := Option.map_eq_some_iff.mp hduplicate
    obtain ⟨hmem, hcond⟩ := List.mem_filter.mp (hsome _ rfl)
    obtain ⟨horg, hsha, hne⟩ := of_decide_eq_true hcond
    have hne : j' ≠ i := hi ▸ hne
    have hx : Db.document early j' = some x := (hview j' hne).symm.trans (Db.mem_documents.mp hmem)
    have hearly : Fingerprinted early org sha j' := ⟨x, hx, horg, hsha⟩
    exact ⟨hne, hearly.later h.view.of_append hsuffix⟩

/-- A drawn key is new, and it stays locked until the commit. -/
theorem drawn_fresh (h : ProcOk (machine cfg) (conduct cfg) Legal db p) {key : Id}
    (hcalled : Called p.calls .randomObjectKey key) :
    Key.drawn key ∉ db.keys ∧ Key.drawn key ∈ p.writes.keys := by
  obtain ⟨e, he, hcall⟩ := List.mem_map.mp hcalled
  obtain ⟨newer, older, hcur, hx⟩ := h.trace.split he
  have hran := executed_ran hx
  obtain ⟨s, out, rows, base⟩ := e
  cases hcall
  cases hran with
  | call choice hreply =>
      simp only [reply] at hreply
      split at hreply
      · cases hreply
      · rename_i hnew
        cases hreply
        have hheld := h.held he (k := .drawn out) List.mem_cons_self
        refine ⟨?_, mem_keys_writes.mpr ⟨_, he, List.mem_cons_self⟩⟩
        rw [← Log.row_eq_none, ← hheld, Log.row_eq_none]
        intro hmem
        refine hnew ?_
        rw [Log.keys_append]
        exact List.mem_append_right _ hmem

end Commit

/-- Object keys belong to the attempt that drew them, and so do the documents promoted under
them. -/
structure KeysOwned (s : System) : Prop where
  drawn : ∀ (i : Nat) p key, s.procs[i]? = some p → Called p.past .randomObjectKey key →
    Key.drawn key ∈ s.db.keys
  single : ∀ (i j : Nat) p q key, s.procs[i]? = some p → s.procs[j]? = some q →
    Called p.past .randomObjectKey key → Called q.past .randomObjectKey key → i = j
  promoted : ∀ id d key, Db.document s.db id = some d → d.approvedObjectKey = some key →
    ∃ (i : Nat) (p : Process) (org : Id) (sha : Digest) (duplicate : Option Id) (n : Nat),
      s.procs[i]? = some p ∧ Called p.past .randomObjectKey key ∧
        Did p.past (.updateDocument id (.promoted org key sha duplicate)) n

section Runs

variable {cfg : Config} {ok : System → SystemAction → Prop} {s₀ s s' : System}

theorem KeysOwned.start (h₀ : Idle Legal s₀) (huploaded : Uploaded s₀.db) : KeysOwned s₀ where
  drawn i p key hp := by simp [h₀.procs] at hp
  single i j p q key hp := by simp [h₀.procs] at hp
  promoted id d key hd hkey := by
    rw [(huploaded.quarantined id d hd).2.1] at hkey
    cases hkey

/-- The owners of the documents that a step does not promote. -/
theorem KeysOwned.kept (hinv : KeysOwned s) {a : SystemAction} (hs : Step (machine cfg) s a s')
    {id : Id} {d : Document} {key : Id} (hd : Db.document s.db id = some d)
    (hkey : d.approvedObjectKey = some key) :
    ∃ (i : Nat) (p : Process) (org : Id) (sha : Digest) (duplicate : Option Id) (n : Nat),
      s'.procs[i]? = some p ∧ Called p.past .randomObjectKey key ∧
        Did p.past (.updateDocument id (.promoted org key sha duplicate)) n := by
  obtain ⟨i, p, org, sha, duplicate, n, hp, hcalled, hdid⟩ := hinv.promoted id d key hd hkey
  obtain ⟨p', hp', -, hpast⟩ := hs.past_subset hp
  exact ⟨i, p', org, sha, duplicate, n, hp', hpast hcalled, hpast hdid⟩

theorem KeysOwned.step (hcons : Consistent (machine cfg) (conduct cfg) Legal s)
    (hinv : KeysOwned s) {a : SystemAction} (hs : Step (machine cfg) s a s') : KeysOwned s' := by
  cases hs.effect with
  | quiet hdb hprocs =>
      have hpast : ∀ (j : Nat) p' key, s'.procs[j]? = some p' →
          Called p'.past .randomObjectKey key →
          ∃ p, s.procs[j]? = some p ∧ Called p.past .randomObjectKey key := by
        intro j p' key hj hcalled
        rcases hprocs j p' hj with hold | ⟨-, ⟨op, -, rfl⟩ | ⟨p, hp, -, hpast⟩⟩
        · exact ⟨p', hold, hcalled⟩
        · exact absurd hcalled List.not_mem_nil
        · exact ⟨p, hp, hpast ▸ hcalled⟩
      refine ⟨fun i p key hp hcalled => ?_, fun i j p q key hp hq hcalled hcalled' => ?_,
        fun id d key hd hkey => hinv.kept hs (hdb ▸ hd) hkey⟩
      · obtain ⟨p₀, hp₀, hcalled₀⟩ := hpast i p key hp hcalled
        exact hdb ▸ hinv.drawn i p₀ key hp₀ hcalled₀
      · obtain ⟨p₀, hp₀, hcalled₀⟩ := hpast i p key hp hcalled
        obtain ⟨q₀, hq₀, hcalled₁⟩ := hpast j q key hq hcalled'
        exact hinv.single i j p₀ q₀ key hp₀ hq₀ hcalled₀ hcalled₁
  | answered i c p q next out rows hp hq hrun =>
      have hpast : ∀ (j : Nat) p' key,
          (s.set i (p.push (next (.ok out)) ⟨q, out, rows, s.db⟩)).procs[j]? = some p' →
          Called p'.past .randomObjectKey key →
          ∃ p, s.procs[j]? = some p ∧ Called p.past .randomObjectKey key := by
        intro j p' key hj hcalled
        rcases getElem?_set_cases hj with ⟨rfl, rfl⟩ | ⟨-, hj⟩
        · exact ⟨p, hp, hcalled⟩
        · exact ⟨p', hj, hcalled⟩
      refine ⟨fun i p key hp hcalled => ?_, fun i j p q key hp hq hcalled hcalled' => ?_,
        fun id d key hd hkey => hinv.kept hs hd hkey⟩
      · obtain ⟨p₀, hp₀, hcalled₀⟩ := hpast i p key hp hcalled
        exact hinv.drawn i p₀ key hp₀ hcalled₀
      · obtain ⟨p₀, hp₀, hcalled₀⟩ := hpast i p key hp hcalled
        obtain ⟨q₀, hq₀, hcalled₁⟩ := hpast j q key hq hcalled'
        exact hinv.single i j p₀ q₀ key hp₀ hq₀ hcalled₀ hcalled₁
  | committed i c p next hp hq =>
      have hproc := hcons.proc i p hp
      -- nobody else has drawn the keys that the transaction has drawn
      have hother : ∀ (j : Nat) q key, s.procs[j]? = some q → Called p.calls .randomObjectKey key →
          ¬ Called q.past .randomObjectKey key := fun j q key hj hcalled hcalled' =>
        (drawn_fresh hproc hcalled).1 (hinv.drawn j q key hj hcalled')
      refine ⟨fun j q key hj hcalled => ?_, fun j k q r key hj hk hcalled hcalled' => ?_,
        fun id d key hd hkey => ?_⟩
      · rw [Log.keys_append, List.mem_append]
        rcases getElem?_set_cases hj with ⟨rfl, rfl⟩ | ⟨-, hj⟩
        · rcases List.mem_append.mp hcalled with hnew | hold
          · exact .inl (drawn_fresh hproc hnew).2
          · exact .inr (hinv.drawn _ p key hp hold)
        · exact .inr (hinv.drawn j q key hj hcalled)
      · rcases getElem?_set_cases hj with ⟨rfl, rfl⟩ | ⟨-, hq⟩ <;>
          rcases getElem?_set_cases hk with ⟨rfl, rfl⟩ | ⟨-, hr⟩
        · rfl
        · rcases List.mem_append.mp hcalled with hnew | hold
          · exact absurd hcalled' (hother k r key hr hnew)
          · exact hinv.single _ k p r key hp hr hold hcalled'
        · rcases List.mem_append.mp hcalled' with hnew | hold
          · exact absurd hcalled (hother j q key hq hnew)
          · exact hinv.single j _ q p key hq hp hcalled hold
        · exact hinv.single j k q r key hq hr hcalled hcalled'
      · rcases commit_document hproc hd with ⟨-, hold⟩ | hins | ⟨change, old, hch⟩
        · exact hinv.kept hs hold hkey
        · rw [hins.quarantined.2.1] at hkey
          cases hkey
        · have hresult := hch.result
          cases change with
          | promoted org key' sha duplicate =>
              rw [hresult] at hkey
              have hsame : key' = key := Option.some.inj hkey
              subst hsame
              obtain ⟨newer, older, rows, base, hcur, -, hbefore⟩ := hch.event
              obtain ⟨job, final, hop, -⟩ := hch.op
              rw [hop] at hbefore
              obtain ⟨-, -, -, -, -, -, -, hcalled, -⟩ := hbefore
              have hlt := (List.getElem?_eq_some_iff.mp hp).1
              exact ⟨i, _, org, sha, duplicate, 1, List.getElem?_set_self hlt,
                List.mem_append_right _ hcalled, List.mem_append_left _ hch.did⟩
          | blocked org =>
              rw [hresult] at hkey
              exact hinv.kept hs hch.committed hkey
  | outside rows hext =>
      refine ⟨fun i p key hp hcalled => ?_, hinv.single, fun id d key hd hkey => ?_⟩
      · rw [Log.keys_append]
        exact List.mem_append_right _ (hinv.drawn i p key hp hcalled)
      · have hrow : Db.document (rows ++ s.db) id = Db.document s.db id := external_row hext rfl
        exact hinv.kept hs (hrow.symm.trans hd) hkey

theorem KeysOwned.run (h₀ : Idle Legal s₀) (huploaded : Uploaded s₀.db)
    (h : Run (machine cfg) ok s₀ s) : KeysOwned s :=
  h.invariant (KeysOwned.start h₀ huploaded) fun _ _ _ hrun hinv _ hs =>
    hinv.step (Run.consistent (discipline cfg) h₀.consistent hrun) hs

/-- A document that is promoted has no fingerprint yet. -/
theorem promoted_unmarked (hinv : KeysOwned s) (hing : Ingestion s.db) {i : Nat} {p : Process}
    (hp : s.procs[i]? = some p) {id org key : Id} {sha : Digest} {duplicate : Option Id}
    {d d' : Document} (hch : ChangesDocument cfg s.db p id (.promoted org key sha duplicate) d d') :
    d.sha256 = none := by
  have hunset : d.approvedObjectKey = none := by
    rcases (of_decide_eq_true hch.identity).1 with hnone | hkept
    · exact hnone
    rw [hch.result] at hkept
    -- the key is that of the present attempt, which has promoted the document already
    obtain ⟨j, q, o, s', dup, n, hq, hdrawn, hdid⟩ := hinv.promoted id d key hch.committed hkept.symm
    obtain ⟨newer, older, rows, base, hcur, -, hbefore⟩ := hch.event
    obtain ⟨job, final, hop, rfl⟩ := hch.op
    rw [hop] at hbefore
    obtain ⟨-, -, -, -, -, -, -, hcalled, hfirst⟩ := hbefore
    have hsame := hinv.single i j p q key hp hq hcalled hdrawn
    subst hsame
    have hproc : p = q := Option.some.inj (hp.symm.trans hq)
    subst hproc
    exact absurd hdid (hfirst o key s' dup n)
  obtain ⟨r, v, -, -, htracked⟩ := hing.tracked id d hch.committed
  have hpaired := htracked.paired
  unfold Paired at hpaired
  split at hpaired
  · exact hpaired.2.1
  · exact absurd hunset hpaired.1
  · exact hpaired.2.1

/-- The document it points to as its original. -/
def duplicateOf (db : Db) (id : Id) : Option Id :=
  (Db.document db id).bind Document.duplicateOfDocumentId

/-- The fingerprints stay as they are, or one document joins those with its fingerprint. -/
inductive Marked (older newer : Db) : Prop
  | kept (hsame : ∀ org sha j, Fingerprinted newer org sha j ↔ Fingerprinted older org sha j)
      (hpointers : ∀ org sha j, Fingerprinted older org sha j →
        duplicateOf newer j = duplicateOf older j)
  | joined (org : Id) (sha : Digest) (i : Id)
      (hnew : ∀ org' sha' j, Fingerprinted newer org' sha' j ↔
        Fingerprinted older org' sha' j ∨ org' = org ∧ sha' = sha ∧ j = i)
      (hunmarked : ∀ org' sha', ¬ Fingerprinted older org' sha' i)
      (hnone : duplicateOf newer i = none → ∀ j, ¬ Fingerprinted older org sha j)
      (hsome : ∀ j, duplicateOf newer i = some j → Fingerprinted older org sha j)
      (hpointers : ∀ org' sha' j, Fingerprinted older org' sha' j →
        duplicateOf newer j = duplicateOf older j)

theorem Marked.of_documents {older newer : Db}
    (h : ∀ i, Db.document newer i = Db.document older i) : Marked older newer := by
  refine .kept (fun org sha j => ?_) fun org sha j _ => ?_
  · unfold Fingerprinted
    rw [h]
  · unfold duplicateOf
    rw [h]

theorem Marked.commit (hcons : Consistent (machine cfg) (conduct cfg) Legal s)
    (hinv : KeysOwned s) (hing : Ingestion s.db) {k : Nat} {p : Process}
    (hp : s.procs[k]? = some p) (hobs : tally.Observed s.db p) :
    Marked s.db (p.writes ++ s.db) := by
  have h := hcons.proc k p hp
  have hlater : ∀ {org sha j}, Fingerprinted s.db org sha j →
      Fingerprinted (p.writes ++ s.db) org sha j := fun hj =>
    hj.later h.view (List.suffix_append _ _)
  by_cases hpromotes : ∃ i org key sha duplicate d d',
      ChangesDocument cfg s.db p i (.promoted org key sha duplicate) d d'
  · obtain ⟨i, org, key, sha, duplicate, d, d', hch⟩ := hpromotes
    have hunmarked := promoted_unmarked hinv hing hp hch
    obtain ⟨hnone, hsome⟩ := promoted_lookup h hobs hch
    obtain ⟨job, final, hop, hi⟩ := hch.op
    have horg : d.organizationId = org := of_decide_eq_true hch.applies
    have hnew : Db.document (p.writes ++ s.db) i = some d' := by
      obtain ⟨old, new, hch', hnew⟩ := did_updateDocument h hch.did Nat.one_ne_zero
      have hsame : old = d := Option.some.inj (hch'.committed.symm.trans hch.committed)
      rw [hnew, hch'.result, hsame, hch.result]
    have hother : ∀ j, j ≠ i → Db.document (p.writes ++ s.db) j = Db.document s.db j := by
      intro j hj
      refine Log.row_append_of_not_mem _ fun hmem => hj ?_
      rw [hi]
      exact only_own_document h hop hmem
    have hfree : ∀ org' sha', ¬ Fingerprinted s.db org' sha' i := by
      rintro org' sha' ⟨x, hx, -, hsha⟩
      have hsame : x = d := Option.some.inj (hx.symm.trans hch.committed)
      rw [hsame, hunmarked] at hsha
      cases hsha
    have hduplicate : duplicateOf (p.writes ++ s.db) i = duplicate := by
      unfold duplicateOf
      rw [hnew, hch.result]
      rfl
    refine .joined org sha i (fun org' sha' j => ⟨fun hj => ?_, fun hj => ?_⟩) hfree ?_ ?_ ?_
    · by_cases hji : j = i
      · subst hji
        obtain ⟨x, hx, horg', hsha'⟩ := hj
        have hsame : x = d' := Option.some.inj (hx.symm.trans hnew)
        rw [hsame, hch.result] at horg' hsha'
        have hsha : sha = sha' := Option.some.inj hsha'
        exact .inr ⟨horg'.symm.trans horg, hsha.symm, rfl⟩
      · obtain ⟨x, hx, hrest⟩ := hj
        exact .inl ⟨x, (hother j hji).symm.trans hx, hrest⟩
    · rcases hj with hold | ⟨rfl, rfl, rfl⟩
      · exact hlater hold
      · exact ⟨d', hnew, by rw [hch.result]; exact horg, by rw [hch.result]; rfl⟩
    · rw [hduplicate]
      intro hempty j hj
      have hji : j ≠ i := fun heq => hfree org sha (heq ▸ hj)
      exact hnone hempty j hji hj
    · rw [hduplicate]
      intro j hj
      exact (hsome j hj).2
    · intro org' sha' j hj
      have hji : j ≠ i := fun heq => hfree org' sha' (heq ▸ hj)
      unfold duplicateOf
      rw [hother j hji]
  · refine .kept (fun org sha j => ⟨fun hj => ?_, hlater⟩) fun org sha j hj => ?_
    · rcases commit_fingerprint h hj with hold | ⟨key, duplicate, d, d', hch, -⟩
      · exact hold
      · exact absurd ⟨j, org, key, sha, duplicate, d, d', hch⟩ hpromotes
    · obtain ⟨d, hd, -⟩ := hj
      obtain ⟨d', hd', -⟩ := document_later h.view (List.suffix_append _ _) hd
      unfold duplicateOf
      rw [hd, hd']
      rcases commit_document h hd' with ⟨-, hold⟩ | hins | ⟨c, old, hch⟩
      · have hsame : d' = d := Option.some.inj (hold.symm.trans hd)
        rw [hsame]
      · exact absurd (Log.mem_keys_of_row hd) hins.fresh
      · cases c with
        | promoted org' key sha' duplicate =>
            exact absurd ⟨j, org', key, sha', duplicate, old, d', hch⟩ hpromotes
        | blocked org' =>
            have hsame : old = d := Option.some.inj (hch.committed.symm.trans hd)
            rw [hch.result, hsame]
            rfl

theorem tally_respects : tally.Respects (E := Failure) (R := Response) ok :=
  ⟨fun _ _ _ => trivial, fun _ _ _ _ _ _ _ _ _ => trivial⟩

/-- Every step of a run keeps the fingerprints or adds one. -/
theorem Marked.step (h₀ : Idle Legal s₀) (huploaded : Uploaded s₀.db)
    (h : Run (machine cfg) ok s₀ s) {a : SystemAction} (hs : Step (machine cfg) s a s') :
    Marked s.db s'.db := by
  have hcons := Run.consistent (discipline cfg) h₀.consistent h
  cases hs.effect with
  | quiet hdb hprocs => exact .of_documents fun i => by rw [hdb]
  | answered i c p q next out rows hp hq hrun => exact .of_documents fun i => rfl
  | committed k c p next hp hq =>
      exact .commit hcons (.run h₀ huploaded h)
        (ingestion_sound.run ingestion_respects (discipline cfg) h₀ huploaded.ingestion h).1 hp
        ((tally_sound.run tally_respects (discipline cfg) h₀ trivial h).2 k p hp)
  | outside rows hext => exact .of_documents fun i => external_row hext rfl

/-- The pointer of a document with a fingerprint leads to one that had it earlier. -/
def EarlierFirst (cfg : Config) (ok : System → SystemAction → Prop) (s₀ s : System) (org : Id)
    (sha : Digest) : Prop :=
  ∀ i j, Fingerprinted s.db org sha i → duplicateOf s.db i = some j →
    ∃ u, Run (machine cfg) ok s₀ u ∧ Run (machine cfg) ok u s ∧ Fingerprinted u.db org sha j ∧
      ¬ Fingerprinted u.db org sha i

theorem EarlierFirst.step {org : Id} {sha : Digest} (h : EarlierFirst cfg ok s₀ s org sha)
    (hrun : Run (machine cfg) ok s₀ s) {a : SystemAction} (ha : ok s a)
    (hs : Step (machine cfg) s a s') (hm : Marked s.db s'.db) :
    EarlierFirst cfg ok s₀ s' org sha := by
  have hold : ∀ i j, Fingerprinted s.db org sha i → duplicateOf s.db i = some j →
      ∃ u, Run (machine cfg) ok s₀ u ∧ Run (machine cfg) ok u s' ∧ Fingerprinted u.db org sha j ∧
        ¬ Fingerprinted u.db org sha i := by
    intro i j hi hj
    obtain ⟨u, hu, hus, hmark, hunmarked⟩ := h i j hi hj
    exact ⟨u, hu, .step hus ha hs, hmark, hunmarked⟩
  intro i j hi hj
  cases hm with
  | kept hsame hpointers =>
      have hi' := (hsame org sha i).mp hi
      exact hold i j hi' ((hpointers org sha i hi').symm.trans hj)
  | joined org' sha' k hnew hunmarked hnone hsome hpointers =>
      rcases (hnew org sha i).mp hi with hi' | ⟨rfl, rfl, rfl⟩
      · exact hold i j hi' ((hpointers org sha i hi').symm.trans hj)
      · exact ⟨s, hrun, .step .refl ha hs, hsome j hj, hunmarked org sha⟩

/-- The documents with a fingerprint, if there are any, have one root. -/
def RootedMarks (db : Db) (org : Id) (sha : Digest) : Prop :=
  (∃ i, Fingerprinted db org sha i) →
    ∃ root, Rooted.OneRoot (Fingerprinted db org sha) (duplicateOf db) root

theorem RootedMarks.step {older newer : Db} {org : Id} {sha : Digest}
    (h : RootedMarks older org sha) (hm : Marked older newer) : RootedMarks newer org sha := by
  rintro ⟨i, hi⟩
  cases hm with
  | kept hsame hpointers =>
      obtain ⟨root, hroot⟩ := h ⟨i, (hsame org sha i).mp hi⟩
      exact ⟨root, hroot.congr (hsame org sha) (hpointers org sha)⟩
  | joined org' sha' k hnew hunmarked hnone hsome hpointers =>
      by_cases hsame : org = org' ∧ sha = sha'
      · obtain ⟨rfl, rfl⟩ := hsame
        have hmembers : ∀ j, Fingerprinted newer org sha j ↔ Fingerprinted older org sha j ∨ j = k :=
          fun j => by rw [hnew]; simp
        cases hpointer : duplicateOf newer k with
        | none =>
            have hempty := hnone hpointer
            exact ⟨k, .first (fun j => by simp [hmembers, hempty]) hpointer⟩
        | some j =>
            have hj := hsome j hpointer
            obtain ⟨root, hroot⟩ := h ⟨j, hj⟩
            exact ⟨root, hroot.insert hmembers (hpointers org sha) hj hpointer⟩
      · have hmembers : ∀ j, Fingerprinted newer org sha j ↔ Fingerprinted older org sha j := by
          intro j
          rw [hnew]
          refine ⟨fun hj => hj.resolve_right fun ⟨horg, hsha, _⟩ => hsame ⟨horg, hsha⟩, .inl⟩
        obtain ⟨root, hroot⟩ := h ⟨i, (hmembers i).mp hi⟩
        exact ⟨root, hroot.congr hmembers (hpointers org sha)⟩

end Runs

/-- The documents of an organization with one fingerprint: one of them has no original, every
other one points to a document that had the fingerprint before it, and all pointers lead to
that one. -/
theorem duplicates_rooted (cfg : Config) {ok : System → SystemAction → Prop} {s₀ s : System}
    (h₀ : Idle Legal s₀) (huploaded : Uploaded s₀.db) (h : Run (machine cfg) ok s₀ s) {org : Id}
    {sha : Digest} (hheld : ∃ i, Fingerprinted s.db org sha i) :
    ∃ root, Fingerprinted s.db org sha root ∧ duplicateOf s.db root = none ∧
      (∀ i, Fingerprinted s.db org sha i → i ≠ root →
        ∃ j, duplicateOf s.db i = some j ∧ Fingerprinted s.db org sha j ∧
          ∃ u, Run (machine cfg) ok s₀ u ∧ Run (machine cfg) ok u s ∧
            Fingerprinted u.db org sha j ∧ ¬ Fingerprinted u.db org sha i) ∧
      ∀ i, Fingerprinted s.db org sha i →
        Relation.ReflTransGen (Rooted.Points (duplicateOf s.db)) i root ∧
        ¬ Relation.TransGen (Rooted.Points (duplicateOf s.db)) i i := by
  have hempty : ∀ i, ¬ Fingerprinted s₀.db org sha i := by
    rintro i ⟨d, hd, -, hsha⟩
    rw [(huploaded.quarantined i d hd).2.2.1] at hsha
    cases hsha
  have hrooted : RootedMarks s.db org sha := by
    refine h.invariant (I := fun s => RootedMarks s.db org sha)
      (fun ⟨i, hi⟩ => absurd hi (hempty i)) fun t a t' hrun ht _ hs => ?_
    exact ht.step (.step h₀ huploaded hrun hs)
  have hearlier : EarlierFirst cfg ok s₀ s org sha := by
    refine h.invariant (I := fun s => EarlierFirst cfg ok s₀ s org sha)
      (fun i j hi _ => absurd hi (hempty i)) fun t a t' hrun ht ha hs => ?_
    exact ht.step hrun ha hs (.step h₀ huploaded hrun hs)
  obtain ⟨root, hroot⟩ := hrooted hheld
  refine ⟨root, hroot.member, hroot.top, fun i hi hne => ?_, fun i hi =>
    ⟨hroot.reaches i hi, hroot.acyclic hi⟩⟩
  cases hpointer : duplicateOf s.db i with
  | none => exact absurd (hroot.unique i hi hpointer) hne
  | some j => exact ⟨j, rfl, hroot.closed i j hi hpointer, hearlier i j hi hpointer⟩

/-- Of two documents with the same bytes the later one points to the one processed first. -/
theorem duplicates_rooted_sample : ∃ s : System,
    Fingerprinted s.db 1 8 1 ∧ Fingerprinted s.db 1 8 2 ∧ duplicateOf s.db 1 = none ∧
    duplicateOf s.db 2 = some 1 ∧
    (∃ u, Run (machine sampleConfig) (Account.permitted (fun _ => True) always) twinStart u ∧
      Run (machine sampleConfig) (Account.permitted (fun _ => True) always) u s ∧
      Fingerprinted u.db 1 8 1 ∧ ¬ Fingerprinted u.db 1 8 2) ∧
    Relation.ReflTransGen (Rooted.Points (duplicateOf s.db)) 2 1 ∧
    ¬ Relation.TransGen (Rooted.Points (duplicateOf s.db)) 2 2 := by
  obtain ⟨s, hrun, hcheck⟩ := exists_run (M := machine sampleConfig) (s := twinStart)
    twinProcessed
    (fun s => ((Db.document s.db 1).any fun d => d.organizationId = 1 ∧ d.sha256 = some 8) &&
      ((Db.document s.db 2).any fun d => d.organizationId = 1 ∧ d.sha256 = some 8) &&
      decide (duplicateOf s.db 1 = none ∧ duplicateOf s.db 2 = some 1))
    permitted_always (by decide +kernel)
  obtain ⟨hcheck, hpointers⟩ := Bool.and_eq_true_iff.mp hcheck
  obtain ⟨hfirst, hsecond⟩ := Bool.and_eq_true_iff.mp hcheck
  obtain ⟨htop, hlater⟩ := of_decide_eq_true hpointers
  have hheld : ∀ {i : Id}, ((Db.document s.db i).any fun d => decide (d.organizationId = 1 ∧
      d.sha256 = some 8)) = true → Fingerprinted s.db 1 8 i := by
    intro i h
    obtain ⟨d, hd, h⟩ := (Option.any_eq_true _ _).mp h
    exact ⟨d, hd, of_decide_eq_true h⟩
  obtain ⟨root, hroot, hnone, hpointed, hreach⟩ := duplicates_rooted sampleConfig twinStart_idle
    twinStart_uploaded hrun ⟨1, hheld hfirst⟩
  have hone : root = 1 := by
    by_contra hne
    obtain ⟨j, hj, -⟩ := hpointed 1 (hheld hfirst) (Ne.symm hne)
    rw [htop] at hj
    cases hj
  rw [hone] at hpointed hreach
  obtain ⟨j, hj, -, hearlier⟩ := hpointed 2 (hheld hsecond) (by decide)
  obtain rfl : 1 = j := Option.some.inj (hlater.symm.trans hj)
  exact ⟨s, hheld hfirst, hheld hsecond, htop, hlater, hearlier, hreach 2 (hheld hsecond)⟩

end BlocTrust
