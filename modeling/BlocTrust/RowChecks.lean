import BlocTrust.ObjectStore

/-!
`CHECK` constraints.
Every version of a document or an invoice that a statement writes passes the constraints of
its table, so that the rows of an uploaded document do.
-/
namespace BlocTrust

open ReadCommitted

/-- The constraints of the table of a row. -/
def rowChecks : (k : Key) → Val k → Bool
  | .document _, d => documentChecks d
  | .invoice _, v => invoiceChecks v
  | _, _ => true

/-- New rows, and new versions of them, pass their checks. -/
def Checked (start : Db) : Transition Val :=
  fun k _ v => k ∉ start.keys → rowChecks k v = true

section Rows

variable {start db rows : Db} {k : Key} {v : Val k}

theorem admitted_checks {α : Type} {a b : α} {triggers : List (Bool × String)} {checks : Bool}
    {constraint : String} (h : admitted a triggers checks constraint = .ok b) : checks = true := by
  unfold admitted at h
  split at h
  · cases h
  · split at h
    · assumption
    · cases h

theorem checked_append (hrows : ∀ s ∈ rows, rowChecks s.1 s.2 = true)
    (hc : Log.Chain (Checked start) db) : Log.Chain (Checked start) (rows ++ db) := by
  induction rows with
  | nil => exact hc
  | cons s rows ih =>
      rw [List.cons_append, Log.chain_cons]
      refine ⟨fun _ => hrows s List.mem_cons_self, ih fun t ht => ?_⟩
      exact hrows t (List.mem_cons_of_mem _ ht)

theorem checked_start (start : Db) : Log.Chain (Checked start) start := by
  have hall : ∀ db : Db, db <:+ start → Log.Chain (Checked start) db := by
    intro db hsuffix
    induction db with
    | nil => trivial
    | cons s db ih =>
        refine ⟨fun hs => absurd ?_ hs, ih ((List.suffix_cons s db).trans hsuffix)⟩
        exact Log.keys_subset_of_suffix hsuffix List.mem_cons_self
  exact hall start List.suffix_rfl

theorem insertRow_checks {indexes : List UniqueIndex} (hv : rowChecks k v = true)
    (h : insertRow db k v indexes = .ok rows) : ∀ s ∈ rows, rowChecks s.1 s.2 = true := by
  rw [(insertRow_ok h).rows_eq]
  intro s hs
  rcases List.mem_cons.mp hs with rfl | hs
  · exact hv
  · obtain ⟨u, -, rfl⟩ := List.mem_map.mp hs
    rfl

theorem updateRow_checks {applies : Val k → Bool} {change : Val k → Except Failure (Val k)} {n : Nat}
    (hchange : ∀ old new, change old = .ok new → rowChecks k new = true)
    (h : updateRow db k applies change = .ok (n, rows)) :
    ∀ s ∈ rows, rowChecks s.1 s.2 = true := by
  cases updateRow_ok h with
  | missed _ => simp
  | wrote old new hrow happlies hnew =>
      intro s hs
      cases List.mem_singleton.mp hs
      exact hchange old new hnew

theorem insertChecked_checks {indexes : List UniqueIndex} {checks : Bool} {constraint : String}
    (hv : checks = true → rowChecks k v = true)
    (h : insertChecked db k v indexes checks constraint = .ok rows) :
    ∀ s ∈ rows, rowChecks s.1 s.2 = true := by
  obtain ⟨hchecks, -⟩ := insertChecked_ok h
  rw [insertChecked, if_pos hchecks] at h
  exact insertRow_checks (hv hchecks) h

/-- Statements on other tables have nothing to check here. -/
theorem Wrote.unchecked {u : Update} {out : u.Out} (h : Wrote db u out rows)
    (hdocument : ∀ id, u.target out ≠ .document id) (hinvoice : ∀ id, u.target out ≠ .invoice id) :
    ∀ s ∈ rows, rowChecks s.1 s.2 = true := by
  rintro ⟨k, v⟩ hs
  have hk : k ∈ rows.keys := List.mem_map_of_mem (f := Sigma.fst) hs
  cases k with
  | document id => exact absurd (h.target hk rfl).symm (hdocument id)
  | invoice id => exact absurd (h.target hk rfl).symm (hinvoice id)
  | _ => rfl

theorem performUpdate_checks {choice : Nat} {u : Update} {out : u.Out}
    (h : performUpdate choice db u = .ok (out, rows)) : ∀ s ∈ rows, rowChecks s.1 s.2 = true := by
  have hwrote : Wrote db u out rows := performUpdate_ok h
  cases u with
  | insertInvoice id v =>
      simp only [performUpdate] at h
      split at h
      · obtain ⟨a, ha, heq⟩ := map_ok h
        cases heq
        exact insertChecked_checks (fun hchecks => hchecks) ha
      · cases h
  | insertDocument id d =>
      obtain ⟨a, ha, heq⟩ := map_ok h
      cases heq
      exact insertChecked_checks (fun hchecks => hchecks) ha
  | updateInvoice id c =>
      refine updateRow_checks (k := .invoice id) (fun old new hnew => ?_) h
      rw [(changeInvoice_ok hnew).1]
      exact admitted_checks hnew
  | updateDocument id c =>
      refine updateRow_checks (k := .document id) (fun old new hnew => ?_) h
      rw [(changeDocument_ok hnew).1]
      exact admitted_checks hnew
  | _ => exact hwrote.unchecked (by simp [Update.target]) (by simp [Update.target])

theorem reply_checks {cfg : Config} {choice : Nat} {c : External} {out : c.Out}
    (h : reply cfg choice db c = some (.ok (out, rows))) : ∀ s ∈ rows, rowChecks s.1 s.2 = true := by
  rintro ⟨k, v⟩ hs
  have hk : k ∈ rows.keys := List.mem_map_of_mem (f := Sigma.fst) hs
  have hinternal := reply_internal h hk
  cases k with
  | document id => cases hinternal
  | invoice id => cases hinternal
  | _ => rfl

theorem engine_checks {cfg : Config} {q : Stmt} {choice : Nat} {out : Out q}
    (h : engine cfg q choice db = some (.ok (out, rows))) : ∀ s ∈ rows, rowChecks s.1 s.2 = true := by
  cases q with
  | read q =>
      obtain ⟨o, -, heq⟩ := Option.map_eq_some_iff.mp h
      cases heq
      simp
  | write u => exact performUpdate_checks (Option.some.inj h)
  | call c => exact reply_checks h

end Rows

/-- Whatever the programs do. -/
theorem checking (cfg : Config) (start : Db) :
    Discipline (machine cfg) (fun _ => .free) (Checked start) where
  program op := Prog.wp_unconditional _ _ _
  legal q c view out rows hrun hc := checked_append (engine_checks hrun) hc
  answers _ _ _ _ _ _ _ := trivial
  external db rows hext hc := by
    refine checked_append (fun s hs => ?_) hc
    have houtside := hext.1 s hs
    obtain ⟨k, v⟩ := s
    cases k with
    | document id => cases houtside
    | invoice id => cases houtside
    | _ => rfl

section Runs

variable {cfg : Config} {ok : System → SystemAction → Prop} {s₀ s : System}

/-- The invoices of documents are new. -/
def arriving (start : Db) : Account Val Out Op where
  inv db := start <:+ db ∧ ∀ id d, Db.document db id = some d → Key.invoice d.invoiceId ∉ start.keys

theorem arriving_sound (start : Db) :
    (arriving start).Sound (machine cfg) (conduct cfg) Legal ok s₀ where
  refl _ := trivial
  trans _ _ _ _ _ := trivial
  keep _ _ _ _ _ _ _ _ := trivial
  commit s i p _ _ hp hq hok hobs hinv := by
    refine ⟨⟨hinv.1.trans (List.suffix_append _ _), fun id d hd => ?_⟩, trivial, fun _ _ => trivial⟩
    rcases commit_document_later hok hd with hinserts | ⟨old, hold, hlater⟩
    · obtain ⟨-, -, r, v, -, -, -, hinvoice⟩ := uploaded hok hq hinserts.did
      exact fun hk => hinvoice.fresh (Log.keys_subset_of_suffix hinv.1 hk)
    · rw [hlater.invoiceId]
      exact hinv.2 id old hold
  external db rows _ hext hinv := by
    refine ⟨⟨hinv.1.trans (List.suffix_append _ _), fun id d hd => hinv.2 id d ?_⟩, trivial⟩
    exact (external_row hext rfl).symm.trans hd

theorem arriving_respects (start : Db) : (arriving start).Respects ok :=
  ⟨fun _ _ _ => trivial, fun _ _ _ _ _ _ _ _ _ => trivial⟩

/-- An uploaded document and its invoice pass their checks. -/
theorem uploaded_checks (h₀ : Idle Legal s₀) (hdocument : ∀ id, Db.document s₀.db id = none)
    (h : Run (machine cfg) ok s₀ s) {id : Id} {d : Document} {v : Invoice}
    (hd : Db.document s.db id = some d) (hv : Db.invoice s.db d.invoiceId = some v) :
    documentChecks d = true ∧ invoiceChecks v = true := by
  have hchecked : Log.Chain (Checked s₀.db) s.db := by
    refine (Run.consistent (checking cfg s₀.db) ?_ h).chain
    exact Idle.consistent ⟨checked_start s₀.db, h₀.procs⟩
  have hstart : (arriving s₀.db).inv s₀.db := by
    refine ⟨List.suffix_rfl, fun id d hd => ?_⟩
    rw [hdocument] at hd
    cases hd
  obtain ⟨-, hnew⟩ := ((arriving_sound s₀.db).run (arriving_respects s₀.db) (discipline cfg) h₀
    hstart h).1
  have hcurrent : ∀ {k : Key} {x : Val k}, Log.row k s.db = some x → k ∉ s₀.db.keys →
      rowChecks k x = true := by
    intro k x hx
    exact hchecked.current (P := fun k x => k ∉ s₀.db.keys → rowChecks k x = true)
      (fun _ _ _ hnew _ => hnew) hx
  exact ⟨hcurrent hd (Log.row_eq_none.mp (hdocument id)), hcurrent hv (hnew id d hd)⟩

end Runs
end BlocTrust
