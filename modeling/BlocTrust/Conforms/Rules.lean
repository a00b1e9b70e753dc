import BlocTrust.Conduct

/-!
Rules for showing that a program keeps its conduct.
A stretch of reads, clock readings and audit entries extends the calls of a transaction
without adding a write that a conduct speaks about; the lemmas below run a program from
one such write to the next.
-/
namespace BlocTrust

open ReadCommitted Prog

/-- The writes that conducts speak about. -/
def tracked : Update → Bool
  | .insertPolicy _ | .updatePolicy _ _ | .insertAudit _ => false
  | _ => true

/-- The read whose place among the writes a conduct speaks about. -/
def scanning : Query → Bool
  | .awaitingOfVendor _ _ => true
  | _ => false

/-- `after` continues `before` without a tracked write or such a read. -/
structure Extends (before after : Calls Out) : Prop where
  sub : before ⊆ after
  back : ∀ u out, tracked u = true → Did after u out → Did before u out
  scans : ∀ q out, scanning q = true → Saw after q out → Saw before q out

namespace Extends

theorem refl (cur : Calls Out) : Extends cur cur :=
  ⟨fun _ h => h, fun _ _ _ h => h, fun _ _ _ h => h⟩

theorem trans {a b c : Calls Out} (h : Extends a b) (h' : Extends b c) : Extends a c :=
  ⟨fun _ hm => h'.sub (h.sub hm), fun u out ht hd => h.back u out ht (h'.back u out ht hd),
    fun q out hq hs => h.scans q out hq (h'.scans q out hq hs)⟩

theorem cons_read (cur : Calls Out) (q : Query) (out : q.Out) (hq : scanning q = false) :
    Extends cur (⟨.read q, out⟩ :: cur) := by
  refine ⟨fun _ h => List.mem_cons_of_mem _ h, fun u o _ h => by simpa using h,
    fun q' o hq' h => ?_⟩
  rcases List.mem_cons.mp h with heq | h
  · have hsame : q' = q := by
      have hs := congrArg Sigma.fst heq
      simpa using hs
    rw [hsame, hq] at hq'
    cases hq'
  · exact h

theorem cons_call (cur : Calls Out) (c : External) (out : c.Out) :
    Extends cur (⟨.call c, out⟩ :: cur) :=
  ⟨fun _ h => List.mem_cons_of_mem _ h, fun u o _ h => by simpa using h,
    fun q o _ h => by simpa using h⟩

theorem cons_write (cur : Calls Out) (u : Update) (out : u.Out) (hu : tracked u = false) :
    Extends cur (⟨.write u, out⟩ :: cur) := by
  refine ⟨fun _ h => List.mem_cons_of_mem _ h, fun v o hv h => ?_, fun q o _ h => by simpa using h⟩
  rcases List.mem_cons.mp h with heq | h
  · have huv : v = u := by
      have hs := congrArg Sigma.fst heq
      simpa using hs
    rw [huv, hu] at hv
    cases hv
  · exact h

end Extends

/-- No tracked write so far. -/
def Clean (cur : Calls Out) : Prop := ∀ u out, tracked u = true → ¬ Did cur u out

theorem clean_nil : Clean [] := fun _ _ _ h => by simp at h

theorem Clean.extend {cur cur' : Calls Out} (h : Clean cur) (he : Extends cur cur') :
    Clean cur' := fun u out ht hd => h u out ht (he.back u out ht hd)

/-- A conduct that leaves the reads that all services share, and the audit trail, alone. -/
structure Lenient (C : Conduct Out) : Prop where
  read : ∀ past cur q,
    (match q with
      | .latestBank _ _ | .countApprovals _ _ _ | .findDuplicate _ _ _
      | .awaitingOfVendor _ _ => False
      | _ => True) → C.before past cur (.read q)
  clock : ∀ past cur, C.before past cur (.call .clock)
  audit : ∀ past cur a, C.before past cur (.write (.insertAudit a))

section Rules

variable {C : Conduct Out} {past cur : Calls Out} {R : Failure → Calls Out → Calls Out → Prop}

theorem query_wp {q : Query} {Q : q.Out → Calls Out → Calls Out → Prop}
    (hq : scanning q = false) (hC : C.before past cur (.read q)) (hR : ∀ e cur, R e past cur)
    (hQ : ∀ out cur', Extends cur cur' → Saw cur' q out → C.answers (.read q) out →
      Q out past cur') :
    (query q).wp C Q R past cur :=
  ⟨hC, fun out ha => hQ out _ (.cons_read cur q out hq) List.mem_cons_self ha, fun e => hR e _⟩

theorem update_wp {u : Update} {Q : u.Out → Calls Out → Calls Out → Prop}
    (hC : C.before past cur (.write u)) (hR : ∀ e cur, R e past cur)
    (hQ : ∀ out, Q out past (⟨.write u, out⟩ :: cur)) :
    (update u).wp C Q R past cur :=
  ⟨hC, fun out _ => hQ out, fun e => hR e _⟩

theorem now_wp {Q : Time → Calls Out → Calls Out → Prop} (hC : Lenient C)
    (hR : ∀ e cur, R e past cur) (hQ : ∀ t cur', Extends cur cur' → Q t past cur') :
    now.wp C Q R past cur :=
  ⟨hC.clock past cur, fun t _ => hQ t _ (.cons_call cur .clock t), fun e => hR e _⟩

theorem orThrow_wp {α : Type} {o : Option α} {e : Failure} {Q : α → Calls Out → Calls Out → Prop}
    (hR : ∀ e cur, R e past cur) (hQ : ∀ a, o = some a → Q a past cur) :
    (orThrow o e : Program α).wp C Q R past cur :=
  (wp_orThrow o e).mpr ⟨hQ, fun _ => hR e cur⟩

theorem require_wp {c : Prop} [Decidable c] {e : Failure}
    {Q : Unit → Calls Out → Calls Out → Prop} (hR : ∀ e cur, R e past cur)
    (hQ : c → Q () past cur) : (require c e : Program Unit).wp C Q R past cur :=
  (wp_require c e).mpr ⟨hQ, fun _ => hR e cur⟩

theorem writeAudit_wp {auth : AuthContext} {action entityType : String} {entityId : Id}
    {reason : Option Text} {Q : Unit → Calls Out → Calls Out → Prop} (hC : Lenient C)
    (hR : ∀ e cur, R e past cur) (hQ : ∀ cur', Extends cur cur' → Q () past cur') :
    (writeAudit auth action entityType entityId reason).wp C Q R past cur :=
  update_wp (hC.audit past cur _) hR fun _ => hQ _ (.cons_write cur _ _ rfl)

theorem auto_wp {s : Stmt} {Q : Out s → Calls Out → Calls Out → Prop}
    (hC : C.before past [] s) (hdue : ∀ out, C.due past [⟨s, out⟩]) (hR : ∀ e, R e past [])
    (hQ : ∀ out, Q out (⟨s, out⟩ :: past) []) : (auto s : Program _).wp C Q R past [] :=
  (wp_auto s).mpr ⟨hC, fun out _ => ⟨hdue out, hQ out, hR⟩, hR⟩

theorem policy_wp {organizationId : Id} {Q : OrganizationRiskPolicy → Calls Out → Calls Out → Prop}
    (hC : Lenient C) (hinsert : ∀ past cur, C.before past cur (.write (.insertPolicy organizationId)))
    (hR : ∀ e cur, R e past cur)
    (hQ : ∀ p cur', Extends cur cur' → (Saw cur' (.findPolicy organizationId) (some p) ∨
      Did cur' (.insertPolicy organizationId) p) → Q p past cur') :
    (ApprovalsService.policy organizationId).wp C Q R past cur := by
  rw [ApprovalsService.policy, wp_bind]
  refine query_wp rfl (hC.read past cur _ trivial) hR fun found cur₁ h₁ hseen _ => ?_
  cases found with
  | some p => exact hQ p cur₁ h₁ (.inl hseen)
  | none =>
      refine update_wp (hinsert past cur₁) hR fun p => ?_
      exact hQ p _ (h₁.trans (.cons_write cur₁ _ _ rfl)) (.inr List.mem_cons_self)

theorem requestDetails_wp {id : Id} {r : ApprovalRequest}
    {Q : ApprovalsService.RequestDetails → Calls Out → Calls Out → Prop} (hC : Lenient C)
    (hR : ∀ e cur, R e past cur)
    (hQ : ∀ v risk decisions cur', Extends cur cur' →
      Saw cur' (.findInvoice r.organizationId r.invoiceId) (some v) →
      Q ⟨id, r, ApprovalsService.summary r.invoiceId v, risk, decisions⟩ past cur') :
    (ApprovalsService.requestDetails id r).wp C Q R past cur := by
  rw [ApprovalsService.requestDetails, wp_bind]
  refine query_wp rfl (hC.read past cur _ trivial) hR fun found cur₁ h₁ hseen _ => ?_
  rw [wp_bind]
  refine orThrow_wp hR fun v hv => ?_
  subst hv
  rw [wp_bind]
  refine query_wp rfl (hC.read past cur₁ _ trivial) hR fun found cur₂ h₂ _ _ => ?_
  rw [wp_bind]
  refine orThrow_wp hR fun risk _ => ?_
  rw [wp_bind]
  refine query_wp rfl (hC.read past cur₂ _ trivial) hR fun decisions cur₃ h₃ _ _ => ?_
  exact hQ v risk decisions cur₃ ((h₁.trans h₂).trans h₃) (h₃.sub (h₂.sub hseen))

theorem eligibleApprovers_wp {organizationId : Id} {r : ApprovalRequest}
    {Q : List Id → Calls Out → Calls Out → Prop} (hC : Lenient C)
    (hinsert : ∀ past cur, C.before past cur (.write (.insertPolicy organizationId)))
    (hR : ∀ e cur, R e past cur) (hQ : ∀ ids cur', Extends cur cur' → Q ids past cur') :
    (ApprovalsService.eligibleApprovers organizationId r).wp C Q R past cur := by
  rw [ApprovalsService.eligibleApprovers, wp_bind]
  refine policy_wp hC hinsert hR fun p cur₁ h₁ _ => ?_
  exact query_wp rfl (hC.read past cur₁ _ trivial) hR fun ids cur₂ h₂ _ _ => hQ ids cur₂ (h₁.trans h₂)

end Rules

section Loop

variable {C : Conduct Out} {past cur : Calls Out} {R : Failure → Calls Out → Calls Out → Prop}

/-- A loop that issues the update `f id` for each of several rows. -/
theorem updateEach_wp {f : Id → Update} {ids : List Id} {P : Id → Program Nat}
    {Q : List Nat → Calls Out → Calls Out → Prop} (hnodup : ids.Nodup)
    (hround : ∀ id ∈ ids, ∀ (cur' : Calls Out) (done : List Id), id ∉ done → cur ⊆ cur' →
      (∀ (q : Query) (out : q.Out), Saw cur' q out → Saw cur q out) →
      (∀ (u : Update) (out : u.Out), tracked u = true → Did cur' u out →
        Did cur u out ∨ ∃ j ∈ done, u = f j) →
      (P id).wp C (fun _ past' cur₁ => past' = past ∧ ∃ out, cur₁ = ⟨.write (f id), out⟩ :: cur')
        R past cur')
    (hQ : ∀ (counts : List Nat) (cur' : Calls Out), cur ⊆ cur' →
      (∀ id ∈ ids, ∃ out, Did cur' (f id) out) →
      (∀ (u : Update) (out : u.Out), tracked u = true → Did cur' u out →
        Did cur u out ∨ ∃ j ∈ ids, u = f j) → Q counts past cur') :
    (each P ids).wp C Q R past cur := by
  have hloop := wp_each (C := C) (R := R) P ids
    (fun done past' cur' => past' = past ∧ cur ⊆ cur' ∧
      (∀ (q : Query) (out : q.Out), Saw cur' q out → Saw cur q out) ∧
      (∀ id ∈ done, ∃ out, Did cur' (f id) out) ∧
      ∀ u out, tracked u = true → Did cur' u out → Did cur u out ∨ ∃ j ∈ done, u = f j)
    ?_ ids [] rfl ⟨rfl, List.Subset.refl _, fun _ _ h => h, by simp, fun u out _ h => .inl h⟩
  · refine wp_mono ?_ (fun _ _ _ h => h) hloop
    rintro counts past' cur' ⟨rfl, hsub, -, hdone, honly⟩
    exact hQ counts cur' hsub hdone honly
  · rintro id done rest past' cur' hall ⟨rfl, hsub, hreads, hdone, honly⟩
    have hmem : id ∈ ids := by simp [hall]
    have hfresh : id ∉ done := by
      rw [hall] at hnodup
      intro h
      exact (List.disjoint_of_nodup_append hnodup) h List.mem_cons_self
    refine wp_mono ?_ (fun _ _ _ h => h) (hround id hmem cur' done hfresh hsub hreads honly)
    rintro _ past₁ cur₁ ⟨rfl, out, rfl⟩
    refine ⟨rfl, fun _ h => List.mem_cons_of_mem _ (hsub h), fun q o hs => ?_, fun j hj => ?_,
      fun u o hu hdid => ?_⟩
    · exact hreads q o (by simpa using hs)
    · rcases List.mem_append.mp hj with hj | hj
      · obtain ⟨o, ho⟩ := hdone j hj
        exact ⟨o, List.mem_cons_of_mem _ ho⟩
      · rw [List.mem_singleton.mp hj]
        exact ⟨out, List.mem_cons_self⟩
    · simp only [List.mem_cons, Sigma.mk.injEq, Stmt.write.injEq] at hdid
      rcases hdid with ⟨rfl, -⟩ | hold
      · exact .inr ⟨id, by simp, rfl⟩
      · refine (honly u o hu hold).imp_right ?_
        rintro ⟨j, hj, rfl⟩
        exact ⟨j, List.mem_append_left _ hj, rfl⟩

end Loop
end BlocTrust
