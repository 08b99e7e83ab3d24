import Callora.Vault.Run

/-! Request ids. Charges carry them and the owner can prune their markers, but no entrypoint sets a
marker or looks at one before it charges. -/

namespace Callora.Vault
open Library Machine

variable {Address Ledger : Type} [DecidableEq Address] {contract : Address}
  {T : TokenContract Address Ledger} {env : Env Address contract} {s s' : State Address Ledger}

def Op.requestIds (op : Op Address) : List ℕ :=
  match op.charge with
  | some (_, items) => items.map Prod.snd
  | none => []

def chargedIds (e : LogEntry Address Ledger contract) : List ℕ :=
  match e.input with
  | .call _ op => op.requestIds
  | .thirdParty .. => []

def Prunes (symbolOf : ℕ → String) (id : ℕ) (e : LogEntry Address Ledger contract) : Prop :=
  ∃ env caller ids, e.input = .call env (.pruneProcessedRequests caller ids) ∧ symbolOf id ∈ ids

/-- Some step of the log charged `id`, and no later one pruned it. -/
def Charged (symbolOf : ℕ → String) (id : ℕ) (l : List (LogEntry Address Ledger contract)) :
    Prop := Since (fun e => id ∈ chargedIds e) (fun e => ¬Prunes symbolOf id e) l

/-- The ids repeat one another, or one that stands charged at the end of the log. -/
def Repeats (symbolOf : ℕ → String) (ids : List ℕ)
    (l : List (LogEntry Address Ledger contract)) : Prop :=
  ¬ids.Nodup ∨ ∃ id ∈ ids, Charged symbolOf id l

/-- No step of the log charges an id a second time. -/
def ChargesOnce (symbolOf : ℕ → String) (l : List (LogEntry Address Ledger contract)) : Prop :=
  ∀ l₁ e l₂, l = l₁ ++ e :: l₂ → ¬Repeats symbolOf (chargedIds e) l₁

theorem processedRequest_run (T : TokenContract Address Ledger) (contract : Address)
    (ledger : Ledger) (inputs : List (Input Address contract)) (id : String) :
    ((vault T contract).run (.deployed ledger) inputs).processedRequest id = none := by
  refine Machine.invariant (P := fun s : State Address Ledger => s.processedRequest id = none)
    rfl ?_ inputs
  intro s input r s' hs hstep
  obtain ⟨env, op, rfl, heff⟩ | ⟨token, «from», «to», amount, external, ledger, rfl, -, rfl⟩ :=
    effect_of_step hstep
  · cases heff with
    | @prune caller ids markers events owner pruned =>
      apply Call.forM_invariant (P := fun t : State Address Ledger => t.processedRequest id = none)
        pruned hs
      intro id' _ t t' ht hpass
      simp only [pruneRequest, Call.run_bind_eq_ok, Call.run_load_eq_ok, Call.run_ite_eq_ok,
        Call.run_modify_eq_ok, run_publish_eq_ok, Call.run_pure_eq_ok, existsAndEq,
        true_and] at hpass
      rcases hpass with ⟨_, _, rfl⟩ | ⟨_, rfl⟩
      · by_cases hid : id = id'
        · rw [hid]
          exact Store.remove_self _ _
        · exact (Store.remove_of_ne hid).trans ht
      · exact ht
    | _ => exact hs
  · exact hs

omit [DecidableEq Address] in
theorem charge_of_requestIds {op : Op Address} (h : op.requestIds ≠ []) :
    ∃ caller items, op.charge = some (caller, items) := by
  unfold Op.requestIds at h
  rcases hop : op.charge with _ | ⟨caller, items⟩
  · rw [hop] at h
    exact absurd rfl h
  · exact ⟨caller, items, rfl⟩

omit [DecidableEq Address] in
theorem requestIds_of_repeats {symbolOf : ℕ → String} {ids : List ℕ}
    {l : List (LogEntry Address Ledger contract)} (h : Repeats symbolOf ids l) : ids ≠ [] := by
  rintro rfl
  rcases h with hdup | ⟨id, hid, -⟩
  · exact hdup List.nodup_nil
  · exact List.not_mem_nil hid

/-- A run charges every id at most once between prunes, and rejects what it rejects without a
trace, exactly if each of its calls that repeats an id meets a state whose other guards refuse
it. -/
theorem chargesOnce_iff (T : TokenContract Address Ledger) (contract : Address)
    (symbolOf : ℕ → String) (ledger : Ledger) (inputs : List (Input Address contract)) :
    let run := (vault T contract).run (.deployed ledger)
    let log := (vault T contract).log (.deployed ledger)
    (ChargesOnce symbolOf (log inputs) ∧
      ∀ js input ks, inputs = js ++ input :: ks → (vault T contract).step (run js) input = none →
        run (js ++ [input]) = run js) ↔
    ∀ js env op ks, inputs = js ++ .call env op :: ks → Repeats symbolOf op.requestIds (log js) →
      ¬(run js).Charges T env op := by
  intro run log
  have hrollback (js : List (Input Address contract)) (input : Input Address contract)
      (h : (vault T contract).step (run js) input = none) : run (js ++ [input]) = run js := by
    change (vault T contract).run _ _ = _
    rw [run_concat]
    exact next_of_rollback h
  rw [and_iff_left fun js input ks _ h => hrollback js input h]
  constructor
  -- a repetition that the guards let through commits, and is in the log
  · rintro honce js env op ks rfl hrepeats hcharges
    obtain ⟨caller, items, hop⟩ := charge_of_requestIds (requestIds_of_repeats hrepeats)
    obtain ⟨s', hrun⟩ := (charge_succeeds hop).2 hcharges
    exact honce _ _ _ (log_step js ks (Call.commit_eq_some.2 hrun)) hrepeats
  -- a repetition in the log was let through by the guards
  · rintro hrefused l₁ ⟨s, input, r, s'⟩ l₂ hlog hrepeats
    obtain ⟨js, ks, rfl, rfl, rfl, hstep⟩ := log_split hlog
    cases input with
    | call env op =>
      obtain ⟨caller, items, hop⟩ := charge_of_requestIds (requestIds_of_repeats hrepeats)
      have hcharges := (charge_succeeds hop).1 ⟨s', Call.commit_eq_some.1 hstep⟩
      exact hrefused js env op ks rfl hrepeats hcharges
    | thirdParty => exact requestIds_of_repeats hrepeats rfl

/-- A retried `deduct` and a batch with one id twice are both charged in full. -/
theorem repeated_id_charged :
    let init : Input ℕ 0 := .call (.signedBy 1 0 (by decide)) (.init (ownedBy1 ⟨100, by decide⟩))
    let deduct : Input ℕ 0 := .call (.signedBy 2 0 (by decide)) (.deduct 2 ⟨10, by decide⟩ 7)
    let batch : Input ℕ 0 := .call (.signedBy 2 0 (by decide))
      (.batchDeduct 2 [(⟨10, by decide⟩, 7), (⟨20, by decide⟩, 7)])
    let run := (vault (balanceToken ℕ).toTokenContract 0).run (.deployed (hundredOf 0))
    let log := (vault (balanceToken ℕ).toTokenContract 0).log (.deployed (hundredOf 0))
    (¬ChargesOnce toString (log [init, deduct, deduct]) ∧
      (run [init, deduct, deduct]).tracked.val = 80) ∧
    ¬ChargesOnce toString (log [init, batch]) ∧ (run [init, batch]).tracked.val = 70 := by
  intro init deduct batch run log
  refine ⟨⟨fun honce => ?_, by decide⟩, fun honce => ?_, by decide⟩
  · refine honce (log [init, deduct]) _ [] rfl (.inr ⟨7, List.mem_singleton_self 7, ?_⟩)
    exact ⟨log [init], _, [], rfl, List.mem_singleton_self 7, List.forall_mem_nil _⟩
  · exact honce (log [init]) _ [] rfl (.inl (by decide))

end Callora.Vault
