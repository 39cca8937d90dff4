import FleetSync.Proofs.Interleaving.Creation
import FleetSync.Proofs.Interleaving.Forgetting
import FleetSync.Proofs.Interleaving.Handling
import FleetSync.Proofs.Isolation.Agreement
import FleetSync.Proofs.Store.Selection

/-!
# Operations keep to their account

An operation that is addressed to an account handles resources of that account only
(`System.account_of_handled`): it asks for those of the account, or by the id of one that it handles
already, and a document keeps its account (`System.identity_kept`). So every call that it makes is
within the account (`System.within_of_makes`), and no document or mapping of another account changes
in any move that such an operation makes (`System.confined`).
-/

namespace FleetSync

/-- A condition on a text that a resource does not have tells so if the resource can be read, and
the rest of the filter is not looked at. -/
theorem Filter.holds?_of_text_ne {r : Resource} {n o v : String} (rest : Filter)
    (hn : n ∈ Resource.storedNames) (hf : r.field n = .str o) (hne : o ≠ v) :
    Filter.holds? (.eq [.field ⟨n.toList⟩] (.str v) :: rest) r.stored.body =
      if r.stored.body.isReadable then some false else none := by
  have hc : (Condition.eq [.field ⟨n.toList⟩] (.str v)).holds? r.stored.body =
      if r.stored.body.isReadable then some (some o == some v) else none :=
    Condition.holds?_text (o := some o) (some v) hn hf
  have hb : (some o == some v) = false := beq_eq_false_iff_ne.2 fun h => hne (Option.some.inj h)
  rw [holds?, hc, hb]
  split <;> rfl

namespace System

variable {p : ControlPlane} {moves : List Move} {i : Nat} {t : Task} {r : Resource}
  {account : String}

/-- A filter that asks for an account first is within it. -/
theorem within_of_asksFor {f : Filter} (h : AsksFor (some account) f) :
    f.Within account (after p moves).documents := by
  intro d hd hne
  obtain ⟨r, -, rfl⟩ := sound p moves moves (List.prefix_refl _) d hd
  obtain ⟨rest, rfl⟩ := h account rfl
  rw [Resource.account_stored] at hne
  exact Filter.holds?_of_text_ne rest (by decide : "account_name" ∈ _) rfl hne

/-- A filter that asks for an id first is within the account of the document that has it. -/
theorem within_of_id {id : String} (rest : Filter)
    (h : ∀ d ∈ (after p moves).documents, d.id = id → d.account = account) :
    Filter.Within (.byId id ++ rest) account (after p moves).documents := by
  intro d hd hne
  have hid := mt (h d hd) hne
  obtain ⟨r, -, rfl⟩ := sound p moves moves (List.prefix_refl _) d hd
  exact Filter.holds?_of_text_ne rest (by decide : "id" ∈ _) rfl hid

/-- What a task handles was stored with the account that it has. -/
theorem owner_of_handled (ht : (after p moves).tasks[i]? = some t) (h : Handled t.past r) :
    ∃ ms, ms <+: moves ∧ ∃ d ∈ (after p ms).documents, d.id = r.id ∧
      d.account = r.accountName := by
  obtain ⟨r₀, obtained, keeps⟩ := h
  have haccount : r.accountName = r₀.accountName := congrArg MappingKey.account keeps.key
  rw [keeps.id, haccount]
  have read : ∀ {kind r}, Reads t.past kind r → ∃ ms, ms <+: moves ∧
      ∃ d ∈ (after p ms).documents, d.id = r.id ∧ d.account = r.accountName := by
    intro kind r read
    obtain ⟨ms, m, hp, past, x, asked, read⟩ := asked_of_task ht read
    obtain ⟨d, hd, hcol, j, hj, hdec⟩ := read_of_asked asked read
    refine ⟨ms, (List.prefix_append _ _).trans hp, d, hd, ?_⟩
    obtain ⟨r', -, rfl⟩ := sound p ms ms (List.prefix_refl _) d hd
    have resembles := Resource.resembles_of_read (Kind.collection_inj hcol) hj hdec
    exact ⟨resembles.id.symm, (Resource.account_stored _).trans resembles.accountName.symm⟩
  cases obtained with
  | inserted done =>
    obtain ⟨ms, hp, hd⟩ := stored_of_inserted ht done
    exact ⟨ms, hp, _, hd, rfl, r₀.account_stored⟩
  | read h => exact read h
  | @revised e _ _ _ _ change h _ =>
    obtain ⟨ms, hp, d, hd, hid, ha⟩ := read h
    refine ⟨ms, hp, d, hd, hid.trans (e.id_apply _).symm, ha.trans ?_⟩
    rw [Edit.apply, change]

/-- A document with the id of what a task handles has the account of it. -/
theorem account_of_id (ht : (after p moves).tasks[i]? = some t) (h : Handled t.past r)
    {d : StoredDocument} (hd : d ∈ (after p moves).documents) (hid : d.id = r.id) :
    d.account = r.accountName := by
  obtain ⟨ms, hp, d₀, hd₀, hid₀, ha⟩ := owner_of_handled ht h
  exact (congrArg Identity.account (identity_kept p hp hd₀ hd (hid₀.trans hid.symm))).trans ha

/-- What an operation that is addressed to an account adds is of the account, and cannot be taken
for what is of another one. -/
theorem within_of_insert {operation : Operation} {past : List Exchange} {d : Document}
    {a : Except OpError Unit} {m : Move} (ha : operation.account? = some account)
    (makes : (after p moves).Makes i operation past ⟨.insert d, a⟩ (after p (moves ++ [m]))) :
    Call.Within account (after p moves).documents (.insert d) := by
  obtain ⟨user, s, input, -, -, -, rfl, -⟩ := follows_of_makes makes (operation.follows p)
  obtain ⟨r, rfl, hidentity, hadmitted, new⟩ := draft_of_makes makes
  have haccount : r.stored.account = account :=
    (congrArg Identity.account hidentity).trans (Option.some.inj ha)
  refine ⟨haccount, fun e he hne hcol => ⟨fun hid => new (List.mem_map.2 ⟨e, he, hid⟩), ?_⟩⟩
  intro hkey
  -- The key tells the identity, and with that the account.
  obtain ⟨r', -, rfl⟩ := sound p moves moves (List.prefix_refl _) e he
  have hfile : r'.stored.identity.file = r.stored.identity.file := by
    rw [Resource.file_stored, Resource.file_stored]
    exact Prod.ext hcol hkey
  have heq := Identity.file_inj (admitted p moves _ he) (hidentity ▸ hadmitted) hfile
  exact hne ((congrArg Identity.account heq).trans haccount)

/-- What is handled in an operation that is addressed to an account is of that account. -/
theorem account_of_handled (ht : (after p moves).tasks[i]? = some t)
    (ha : t.operation.account? = some account) (h : Handled t.past r) :
    r.accountName = account := by
  -- The induction is on the length of the run: what was read was asked for before.
  induction hn : moves.length using Nat.strong_induction_on generalizing moves t r with
  | _ n ih =>
    subst hn
    obtain ⟨r₀, obtained, keeps⟩ := h
    refine (congrArg MappingKey.account keeps.key).trans ?_
    have read : ∀ {kind r}, Reads t.past kind r → r.accountName = account := by
      intro kind r read
      obtain ⟨ms, m, hp, past, x, asked, y, hy, j, hj, hdec⟩ := asked_of_task ht read
      obtain rfl := List.mem_singleton.1 hy
      obtain ⟨filter, hcall, d, hd, hm, hread⟩ := match_of_makes asked hj
      have law := follows_of_makes asked (Operation.targets p t.operation)
      rw [ha] at law
      have within : filter.Within account (after p ms).documents := by
        rcases hcall with hcall | hcall <;> rw [hcall] at law
        · rcases law with law | ⟨r', handled, -, rfl⟩
          · exact within_of_asksFor law
          · obtain ⟨rest, hs⟩ := asked.before
            have hlt : ms.length < moves.length := by
              have := hp.length_le
              rw [List.length_append, List.length_singleton] at this
              omega
            have ha' := ih ms.length hlt hs ha handled rfl
            exact within_of_id [] fun d hd hid => (account_of_id hs handled hd hid).trans ha'
        · exact within_of_asksFor law
      have haccount := within.account_eq hd hm
      obtain ⟨r', -, rfl⟩ := sound p ms ms (List.prefix_refl _) d hd
      have hkind := Kind.collection_inj (DocumentStore.collection_of_matches? hm)
      have resembles := Resource.resembles_of_read hkind hread hdec
      exact resembles.accountName.trans ((Resource.account_stored _).symm.trans haccount)
    cases obtained with
    | inserted done =>
      obtain ⟨past, later, hpast⟩ := List.append_of_mem done
      obtain ⟨ms, m, -, makes⟩ := made p moves ht hpast
      exact (Resource.account_stored r₀).symm.trans (within_of_insert ha makes).1
    | read h => exact read h
    | @revised e _ _ _ _ change h _ =>
      have h := read h
      rwa [Edit.apply, change]

/-- Every call of an operation that is addressed to an account is within the account. -/
theorem within_of_makes {operation : Operation} {past : List Exchange} {x : Exchange} {m : Move}
    (ha : operation.account? = some account)
    (makes : (after p moves).Makes i operation past x (after p (moves ++ [m]))) :
    x.call.Within account (after p moves).documents := by
  obtain ⟨rest, hs⟩ := makes.before
  have law := follows_of_makes makes (Operation.targets p operation)
  rw [ha] at law
  have handled : ∀ {r}, Handled past r → r.accountName = account :=
    fun h => account_of_handled hs ha h
  have id : ∀ {r} (rest : Filter), Handled past r →
      Filter.Within (.byId r.id ++ rest) account (after p moves).documents :=
    fun rest h => within_of_id rest fun d hd hid => (account_of_id hs h hd hid).trans (handled h)
  have owns : ∀ {s : Scope}, (Owns (some account) s ∨ ∃ r, Handled past r ∧ s = r.scope) →
      s.accountName = account := by
    rintro s (h | ⟨r, h, rfl⟩)
    · exact h account rfl
    · rw [← handled h, Resource.scope]
      cases r.environmentName <;> rfl
  obtain ⟨c, a⟩ := x
  cases c with
  | insert d => exact within_of_insert ha makes
  | patchOne collection filter patch =>
    obtain ⟨r, h, -, rfl | ⟨v, rfl⟩⟩ := law
    · exact id [] h
    · exact id _ h
  | findOne collection filter =>
    rcases law with law | ⟨r, h, -, rfl⟩
    · exact within_of_asksFor law
    · exact id [] h
  | find collection filter => exact within_of_asksFor law
  | deleteOne collection filter =>
    obtain ⟨r, h, -, rfl⟩ := law
    exact id [] h
  | deleteMany collection filter => exact within_of_asksFor law
  | upsert m =>
    obtain ⟨r, cluster, h, rfl⟩ := law
    exact handled h
  | removeMapping k =>
    obtain ⟨r, h, rfl⟩ := law
    exact handled h
  | resolve s => exact owns law
  | removeScope s => exact owns law
  | reassignScope s cluster => exact owns law
  | _ => trivial

/-- Documents that stay keep their account. -/
theorem keeps_accounts (p : ControlPlane) (moves : List Move) (m : Move) :
    (after p moves).world.documents.KeepsAccounts (after p (moves ++ [m])).world.documents :=
  fun _ hd _ hd' hid =>
    congrArg Identity.account (identity_kept p (List.prefix_append moves [m]) hd hd' hid)

/-- No move of an operation that is addressed to an account changes anything of another. -/
theorem confined {operation : Operation} {past : List Exchange} {x : Exchange} {m : Move}
    {other : String} (ha : operation.account? = some account)
    (makes : (after p moves).Makes i operation past x (after p (moves ++ [m])))
    (ho : account ≠ other) :
    World.Agree other (after p (moves ++ [m])).world (after p moves).world := by
  have within := within_of_makes ha makes
  have keeps := keeps_accounts p moves m
  obtain ⟨next, y, -, -, hw⟩ := reply_of_makes makes
  rw [hw] at keeps ⊢
  exact World.reply_others within keeps ho

end System

end FleetSync
