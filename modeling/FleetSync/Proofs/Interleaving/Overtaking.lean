import FleetSync.Proofs.Interleaving.Attempts
import FleetSync.Proofs.Interleaving.Marking
import FleetSync.Proofs.Interleaving.Tasks
import FleetSync.Proofs.Sequence.Stores
import Mathlib.Order.Interval.Finset.Nat

/-!
# Overtaking

An attempt at an update is in vain only if the version went up after the resource was read
(`System.Endures.version_lt_of_missed`), and only an update takes it up, by one. So an update whose
attempts were in vain was overtaken, while it was under way, by as many others of the same document,
each of which raised another version (`System.Endures.contenders`). All this is about a document
that stays while nobody asks to delete anything (`System.Endures`).
-/

namespace FleetSync

/-- Whether an operation is an update that asks for a document. -/
def Operation.updates (d : StoredDocument) : Operation → Bool
  | .update _ s input => decide (input.identity s = d.identity)
  | _ => false

namespace System

variable {p : ControlPlane} {ms ms₁ moves : List Move} {m : Move} {i j : Nat} {t : Task}
  {operation : Operation} {past : List Exchange} {x : Exchange} {d d' : StoredDocument}
  {id : String} {v : Version} {s : Scope} {input : ResourceInput} {r : Resource} {n : Nat}

/-! ### Readings and misses -/

/-- What an update finds under a name is the stored resource of that identity. -/
theorem stored_of_found {json : Json}
    (makes : (after p ms).Makes i operation past ⟨input.lookup s, .ok (some json)⟩
      (after p (ms ++ [m])))
    (decoded : Resource.ofDocument input.kind json = .ok r) :
    ∃ r₀ : Resource, r₀.stored ∈ (after p ms).documents ∧
      r₀.stored.identity = input.identity s ∧ r₀.Resembles r := by
  obtain ⟨filter, hcall, d, hd, hmatch, hread⟩ := match_of_makes makes (.inl ⟨_, rfl⟩)
  obtain rfl : filter = .named s input.name := by
    rcases hcall with h | h <;> cases h
    rfl
  obtain ⟨r₀, -, rfl⟩ := (tidy p ms).sound d hd
  obtain ⟨hkind, account, project, environment, hname⟩ := Filter.Picks.named_of_matches hmatch
  refine ⟨r₀, hd, ?_, Resource.resembles_of_read hkind hread decoded⟩
  rw [Resource.identity_stored]
  exact Identity.mk.injEq .. ▸ ⟨hkind, account, project, environment, hname⟩

/-- Where a lookup finds nothing no resource has that identity. -/
theorem identity_ne_of_unfound
    (makes : (after p ms).Makes i operation past ⟨input.lookup s, .ok none⟩ (after p (ms ++ [m])))
    (hd : d ∈ (after p ms).documents) : d.identity ≠ input.identity s := by
  obtain ⟨next, y, -, ha, -⟩ := reply_of_makes makes
  have answered := (after p ms).world.reply_of_not_failed y (c := input.lookup s) nofun
    fun e he => by rw [← ha] at he; cases he
  rw [answered] at ha
  have found := (tidy p ms).findOne (Filter.Picks.named s input.name) ha.symm
  intro hident
  obtain ⟨kind, account, project, environment, hname⟩ := Identity.mk.injEq .. ▸ hident
  split at found
  · rename_i hnone
    refine List.find?_eq_none.1 hnone d hd ?_
    simp [kind, account, project, environment, hname]
  · obtain ⟨-, j, hj, -⟩ := found
    cases hj

/-- Where nothing is found at a version that can be asked for, a stored resource has another one. -/
theorem version_ne_of_missed {patch : Patch} {r₀ : Resource}
    (makes : (after p ms).Makes i operation past
      ⟨.patchOne r.kind.collection (.byIdAt r.id r.recordVersion) patch, .ok false⟩
      (after p (ms ++ [m])))
    (writes : patch.isEmpty = false) (hr₀ : r₀.stored ∈ (after p ms).documents)
    (hkind : r₀.kind = r.kind) (hid : r₀.id = r.id)
    (least : -(Nat.pow 2 63 : Int) ≤ r.recordVersion)
    (greatest : r.recordVersion ≤ (Nat.pow 2 63 - 1 : Nat)) :
    r₀.recordVersion ≠ r.recordVersion := by
  obtain ⟨next, y, -, ha, -⟩ := reply_of_makes makes
  obtain ⟨documents, hs, -⟩ := (after p ms).world.patchOne_of_reply y ha.symm
  obtain ⟨test, ht, hnone⟩ := DocumentStore.none_of_patchOne_eq_ok writes hs
  intro hv
  rw [← hkind, ← hid, ← hv] at ht
  have asked := DocumentStore.isSome_of_select (DocumentStore.select_of_selectOne ht) hr₀ rfl
  obtain rfl := DocumentStore.selectOne_eq_ok ht
  refine List.find?_eq_none.1 hnone _ hr₀ ?_
  have readable := Filter.isReadable_of_isSome (c := .eq ["id"] (.str r₀.id)) asked
  exact Resource.matches_byIdAt readable (hv ▸ least) (hv ▸ greatest)

/-- The document of an update that raised a version is the one that it asked for. -/
theorem found_of_raised (ht : (after p moves).tasks[i]? = some t) (h : t.Raised id v) :
    ∃ user s input ms₁, t.operation = .update user s input ∧ ms₁ <+: moves ∧
      (∃ u, (after p ms₁).tasks[i]? = some u) ∧ ∃ r₀ : Resource,
        r₀.stored ∈ (after p ms₁).documents ∧ r₀.stored.identity = input.identity s ∧
          r₀.id = id := by
  obtain ⟨hu, x, hx, w, ⟨⟨collection, patch, hcall⟩, -⟩, -⟩ := h
  obtain ⟨operation, past, rest⟩ := t
  cases operation with
  | update user s input =>
    obtain ⟨before, later, rfl⟩ := List.append_of_mem hx
    obtain ⟨ms₂, m₂, hp₂, makes⟩ := made p moves ht rfl
    have law := follows_of_makes makes (Operation.update_attempts p user s input)
    obtain ⟨r, ⟨j, hj, decoded⟩, hid, -⟩ := law _ _ _ _ hcall
    obtain ⟨rest₂, ht₂⟩ := makes.before
    obtain ⟨before', later', rfl⟩ := List.append_of_mem hj
    obtain ⟨ms₁, m₁, hp₁, look⟩ := made p ms₂ ht₂ rfl
    obtain ⟨r₀, hr₀, hident, resembles⟩ := stored_of_found look decoded
    obtain ⟨rest₁, ht₁⟩ := look.before
    refine ⟨user, s, input, ms₁, rfl, ?_, ⟨_, ht₁⟩, r₀, hr₀, hident, resembles.id.symm.trans hid⟩
    exact (List.prefix_append ms₁ [m₁]).trans (hp₁.trans ((List.prefix_append ms₂ [m₂]).trans hp₂))
  | _ => cases hu

/-- Every version between that of a document and a later one of it is raised by an update. -/
theorem raised_between (hp : ms <+: moves) (hd : d ∈ (after p ms).documents)
    (hd' : d' ∈ (after p moves).documents) (hid : d.id = d'.id) (hlt : d.version < v)
    (hle : v ≤ d'.version) : ∃ ms' m j t, ms <+: ms' ∧ ms' ++ [m] <+: moves ∧
      (after p ms').Raises j d.id v (after p (ms' ++ [m])) ∧
        (after p (ms' ++ [m])).tasks[j]? = some t ∧ t.Raised d.id v := by
  obtain ⟨later, rfl⟩ := hp
  induction later using List.reverseRecOn generalizing d' with
  | nil =>
    rw [List.append_nil] at hd'
    obtain rfl := eq_of_id_eq p ms hd hd' hid
    exact absurd hle (Int.not_le.2 hlt)
  | append_singleton later m ih =>
    rw [← List.append_assoc] at hd' ⊢
    obtain ⟨d₁, hd₁, hid₁⟩ := stored_before p (List.prefix_append ms later) m hd hd' hid
    by_cases hle₁ : v ≤ d₁.version
    · obtain ⟨ms', m', j, t, hge, hle', h⟩ := ih (hid.trans hid₁.symm) hle₁ hd₁
      exact ⟨ms', m', j, t, hge, hle'.trans (List.prefix_append _ [m]), h⟩
    rcases version_step m hd₁ hd' hid₁ with hv | ⟨hv, j, operation, past, x, makes, hu, claims, -⟩
    · exact absurd (hv ▸ hle) hle₁
    · have hnext : v = d₁.version.next := by
        rw [hv] at hle
        exact Int.le_antisymm hle (Int.not_le.1 hle₁)
      rw [hid.trans hid₁.symm, hnext]
      obtain ⟨rest, ht⟩ := makes.after
      exact ⟨_, m, j, _, List.prefix_append ms later, List.prefix_refl _,
        raises_of_makes makes hu claims, ht, hu, x, List.mem_concat_self, _, claims, rfl⟩

/-- Of two calls of a task the later one was made later. -/
theorem made_after {past past' : List Exchange} {x y : Exchange} {rest : Program Outcome}
    (ht : (after p moves).tasks[i]? = some ⟨operation, past' ++ [y], rest⟩)
    (hpast : past ++ [x] <+: past') : ∃ ms₁ m₁ ms₂ m₂, ms₁ ++ [m₁] <+: ms₂ ∧
      ms₂ ++ [m₂] <+: moves ∧
      (after p ms₁).Makes i operation past x (after p (ms₁ ++ [m₁])) ∧
      (after p ms₂).Makes i operation past' y (after p (ms₂ ++ [m₂])) := by
  obtain ⟨ms₂, m₂, hp₂, later⟩ := made p moves ht rfl
  obtain ⟨mid, rfl⟩ := hpast
  obtain ⟨rest₂, ht₂⟩ := later.before
  obtain ⟨ms₁, m₁, hp₁, earlier⟩ := made p ms₂ ht₂ (List.append_assoc past [x] mid)
  exact ⟨ms₁, m₁, ms₂, m₂, hp₁, hp₂, earlier, later⟩

/-! ### A document that stays -/

/-- From a moment at rest on a live document stays, and nobody asks to delete anything. -/
structure Endures (p : ControlPlane) (ms moves : List Move) (d : StoredDocument) : Prop where
  before : ms <+: moves
  rest : (after p ms).AtRest
  mem : d ∈ (after p ms).documents
  live : d.isMarked = false
  undeleted : ∀ ms' operation, ms <+: ms' → ms' ++ [.start operation] <+: moves →
    operation.isDelete = false
  remains : ∃ d' ∈ (after p moves).documents, d'.id = d.id

/-- The updates of a document that started since some moment, by their numbers. -/
def updatesSince (p : ControlPlane) (ms moves : List Move) (d : StoredDocument) : Finset Nat :=
  (Finset.Ico (after p ms).tasks.length (after p moves).tasks.length).filter fun i =>
    (after p moves).tasks[i]?.any (·.operation.updates d)

theorem mem_updatesSince : i ∈ updatesSince p ms moves d ↔ (after p ms).tasks.length ≤ i ∧
    ∃ t, (after p moves).tasks[i]? = some t ∧ t.operation.updates d = true := by
  rw [updatesSince, Finset.mem_filter, Finset.mem_Ico, Option.any_eq_true, and_assoc]
  refine and_congr_right fun _ => ⟨fun h => h.2.imp fun t h => ⟨h.1, h.2⟩, ?_⟩
  rintro ⟨t, ht, hu⟩
  exact ⟨(List.getElem?_eq_some_iff.1 ht).1, t, ht, hu⟩

/-- Whether a task raised the version of a document while another one was under way. -/
def RaisedAmid (p : ControlPlane) (ms moves : List Move) (i j : Nat) (id : String) : Prop :=
  ∃ ms' m t v, ms <+: ms' ∧ ms' ++ [m] <+: moves ∧ (after p ms').tasks[i]? = some t ∧
    t.Unfinished ∧ (after p ms').Raises j id v (after p (ms' ++ [m]))

namespace Endures

variable (h : Endures p ms moves d)
include h

/-- What remains was there all the time, as no id is given again. -/
theorem stays (ms₁ : List Move) (hp : ms <+: ms₁) (hle : ms₁ <+: moves) :
    ∃ d₁ ∈ (after p ms₁).documents, d₁.id = d.id := by
  obtain ⟨d', hd', hid⟩ := h.remains
  have hmem := h.mem
  clear h
  obtain ⟨later, rfl⟩ := hle
  induction later using List.reverseRecOn generalizing d' with
  | nil => exact ⟨d', List.append_nil ms₁ ▸ hd', hid⟩
  | append_singleton later m ih =>
    rw [← List.append_assoc] at hd'
    obtain ⟨d₁, hd₁, hid₁⟩ :=
      stored_before p (hp.trans (List.prefix_append ms₁ later)) m hmem hd' hid.symm
    exact ih d₁ (hid₁.trans hid) hd₁

/-- As long as no delete starts the document stays live. -/
theorem live_at (hp : ms <+: ms₁) (hle : ms₁ <+: moves) (hd' : d' ∈ (after p ms₁).documents)
    (hid : d'.id = d.id) : d'.isMarked = false := by
  refine descent p (R := fun d d' => d.isMarked = false → d'.isMarked = false) (fun _ h => h)
    (fun h h' => h' ∘ h) hp (fun ms' m hp' hle' d₁ hd₁ d₂ hd₂ hid₁ live => ?_) h.mem hd' hid.symm
    h.live
  by_contra hne
  obtain ⟨i, operation, past, x, makes, hdelete⟩ :=
    marked_by_delete hd₁ hd₂ hid₁ live (Bool.not_eq_false _ ▸ hne)
  obtain ⟨rest, ht⟩ := makes.before
  obtain ⟨ms₀, hp₀, hle₀⟩ := started_since (since_of_makes makes h.rest hp') hp' ht
  have hmoves := hle₀.trans ((List.prefix_append ms' [m]).trans (hle'.trans hle))
  exact Bool.false_ne_true ((h.undeleted ms₀ _ hp₀ hmoves).symm.trans hdelete)

/-- What has the identity of the document is the document. -/
theorem id_of_identity (hp : ms <+: ms₁) (hle : ms₁ <+: moves)
    (hd' : d' ∈ (after p ms₁).documents) (hident : d'.identity = d.identity) : d'.id = d.id := by
  obtain ⟨d₁, hd₁, hid₁⟩ := h.stays ms₁ hp hle
  have hident₁ := identity_kept p hp h.mem hd₁ hid₁.symm
  rw [eq_of_identity_eq p ms₁ hd' hd₁ (hident.trans hident₁.symm), hid₁]

/-- An update of the document is one that raises no version of another one. -/
theorem raised_iff (hi : (after p ms).tasks.length ≤ i) (ht : (after p moves).tasks[i]? = some t)
    (hr : t.Raised id v) : t.operation.updates d = true ↔ id = d.id := by
  obtain ⟨user, s, input, ms₁, hop, hle, ⟨u, hu⟩, r₀, hr₀, hident, hid⟩ := found_of_raised ht hr
  have hp := prefix_of_task hi h.before hle hu
  rw [hop, Operation.updates, decide_eq_true_eq, ← hident, ← hid]
  refine ⟨h.id_of_identity hp hle hr₀, fun hid => ?_⟩
  exact identity_kept p hp h.mem hr₀ hid.symm

/-- An update raises the document past the version it had. -/
theorem version_lt (hi : (after p ms).tasks.length ≤ i) (ht : (after p moves).tasks[i]? = some t)
    (hr : t.Raised d.id v) : d.version < v := by
  obtain ⟨ms₁, m₁, hle, ⟨operation, past, x, makes⟩, ⟨d₁, hd₁, hid₁, rfl⟩, -⟩ :=
    raises_of_raised ht hr
  obtain ⟨rest, ht₁⟩ := makes.before
  have hp := prefix_of_task hi h.before ((List.prefix_append ms₁ [m₁]).trans hle) ht₁
  exact Int.lt_add_one_iff.2 ((sound p ms₁).version_le hp h.mem hd₁ hid₁.symm)

/-- Whoever raises the document is one of its updates. -/
theorem mem_of_raises (hp : ms <+: ms₁) (hle : ms₁ ++ [m] <+: moves)
    (raises : (after p ms₁).Raises i d.id v (after p (ms₁ ++ [m])))
    (ht : (after p (ms₁ ++ [m])).tasks[i]? = some t) (hr : t.Raised d.id v) :
    i ∈ updatesSince p ms moves d ∧ ∃ t', (after p moves).tasks[i]? = some t' ∧
      t'.Raised d.id v := by
  obtain ⟨⟨operation, past, x, makes⟩, -⟩ := raises
  have hi := since_of_makes makes h.rest hp
  obtain ⟨t', ht', hop, hpast⟩ := task_later p hle ht
  have hr' := hr.mono hop hpast
  exact ⟨mem_updatesSince.2 ⟨hi, t', ht', (h.raised_iff hi ht' hr').2 rfl⟩, t', ht', hr'⟩

/-- What an update of the document finds is the document. -/
theorem found {json : Json} (hp : ms <+: ms₁) (hle : ms₁ <+: moves)
    (look : (after p ms₁).Makes i operation past ⟨input.lookup s, .ok (some json)⟩
      (after p (ms₁ ++ [m])))
    (hident : input.identity s = d.identity)
    (decoded : Resource.ofDocument input.kind json = .ok r) :
    ∃ r₀ : Resource, r₀.stored ∈ (after p ms₁).documents ∧ r₀.id = d.id ∧ r₀.Resembles r := by
  obtain ⟨r₀, hr₀, hident₀, resembles⟩ := stored_of_found look decoded
  exact ⟨r₀, hr₀, h.id_of_identity hp hle hr₀ (hident₀.trans hident), resembles⟩

/-- Where an attempt was in vain the version went up since the reading. -/
theorem version_lt_of_missed {ms₂ : List Move} {m₂ : Move} {past₂ : List Exchange} {json : Json}
    {patch : Patch} (hp : ms <+: ms₁) (hle : ms₁ ++ [m] <+: ms₂) (hle₂ : ms₂ <+: moves)
    (look : (after p ms₁).Makes i operation past ⟨input.lookup s, .ok (some json)⟩
      (after p (ms₁ ++ [m])))
    (miss : (after p ms₂).Makes i operation past₂
      ⟨.patchOne r.kind.collection (.byIdAt r.id r.recordVersion) patch, .ok false⟩
      (after p (ms₂ ++ [m₂])))
    (hident : input.identity s = d.identity)
    (decoded : Resource.ofDocument input.kind json = .ok r) (writes : patch.isEmpty = false)
    {d₁ d₂ : StoredDocument} (hd₁ : d₁ ∈ (after p ms₁).documents) (hid₁ : d₁.id = d.id)
    (hd₂ : d₂ ∈ (after p ms₂).documents) (hid₂ : d₂.id = d.id) : d₁.version < d₂.version := by
  have hle₁ := (List.prefix_append ms₁ [m]).trans hle
  obtain ⟨r₁, hr₁, hid, resembles⟩ := h.found hp (hle₁.trans hle₂) look hident decoded
  obtain rfl := eq_of_id_eq p ms₁ hd₁ hr₁ (hid₁.trans hid.symm)
  obtain ⟨r₂, -, rfl⟩ := sound p ms₂ ms₂ (List.prefix_refl _) d₂ hd₂
  have hkey := key_kept p hle₁ hr₁ hd₂ (hid₁.trans hid₂.symm)
  rw [Resource.card_stored, Resource.card_stored] at hkey
  have hkind : r₂.kind = r₁.kind := congrArg MappingKey.kind hkey
  have hne := version_ne_of_missed miss writes hd₂ (hkind.trans resembles.kind.symm)
    (hid₂.trans (hid₁.symm.trans resembles.id.symm)) (resembles.recordVersion ▸ resembles.least)
    (resembles.recordVersion ▸ resembles.greatest)
  have hge := (sound p ms₂).version_le hle₁ hr₁ hd₂ (hid₁.trans hid₂.symm)
  rw [Resource.version_stored, Resource.version_stored] at hge ⊢
  exact Int.lt_iff_le_and_ne.2 ⟨hge, fun heq => hne (heq.symm.trans resembles.recordVersion.symm)⟩

/-- Between the reading of an attempt in vain and the call that is to write it the version went
up. -/
theorem raised_during {ms₂ : List Move} {past' : List Exchange} {json : Json} {patch : Patch}
    {rest : Program Outcome} (hi : (after p ms).tasks.length ≤ i)
    (hident : input.identity s = d.identity) (hle : ms₂ <+: moves)
    (ht : (after p ms₂).tasks[i]? = some ⟨operation, past' ++
      [⟨.patchOne r.kind.collection (.byIdAt r.id r.recordVersion) patch, .ok false⟩], rest⟩)
    (read : past ++ [⟨input.lookup s, .ok (some json)⟩] <+: past')
    (decoded : Resource.ofDocument input.kind json = .ok r) (writes : patch.isEmpty = false) :
    ∃ ms₃ rest₃ ms₄ m₄ x, ms <+: ms₃ ∧ ms₃ <+: ms₄ ∧ ms₄ ++ [m₄] <+: ms₂ ∧
      (after p ms₃).tasks[i]? = some ⟨operation, past, rest₃⟩ ∧
      (after p ms₄).Makes i operation past' x (after p (ms₄ ++ [m₄])) ∧
      ∃ d₃ ∈ (after p ms₃).documents, ∃ d₄ ∈ (after p ms₄).documents,
        d₃.id = d.id ∧ d₄.id = d.id ∧ d₃.version < d₄.version := by
  obtain ⟨ms₃, m₃, ms₄, m₄, hp₃, hp₄, look, miss⟩ := made_after ht read
  obtain ⟨rest₃, ht₃⟩ := look.before
  have hle₃₄ := (List.prefix_append ms₃ [m₃]).trans hp₃
  have hle₄ := (List.prefix_append ms₄ [m₄]).trans (hp₄.trans hle)
  have hge := prefix_of_task hi h.before (hle₃₄.trans hle₄) ht₃
  obtain ⟨d₃, hd₃, hid₃⟩ := h.stays ms₃ hge (hle₃₄.trans hle₄)
  obtain ⟨d₄, hd₄, hid₄⟩ := h.stays ms₄ (hge.trans hle₃₄) hle₄
  have hlt := h.version_lt_of_missed hge hp₃ hle₄ look miss hident decoded writes hd₃ hid₃ hd₄ hid₄
  exact ⟨ms₃, rest₃, ms₄, m₄, _, hge, hle₃₄, hp₄, ht₃, miss, d₃, hd₃, d₄, hd₄, hid₃, hid₄, hlt⟩

/-- While so many attempts were in vain the version went up by as much. -/
theorem version_le_of_missed (hi : (after p ms).tasks.length ≤ i)
    (hident : input.identity s = d.identity) (missed : Missed s input n past) {ms₂ : List Move}
    {rest : Program Outcome} {d₂ : StoredDocument} (hle : ms₂ <+: moves)
    (ht : (after p ms₂).tasks[i]? = some ⟨operation, past, rest⟩)
    (hd₂ : d₂ ∈ (after p ms₂).documents) (hid₂ : d₂.id = d.id) :
    ∃ ms₁ t₁ d₁, ms <+: ms₁ ∧ ms₁ <+: ms₂ ∧ (after p ms₁).tasks[i]? = some t₁ ∧
      d₁ ∈ (after p ms₁).documents ∧ d₁.id = d.id ∧ d₁.version + n ≤ d₂.version := by
  induction missed generalizing ms₂ rest d₂ with
  | none past =>
    have hp := prefix_of_task hi h.before hle ht
    exact ⟨ms₂, _, d₂, hp, List.prefix_refl _, ht, hd₂, hid₂, by simp⟩
  | @again n past past' json r patch before read decoded writes ih =>
    obtain ⟨ms₃, rest₃, ms₄, m₄, -, -, hp₃, hp₄, ht₃, -, d₃, hd₃, d₄, hd₄, hid₃, hid₄, hlt⟩ :=
      h.raised_during hi hident hle ht read decoded writes
    have hle₄ := (List.prefix_append ms₄ [m₄]).trans hp₄
    obtain ⟨ms₁, t₁, d₁, hp₁, hle₁, ht₁, hd₁, hid₁, hv⟩ :=
      ih ((hp₃.trans hle₄).trans hle) ht₃ hd₃ hid₃
    have hle' := (sound p ms₂).version_le hle₄ hd₄ hd₂ (hid₄.trans hid₂.symm)
    refine ⟨ms₁, t₁, d₁, hp₁, hle₁.trans (hp₃.trans hle₄), ht₁, hd₁, hid₁, ?_⟩
    calc d₁.version + (n + 1 : Nat) = d₁.version + n + 1 := by
          rw [Int.natCast_succ, Int.add_assoc]
      _ ≤ d₃.version + 1 := Int.add_le_add_right hv 1
      _ ≤ d₄.version := hlt
      _ ≤ d₂.version := hle'

/-- For every attempt in vain another update raised the version while this one was under way. -/
theorem contenders (hi : (after p ms).tasks.length ≤ i) (hident : input.identity s = d.identity)
    {rest : Program Outcome}
    (ht : (after p moves).tasks[i]? = some ⟨operation, past, rest⟩)
    (missed : Missed s input (n + 1) past) :
    ∃ js ⊆ updatesSince p ms moves d, js.card = n + 1 ∧ ∀ j ∈ js, RaisedAmid p ms moves i j d.id ∧
      ∃ t v, (after p moves).tasks[j]? = some t ∧ t.Raised d.id v := by
  cases missed with
  | @again _ past past' json r patch before read decoded writes =>
  obtain ⟨ms₃, rest₃, ms₄, m₄, x, -, hp₃, hp₄, ht₃, miss, d₃, hd₃, d₄, hd₄, hid₃, hid₄, hlt⟩ :=
    h.raised_during hi hident (List.prefix_refl _) ht read decoded writes
  have hle₄ := (List.prefix_append ms₄ [m₄]).trans hp₄
  obtain ⟨ms₁, t₁, d₁, hp₁, hle₁, ht₁, hd₁, hid₁, hv⟩ :=
    h.version_le_of_missed hi hident before (hp₃.trans hle₄) ht₃ hd₃ hid₃
  have raised : ∀ k < n + 1, ∃ j, j ∈ updatesSince p ms moves d ∧ RaisedAmid p ms moves i j d.id ∧
      ∃ t, (after p moves).tasks[j]? = some t ∧ t.Raised d.id (d₁.version + 1 + k) := by
    intro k hk
    have within : ∀ a b c : Int, a + n ≤ b → b < c → a < a + 1 + k ∧ a + 1 + k ≤ c := by
      omega
    obtain ⟨hgt, hle⟩ := within _ _ _ hv hlt
    obtain ⟨ms', m', j, t, hge', hle', raises, ht', hr⟩ := raised_between (hle₁.trans hp₃) hd₁ hd₄
      (hid₁.trans hid₄.symm) hgt hle
    rw [hid₁] at raises hr
    obtain ⟨hj, hraised⟩ := h.mem_of_raises (hp₁.trans hge') (hle'.trans hle₄) raises ht' hr
    obtain ⟨u, hu, -⟩ := task_later p hge' ht₁
    have under := unfinished_of_makes miss ((List.prefix_append ms' [m']).trans hle') hu
    exact ⟨j, hj, ⟨ms', m', u, _, hp₁.trans hge', hle'.trans hle₄, hu, under, raises⟩, hraised⟩
  choose! f hf using raised
  refine ⟨(Finset.range (n + 1)).image f, fun j hj => ?_, ?_, fun j hj => ?_⟩
  · obtain ⟨k, hk, rfl⟩ := Finset.mem_image.1 hj
    exact (hf k (Finset.mem_range.1 hk)).1
  · -- An update raises a single version, so every version has its own.
    refine (Finset.card_image_of_injOn fun k hk k' hk' heq => ?_).trans (Finset.card_range _)
    obtain ⟨-, -, t, ht, hr⟩ := hf k (Finset.mem_range.1 hk)
    obtain ⟨-, -, t', ht', hr'⟩ := hf k' (Finset.mem_range.1 hk')
    rw [← heq] at ht'
    obtain rfl := Option.some.inj (ht.symm.trans ht')
    have hv := ((lawful p moves t (List.mem_of_getElem? ht)).raised_once hr hr').2
    exact Int.ofNat.inj (Int.add_left_cancel hv)
  · obtain ⟨k, hk, rfl⟩ := Finset.mem_image.1 hj
    obtain ⟨-, amid, t, ht, hr⟩ := hf k (Finset.mem_range.1 hk)
    exact ⟨amid, t, _, ht, hr⟩

end Endures

end System

end FleetSync
