import FleetSync.Proofs.Mapping.Attachment
import FleetSync.Proofs.Sequence.Unsent

/-!
# The documents that reports are about

A report gives the address of a document: its kind, account, cluster, namespace and name. Documents
are told apart by their project and environment instead of cluster and namespace, and they keep
these and their names (`StoredDocument.Keeps.key`). So two documents of one address are of different
projects or environments (`DocumentStore.Tidy.eq_of_address`), and nothing keeps such documents from
coming to the same cluster. Just as long as they do not, nor come to a cluster that the other one
was sent to, every report is taken to be about the document that it answers for
(`System.reports_attributed_iff`).
-/

namespace FleetSync

/-- A document keeps what it is filed by. -/
theorem StoredDocument.Keeps.key {d d' : StoredDocument} (h : d.Keeps d') :
    d'.card.key = d.card.key := by
  have text : ∀ n ∈ Resource.fixedNames, d'.text? n = d.text? n := fun n hn => by
    rw [text?, text?, h.fixed n hn]
  simp only [card, kind, StoredDocument.text, h.collection, text "name" (by decide),
    text "namespace" (by decide), text "account_name" (by decide), text "project_name" (by decide),
    text "environment_name" (by decide)]

theorem Card.eq_addressOn {c : Card} {a : Wire.Address} (h : c.address? = some a) :
    a = c.addressOn a.cluster := by
  obtain ⟨x, -, rfl⟩ := Option.map_eq_some_iff.1 h
  rfl

namespace DocumentStore.Tidy

variable {s : DocumentStore} {d d' : StoredDocument}

/-- A document is the only one of its project and environment at an address. -/
theorem eq_of_address (h : s.Tidy) (hd : d ∈ s.documents) (hd' : d' ∈ s.documents)
    {a : Wire.Address} (ha : a = d.card.addressOn a.cluster)
    (ha' : a = d'.card.addressOn a.cluster)
    (hproject : d'.card.key.project = d.card.key.project)
    (henvironment : d'.card.key.environment = d.card.key.environment) : d' = d := by
  have haddress := ha'.symm.trans ha
  rw [Card.addressOn, Card.addressOn, Wire.Address.mk.injEq] at haddress
  obtain ⟨hkind, haccount, -, -, hname⟩ := haddress
  have hidentity : d'.card.key.identity = d.card.key.identity := by
    rw [MappingKey.identity, MappingKey.identity, hkind, haccount, hproject, henvironment, hname]
  have hcard := List.inj_on_of_nodup_map h.identities (List.mem_map_of_mem hd')
    (List.mem_map_of_mem hd) hidentity
  exact List.inj_on_of_nodup_map h.ids hd' hd (congrArg Card.id hcard)

/-- A report is taken to be about the documents at its address that can be read. -/
theorem matches_reported (h : s.Tidy) (hd : d ∈ s.documents) {report : Wire.Report} :
    d.matches? report.resourceKind.collection (.reported report) = true ↔
      d.card.address? = some report.address ∧ d.body.isReadable = true := by
  obtain ⟨r, -, rfl⟩ := h.sound d hd
  rw [Resource.card_stored]
  exact Resource.matches_reported

end DocumentStore.Tidy

namespace System

variable {p : ControlPlane} {moves : List Move} {d d' : StoredDocument} {report : Wire.Report}
  {a : Wire.Address}

/-- Whether an envelope with the address of a document was sent in a move. An envelope names neither
project nor environment; those of a document without a cluster of its own are the scope that the
cluster was worked out for. -/
def Sends (p : ControlPlane) (ms : List Move) (m : Move) (d : StoredDocument) (a : Wire.Address) :
    Prop :=
  ∃ i operation past e frame key offset,
    (after p ms).Makes i operation past
      ⟨.publish (p.topicOf a.cluster) key frame.toBytes, .ok offset⟩ (after p (ms ++ [m])) ∧
    Wire.Frame.ofEnvelope e = .ok frame ∧ e.address = a ∧ a = d.card.addressOn a.cluster ∧
    (d.kind = .project ∨
      past.getLast? = some ⟨.resolve d.card.key.scope, .ok (some a.cluster)⟩)

/-- Whether a document has an address, or an envelope with that address was sent for it before. -/
def HasHad (p : ControlPlane) (moves : List Move) (d : StoredDocument) (a : Wire.Address) : Prop :=
  d.card.address? = some a ∨ ∃ ms m, ms ++ [m] <+: moves ∧
    ∃ d₀ ∈ (after p ms).documents, d₀.id = d.id ∧ Sends p ms m d₀ a

/-- Whether each report concerns one document. -/
structure ReportsAttributed (p : ControlPlane) (moves : List Move) : Prop where
  /-- No two documents have the same address. -/
  alone : ∀ d ∈ (after p moves).documents, ∀ d' ∈ (after p moves).documents, ∀ a,
    d.card.address? = some a → d'.card.address? = some a → d' = d
  /-- A report that echoes what was sent for a document, or what is stored of it, is not taken to be
  about another one. -/
  others : ∀ d ∈ (after p moves).documents, ∀ a report, HasHad p moves d a → report.address = a →
    ∀ d', (after p moves).reported? report = some d' → d' = d
  /-- A report that echoes what is stored of a document is taken to be about it if the document can
  be read. -/
  answered : ∀ d ∈ (after p moves).documents, ∀ report : Wire.Report,
    d.card.address? = some report.address → d.body.isReadable = true →
      (after p moves).reported? report = some d

/-- A document has the names that it was sent with. -/
theorem HasHad.eq_addressOn (h : HasHad p moves d a) (hd : d ∈ (after p moves).documents) :
    a = d.card.addressOn a.cluster := by
  rcases h with h | ⟨ms, m, hp, d₀, hd₀, hid, -, -, -, -, -, -, -, -, -, -, ha, -⟩
  · exact Card.eq_addressOn h
  · have hkey := (kept p ((List.prefix_append ms [m]).trans hp) hd₀ hd hid).key
    rwa [Card.addressOn, ← hkey] at ha

/-- A report is taken to be about some document at its address, if one can be read. -/
theorem reported_of_address (hd : d ∈ (after p moves).documents)
    (ha : d.card.address? = some report.address) (readable : d.body.isReadable = true) :
    ∃ d', (after p moves).reported? report = some d' := by
  refine Option.isSome_iff_exists.1 (List.find?_isSome.2 ⟨d, hd, ?_⟩)
  exact ((tidy p moves).matches_reported hd).2 ⟨ha, readable⟩

theorem address_of_reported (h : (after p moves).reported? report = some d) :
    d ∈ (after p moves).documents ∧ d.card.address? = some report.address := by
  have hd : d ∈ (after p moves).documents := List.mem_of_find?_eq_some h
  have hmatch := List.find?_some h
  exact ⟨hd, (((tidy p moves).matches_reported hd).1 hmatch).1⟩

/-- However operations interleave, each report concerns one document just if no document of another
project or environment has its address while it has that too, or while it was sent there and the
other one can be read. -/
theorem reports_attributed_iff (p : ControlPlane) (moves : List Move) :
    ReportsAttributed p moves ↔
      ∀ d ∈ (after p moves).documents, ∀ d' ∈ (after p moves).documents, ∀ a,
        d'.card.address? = some a →
        (d.card.address? = some a ∨ HasHad p moves d a ∧ d'.body.isReadable = true) →
        d'.card.key.project = d.card.key.project ∧
          d'.card.key.environment = d.card.key.environment := by
  constructor
  · rintro ⟨alone, others, answered⟩ d hd d' hd' a ha' (ha | ⟨had, readable⟩)
    · rw [alone d hd d' hd' a ha ha']
      exact ⟨rfl, rfl⟩
    · let report : Wire.Report := ⟨a.account, a.cluster, a.kind, 0, default,
        ⟨a.name, a.namespaceName, ∅, ∅, 0, none, none, none⟩, .statusUpdate⟩
      have found := answered d' hd' report ha' readable
      rw [others d hd a report had rfl d' found]
      exact ⟨rfl, rfl⟩
  · intro apart
    have others : ∀ d ∈ (after p moves).documents, ∀ a report, HasHad p moves d a →
        report.address = a → ∀ d', (after p moves).reported? report = some d' → d' = d := by
      rintro d hd a report had rfl d' found
      obtain ⟨hd', ha'⟩ := address_of_reported found
      have hmatch := List.find?_some found
      have readable := (((tidy p moves).matches_reported hd').1 hmatch).2
      obtain ⟨hproject, henvironment⟩ := apart d hd d' hd' _ ha' (.inr ⟨had, readable⟩)
      exact (tidy p moves).eq_of_address hd hd' (had.eq_addressOn hd) (Card.eq_addressOn ha')
        hproject henvironment
    refine ⟨fun d hd d' hd' a ha ha' => ?_, others, fun d hd report ha readable => ?_⟩
    · obtain ⟨hproject, henvironment⟩ := apart d hd d' hd' a ha' (.inl ha)
      exact (tidy p moves).eq_of_address hd hd' (Card.eq_addressOn ha) (Card.eq_addressOn ha')
        hproject henvironment
    · obtain ⟨d', found⟩ := reported_of_address hd ha readable
      rwa [others d hd _ report (.inl ha) rfl d' found] at found

/-! ### A run -/

/-- The scope of another project. -/
def blogScope : Scope := .project "acme" "blog"

/-- The other project, on the same cluster. -/
def blogInput : ResourceInput := .new "blog" "default" (.project ⟨some "eu-1", none, none⟩)

/-- Both projects have an environment of one name. -/
def sharedRun : List Move :=
  attachedRun ++ carryOut 2 "8a410000" (.create .system blogScope blogInput) 7 ++
    carryOut 3 "8a410001" (.create .system blogScope devInput) 10

/-- That the agent has deleted the environment. -/
def devReport : Wire.Report :=
  ⟨"acme", "eu-1", .environment, 1, default, ⟨"dev", "default", ∅, ∅, 3, none, none, none⟩,
    .deleteConfirmation⟩

theorem sharedRun_documents : ((after .default createdRun).AtRest ∧
      (after .default attachedRun).AtRest ∧
      (after .default (attachedRun ++
        carryOut 2 "8a410000" (.create .system blogScope blogInput) 7)).AtRest ∧
      (after .default sharedRun).AtRest ∧ (after .default sharedRun).Served) ∧
    (∃ d ∈ (after .default sharedRun).documents, d.id = "8a410001" ∧
      d.text "project_name" = "blog" ∧ d.card.address? = some devReport.address) ∧
    ((after .default sharedRun).reported? devReport).map (fun d => (d.id, d.text "project_name")) =
      some ("5e9b4f36", "shop") := by
  decide +kernel

theorem sequential_sharedRun : Sequential .default sharedRun := by
  obtain ⟨⟨created, attached, blog, -, -⟩, -⟩ := sharedRun_documents
  have seq := (sequential_attachedRun created).carryOut attached 2 "8a410000"
    (.create .system blogScope blogInput) 7
  exact seq.carryOut blog 3 "8a410001" (.create .system blogScope devInput) 10

/-- Not every report concerns one document: in the run a report on the environment of the one
project is taken to be about that of the other. -/
theorem reports_not_attributed : Sequential .default sharedRun ∧ (after .default sharedRun).Served ∧
    (after .default sharedRun).AtRest ∧ ¬ ReportsAttributed .default sharedRun ∧
    ∃ d ∈ (after .default sharedRun).documents, d.text "project_name" = "blog" ∧
      d.card.address? = some devReport.address ∧
      ∃ d', (after .default sharedRun).reported? devReport = some d' ∧
        d'.text "project_name" = "shop" := by
  obtain ⟨⟨-, -, -, rest, served⟩, ⟨d, hd, hid, hblog, ha⟩, hreported⟩ := sharedRun_documents
  obtain ⟨d', hd', hpair⟩ := Option.map_eq_some_iff.1 hreported
  obtain ⟨hid', hshop⟩ := Prod.mk.inj hpair
  refine ⟨sequential_sharedRun, served, rest, fun attributed => ?_, d, hd, hblog, ha, d', hd',
    hshop⟩
  obtain ⟨hmem', ha'⟩ := address_of_reported hd'
  obtain rfl := attributed.alone d hd d' hmem' _ ha ha'
  exact absurd (hid.symm.trans hid') (by decide)

end System

end FleetSync
