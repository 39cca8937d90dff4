import FleetSync.Proofs.Json.RoundTrip
import FleetSync.Proofs.Store.TypedValues
import FleetSync.Proofs.Wire.Framing

/-!
# Messages read back

What is sent to an agent, and what it sends back, is written as JSON with all its fields in a fixed
order. Each part of a message is taken for itself if it does not nest too deep, its numbers fit and
its free-form values are free (`Envelope.takes`, `Report.takes`), and a value that has integers
alone is read from its bytes as it was written. So a message that fits in a frame is the same at the
other end exactly if its free-form value is free (`Frame.messages_survive_iff`): an object that
starts with the key of those that hold a value as a text does not arrive
(`Frame.message_distorted`).
-/

namespace FleetSync

namespace Json

/-- Whether a free-form value has its fields sorted and its integers in the 64-bit ranges. -/
structure Plain (j : Json) : Prop where
  sorted : j.canonical = j
  integral : j.isIntegral = true

theorem isIntegral_ofInt {i : Int} (h : Decoder.IsInt64 i) : (ofInt i).isIntegral = true := by
  have h63 : Nat.pow 2 63 = 9223372036854775808 := rfl
  have h64 : Nat.pow 2 64 = 18446744073709551616 := rfl
  obtain ⟨least, greatest⟩ := h
  rw [h63] at least greatest
  refine decide_eq_true ⟨by rwa [h63], ?_⟩
  rw [h64]
  omega

theorem isIntegral_ofStrings (m : SortedMap String) : (ofStrings m).isIntegral = true := by
  have texts : ∀ ps : List (String × String),
      fieldsIntegral (ps.map fun p => (p.1, .str p.2)) = true := by
    intro ps
    induction ps with
    | nil => rfl
    | cons p ps ih => exact ih
  exact texts m.entries

theorem isIntegral_ofOption {α : Type} {encode : α → Json} {o : Option α}
    (h : ∀ a ∈ o, (encode a).isIntegral = true) : (ofOption encode o).isIntegral = true := by
  cases o with
  | none => rfl
  | some a => exact h a rfl

end Json

namespace Wire

open Decoder (Takes IsInt64)

variable {l : Nat}

/-! ## Envelopes -/

namespace Object

variable {o : Object}

/-- A resource as sent to an agent is taken for itself if its spec is. -/
theorem takes (hspec : ∀ k, o.spec.canonical.nests k = true → Takes .json k o.spec o.spec)
    (h : o.encode.canonical.nests l = true) : Takes decode l o.encode o := by
  refine .record rfl (by decide) h fun r field => ?_
  have kind : r.required "kind" Kind.decode = .ok o.kind := field _ rfl fun _ => Kind.takes _
  have name : r.required "name" .text = .ok o.name := field _ rfl fun _ => .text _
  have namespaceName : r.required "namespace" .text = .ok o.namespaceName :=
    field _ rfl fun _ => .text _
  have labels : r.defaulted "labels" ∅ .strings = .ok o.labels := field _ rfl .strings
  have annotations : r.defaulted "annotations" ∅ .strings = .ok o.annotations :=
    field _ rfl .strings
  have spec : r.required "spec" .json = .ok o.spec := field _ rfl (hspec _)
  simp only [kind, name, namespaceName, labels, annotations, spec, Checked.map_ok, Checked.seq_ok]

/-- A resource that is taken for itself has a spec that is. -/
theorem spec_of_decode (h : decode (l + 1) o.encode.toNode = .ok o) :
    Decoder.json l o.spec.toNode = .ok o.spec := by
  rw [decode, encode] at h
  obtain ⟨r, made, field⟩ := Decoder.exists_of_obj (by rfl) (by decide) h
  simp only [Checked.seq_eq_ok, Checked.map_eq_ok] at made
  obtain ⟨_, spec, ⟨_, _, ⟨_, _, ⟨_, _, ⟨_, _, ⟨_, -, rfl⟩, -, rfl⟩, -, rfl⟩, -, rfl⟩, -, rfl⟩,
    hspec, hmk⟩ := made
  obtain rfl : spec = o.spec := congrArg Object.spec hmk
  exact field "spec" rfl hspec

end Object

namespace Envelope

variable {e : Envelope}

/-- An envelope is taken for itself if the spec in it is. -/
theorem takes (version : IsInt64 e.recordVersion)
    (hspec : ∀ k, e.object.spec.canonical.nests k = true →
      Takes .json k e.object.spec e.object.spec)
    (h : e.encode.canonical.nests l = true) : Takes decode l e.encode e := by
  refine .record rfl (by decide) h fun r field => ?_
  have accountName : r.required "account_name" .text = .ok e.accountName :=
    field _ rfl fun _ => .text _
  have clusterName : r.required "cluster_name" .text = .ok e.clusterName :=
    field _ rfl fun _ => .text _
  have action : r.required "action" SyncAction.decode = .ok e.action :=
    field _ rfl fun _ => SyncAction.takes _
  have recordVersion : r.required "record_version" .int64 = .ok e.recordVersion :=
    field _ rfl fun _ => .int64 version
  have object : r.required "object" Object.decode = .ok e.object :=
    field _ rfl (Object.takes hspec)
  simp only [accountName, clusterName, action, recordVersion, object, Checked.map_ok,
    Checked.seq_ok]

/-- An envelope that is taken for itself holds a resource that is. -/
theorem object_of_decode (h : decode (l + 1) e.encode.toNode = .ok e) :
    Object.decode l e.object.encode.toNode = .ok e.object := by
  rw [decode, encode] at h
  obtain ⟨r, made, field⟩ := Decoder.exists_of_obj (by rfl) (by decide) h
  simp only [Checked.seq_eq_ok, Checked.map_eq_ok] at made
  obtain ⟨_, object, ⟨_, _, ⟨_, _, ⟨_, _, ⟨_, -, rfl⟩, -, rfl⟩, -, rfl⟩, -, rfl⟩, hobject, hmk⟩ :=
    made
  obtain rfl : object = e.object := congrArg Envelope.object hmk
  exact field "object" rfl hobject

/-- Whether the version of an envelope has 64 bits and its spec is plain. -/
structure Proper (e : Envelope) : Prop where
  version : IsInt64 e.recordVersion
  spec : e.object.spec.Plain

theorem Proper.isIntegral (h : e.Proper) : e.encode.isIntegral = true := by
  have object : e.object.encode.isIntegral = true := by
    simp only [Object.encode, Kind.encode, Json.isIntegral, Json.fieldsIntegral,
      Json.isIntegral_ofStrings, h.spec.integral, Bool.and_self]
  simp only [encode, SyncAction.encode, Json.isIntegral, Json.fieldsIntegral,
    Json.isIntegral_ofInt h.version, object, Bool.and_self]

/-- An envelope is taken for itself exactly if its spec is free. -/
theorem decode_encode_iff (h : e.Proper) (hn : e.encode.nests l = true) :
    decode l e.encode.toNode = .ok e ↔ e.object.spec.isFree = true := by
  refine ⟨fun hd => ?_, fun hf => ?_⟩
  · obtain ⟨l, rfl, fields⟩ := Json.nests_obj.1 hn
    obtain ⟨l, rfl, members⟩ := Json.nests_obj.1 (fields ("object", e.object.encode) (by simp))
    have read := Object.spec_of_decode (object_of_decode hd)
    rw [Decoder.json_eq_ok] at read
    have nests := members ("spec", e.object.spec) (by simp)
    exact (Json.value?_toNode_iff h.spec.sorted nests).1 read
  · have hn' := Json.nests_canonical hn
    exact (takes h.version (fun k hk => .json h.spec.sorted hf hk) hn').written

end Envelope

/-! ## Reports -/

namespace AgentObject

variable {o : AgentObject}

/-- A resource as an agent sees it is taken for itself if its status is. -/
theorem takes (generation : IsInt64 o.generation)
    (hstatus : ∀ s ∈ o.status, s ≠ .null ∧ ∀ k, s.canonical.nests k = true → Takes .json k s s)
    (h : o.encode.canonical.nests l = true) : Takes decode l o.encode o := by
  refine .record rfl (by decide) h fun r field => ?_
  have name : r.required "name" .text = .ok o.name := field _ rfl fun _ => .text _
  have namespaceName : r.required "namespace" .text = .ok o.namespaceName :=
    field _ rfl fun _ => .text _
  have labels : r.defaulted "labels" ∅ .strings = .ok o.labels := field _ rfl .strings
  have annotations : r.defaulted "annotations" ∅ .strings = .ok o.annotations :=
    field _ rfl .strings
  have generation : r.defaulted "generation" 0 .int64 = .ok o.generation :=
    field _ rfl fun _ => .int64 generation
  have creation : r.nullable "creation_timestamp" .instant = .ok o.creationTimestamp :=
    field _ rfl fun _ => .nullableInstant _
  have deletion : r.nullable "deletion_timestamp" .instant = .ok o.deletionTimestamp :=
    field _ rfl fun _ => .nullableInstant _
  have status : r.nullable "status" .json = .ok o.status := by
    refine field _ rfl fun hn => .nullable (fun s hs => (hstatus s hs).1) fun s hs => ?_
    rw [hs] at hn
    exact (hstatus s hs).2 _ hn
  simp only [name, namespaceName, labels, annotations, generation, creation, deletion, status,
    Checked.map_ok, Checked.seq_ok]

/-- A resource that is taken for itself, as an agent sees it, has a status that is. -/
theorem status_of_decode (h : decode (l + 1) o.encode.toNode = .ok o) :
    Decoder.nullable .json l (Json.ofOption id o.status).toNode = .ok o.status := by
  rw [decode, encode] at h
  obtain ⟨r, made, field⟩ := Decoder.exists_of_obj (by rfl) (by decide) h
  simp only [Checked.seq_eq_ok, Checked.map_eq_ok] at made
  obtain ⟨_, status, ⟨_, _, ⟨_, _, ⟨_, _, ⟨_, _, made, -, rfl⟩, -, rfl⟩, -, rfl⟩, -, rfl⟩, hstatus,
    hmk⟩ := made
  obtain ⟨_, _, ⟨_, _, ⟨_, -, rfl⟩, -, rfl⟩, -, rfl⟩ := made
  obtain rfl : status = o.status := congrArg AgentObject.status hmk
  exact field "status" rfl hstatus

end AgentObject

namespace ReportKind

/-- What a report is about is taken for itself. -/
theorem takes {k : ReportKind} (h : k.encode.canonical.nests l = true) :
    Takes decode l k.encode k := by
  cases k with
  | statusUpdate =>
    obtain ⟨l, rfl, -⟩ := Json.nests_obj.1 h
    exact .of_canonical rfl rfl
  | deleteConfirmation =>
    obtain ⟨l, rfl, -⟩ := Json.nests_obj.1 h
    exact .of_canonical rfl rfl
  | applyError error =>
    obtain ⟨l, rfl, -⟩ := Json.nests_obj.1 h
    exact ⟨rfl, rfl⟩

end ReportKind

namespace Report

variable {r : Report}

/-- A report is taken for itself if the status in it is. -/
theorem takes (version : IsInt64 r.recordVersion) (generation : IsInt64 r.object.generation)
    (hstatus : ∀ s ∈ r.object.status, s ≠ .null ∧ ∀ k, s.canonical.nests k = true →
      Takes .json k s s)
    (h : r.encode.canonical.nests l = true) : Takes decode l r.encode r := by
  refine .record rfl (by decide) h fun rec field => ?_
  have accountName : rec.required "account_name" .text = .ok r.accountName :=
    field _ rfl fun _ => .text _
  have clusterName : rec.required "cluster_name" .text = .ok r.clusterName :=
    field _ rfl fun _ => .text _
  have resourceKind : rec.required "resource_type" Kind.decode = .ok r.resourceKind :=
    field _ rfl fun _ => Kind.takes _
  have recordVersion : rec.required "record_version" .int64 = .ok r.recordVersion :=
    field _ rfl fun _ => .int64 version
  have timestamp : rec.required "timestamp" .instant = .ok r.timestamp :=
    field _ rfl fun _ => .instant _
  have object : rec.required "object" AgentObject.decode = .ok r.object :=
    field _ rfl (AgentObject.takes generation hstatus)
  have kind : rec.required "kind" ReportKind.decode = .ok r.kind := field _ rfl ReportKind.takes
  simp only [accountName, clusterName, resourceKind, recordVersion, timestamp, object, kind,
    Checked.map_ok, Checked.seq_ok]

/-- A report that is taken for itself is about a resource that is. -/
theorem object_of_decode (h : decode (l + 1) r.encode.toNode = .ok r) :
    AgentObject.decode l r.object.encode.toNode = .ok r.object := by
  rw [decode, encode] at h
  obtain ⟨rec, made, field⟩ := Decoder.exists_of_obj (by rfl) (by decide) h
  simp only [Checked.seq_eq_ok, Checked.map_eq_ok] at made
  obtain ⟨_, _, ⟨_, object, ⟨_, _, made, -, rfl⟩, hobject, rfl⟩, -, hmk⟩ := made
  obtain ⟨_, _, ⟨_, _, ⟨_, _, ⟨_, -, rfl⟩, -, rfl⟩, -, rfl⟩, -, rfl⟩ := made
  obtain rfl : object = r.object := congrArg Report.object hmk
  exact field "object" rfl hobject

/-- Whether the integers of a report have 64 bits, and its status is plain and not null. -/
structure Proper (r : Report) : Prop where
  version : IsInt64 r.recordVersion
  generation : IsInt64 r.object.generation
  status : ∀ s ∈ r.object.status, s ≠ .null ∧ s.Plain

theorem Proper.isIntegral (h : r.Proper) : r.encode.isIntegral = true := by
  have instants : ∀ o : Option Instant, (Json.ofOption .ofInstant o).isIntegral = true :=
    fun o => Json.isIntegral_ofOption fun _ _ => rfl
  have status : (Json.ofOption id r.object.status).isIntegral = true :=
    Json.isIntegral_ofOption fun s hs => (h.status s hs).2.integral
  have object : r.object.encode.isIntegral = true := by
    simp only [AgentObject.encode, Json.isIntegral, Json.fieldsIntegral, Json.isIntegral_ofStrings,
      Json.isIntegral_ofInt h.generation, instants, status, Bool.and_self]
  have kind : r.kind.encode.isIntegral = true := by
    cases r.kind <;> rfl
  simp only [encode, Kind.encode, Json.ofInstant, Json.isIntegral, Json.fieldsIntegral,
    Json.isIntegral_ofInt h.version, object, kind, Bool.and_self]

/-- A report is taken for itself exactly if its status is free. -/
theorem decode_encode_iff (h : r.Proper) (hn : r.encode.nests l = true) :
    decode l r.encode.toNode = .ok r ↔ ∀ s ∈ r.object.status, s.isFree = true := by
  refine ⟨fun hd s hs => ?_, fun hf => ?_⟩
  · obtain ⟨l, rfl, fields⟩ := Json.nests_obj.1 hn
    obtain ⟨l, rfl, members⟩ := Json.nests_obj.1 (fields ("object", r.object.encode) (by simp))
    have read := AgentObject.status_of_decode (object_of_decode hd)
    have nests := members ("status", .ofOption id r.object.status) (by simp)
    obtain ⟨nonnull, plain⟩ := h.status s hs
    rw [hs, Json.ofOption, id] at read nests
    rw [Decoder.nullable_eq_ok (Json.toNode_ne_null nonnull), Decoder.json_eq_ok] at read
    exact (Json.value?_toNode_iff plain.sorted nests).1 read
  · refine (takes h.version h.generation (fun s hs => ⟨(h.status s hs).1, fun k hk => ?_⟩)
      (Json.nests_canonical hn)).written
    exact .json (h.status s hs).2.sorted (hf s hs) hk

end Report

/-! ## Frames -/

namespace Frame

variable {α : Type} {type : MessageType} {j : Json}

theorem ofMessage_of_le (h : j.bytes.size ≤ maxPayload) :
    ofMessage type j = .ok ⟨type, j.bytes⟩ :=
  if_neg (Nat.not_lt.2 h)

/-- A message of integers alone is decoded of the value that was written. -/
theorem decode_bytes {d : Decoder α} {a : α} (h : j.isIntegral = true) :
    (Frame.mk type j.bytes).decode d = .ok a ↔ d Json.maxNesting j.toNode = .ok a := by
  rw [decode, Decoder.ofBytes?, Json.Node.ofBytes?_bytes h, Option.bind_eq_bind, Option.bind_some]
  cases d Json.maxNesting j.toNode <;> simp [Except.toOption]

theorem toEnvelope_bytes {e e' : Envelope} (h : e.encode.isIntegral = true) :
    (Frame.mk .dispatch e.encode.bytes).toEnvelope = .ok e' ↔
      Envelope.decode Json.maxNesting e.encode.toNode = .ok e' :=
  decode_bytes h

theorem toReport_bytes {r r' : Report} (h : r.encode.isIntegral = true) :
    (Frame.mk .report r.encode.bytes).toReport = .ok r' ↔
      Report.decode Json.maxNesting r.encode.toNode = .ok r' :=
  decode_bytes h

/-- A message that fits in a frame and does not nest too deep is framed, the frame is read off the
front of what follows, and the message in it is the same exactly if its free-form value is free. One
that does not fit is refused with its size, and a frame holds no message of the other type. -/
theorem messages_survive_iff (e : Envelope) (r : Report) (f : Frame) :
    (e.Proper → e.encode.nests Json.maxNesting = true → e.encode.bytes.size ≤ maxPayload →
      ∃ f, ofEnvelope e = .ok f ∧ (∀ rest, ofBytes (f.toBytes ++ rest) = .ok f) ∧
        (f.toEnvelope = .ok e ↔ e.object.spec.isFree = true)) ∧
      (r.Proper → r.encode.nests Json.maxNesting = true → r.encode.bytes.size ≤ maxPayload →
        ∃ f, ofReport r = .ok f ∧ (∀ rest, ofBytes (f.toBytes ++ rest) = .ok f) ∧
          (f.toReport = .ok r ↔ ∀ s ∈ r.object.status, s.isFree = true)) ∧
      (maxPayload < e.encode.bytes.size →
        ofEnvelope e = .error (.tooLarge e.encode.bytes.size)) ∧
      (maxPayload < r.encode.bytes.size →
        ofReport r = .error (.tooLarge r.encode.bytes.size)) ∧
      (f.type = .report → f.toEnvelope = .error (.unexpectedType .dispatch .report)) ∧
      (f.type = .dispatch → f.toReport = .error (.unexpectedType .report .dispatch)) := by
  refine ⟨fun h hn fits => ?_, fun h hn fits => ?_, fun h => if_pos h, fun h => if_pos h,
    fun h => ?_, fun h => ?_⟩
  · refine ⟨_, ofMessage_of_le fits, fun rest => ofBytes_toBytes_append rest fits, ?_⟩
    rw [toEnvelope_bytes h.isIntegral, Envelope.decode_encode_iff h hn]
  · refine ⟨_, ofMessage_of_le fits, fun rest => ofBytes_toBytes_append rest fits, ?_⟩
    rw [toReport_bytes h.isIntegral, Report.decode_encode_iff h hn]
  · rw [toEnvelope, expect, h]
    rfl
  · rw [toReport, expect, h]
    rfl

/-- An envelope with escapes, and a report sent in a leap second, arrive as they were sent. -/
theorem messages_survive_iff_escaped :
    let t : Instant := ⟨⟨2016, 12, 31⟩, ⟨23, 59, 59, 1500000000⟩, by decide, by decide⟩
    let e : Envelope := ⟨"acme", "eu-1", .apply, 3, ⟨.config, "menü", "default",
      .ofList [("say", "\"hi\"\n")], ∅, .obj [("data", .arr [.null, .ofInt (-7)])]⟩⟩
    let r : Report := ⟨"acme", "eu-1", .config, 3, t, ⟨"menü", "default", ∅, ∅, 1, some t, none,
      some (.obj [("phase", .str "\\")])⟩, .applyError "no"⟩
    ∃ f g, ofEnvelope e = .ok f ∧ f.toEnvelope = .ok e ∧ ofReport r = .ok g ∧
      g.toReport = .ok r := by
  intro t e r
  obtain ⟨envelope, report, -⟩ := messages_survive_iff e r default
  have plain : Json.Plain (.obj [("phase", .str "\\")]) := ⟨by decide +kernel, by decide⟩
  have status : ∀ s ∈ r.object.status, s ≠ .null ∧ s.Plain := by
    rintro s hs
    obtain rfl := Option.some.inj hs
    exact ⟨nofun, plain⟩
  obtain ⟨f, hf, -, he⟩ := envelope ⟨by decide, by decide +kernel, by decide⟩ (by decide)
    (by decide +kernel)
  obtain ⟨g, hg, -, hr⟩ := report ⟨by decide, by decide, status⟩ (by decide) (by decide +kernel)
  refine ⟨f, g, hf, he.2 (by decide), hg, hr.2 fun s hs => ?_⟩
  obtain rfl := Option.some.inj hs
  decide

/-- The spec of an envelope is an object that starts with the key of those that hold a value as a
text: at the other end it is that value. -/
theorem message_distorted :
    let e : Envelope := ⟨"acme", "eu-1", .apply, 3,
      ⟨.config, "menu", "default", ∅, ∅, .obj [(Json.embeddingKey, .str "1")]⟩⟩
    e.Proper ∧ e.encode.nests Json.maxNesting = true ∧ e.encode.bytes.size ≤ maxPayload ∧
      ∃ f, ofEnvelope e = .ok f ∧ ofBytes f.toBytes = .ok f ∧
        f.toEnvelope = .ok { e with object := { e.object with spec := .ofInt 1 } } := by
  intro e
  have proper : e.Proper := ⟨by decide, by decide +kernel, by decide⟩
  have fits : e.encode.bytes.size ≤ maxPayload := by decide +kernel
  refine ⟨proper, by decide, fits, _, ofMessage_of_le fits, ?_, ?_⟩
  · have whole := ofBytes_toBytes_append (f := ⟨.dispatch, e.encode.bytes⟩) .empty fits
    rwa [ByteArray.append_empty] at whole
  · rw [toEnvelope_bytes proper.isIntegral]
    decide +kernel

end Frame

end Wire

end FleetSync
