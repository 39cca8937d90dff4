import FleetSync.Control.Consumer
import FleetSync.Proofs.Bus.Traffic

/-!
# How the consumer settles a topic

A consumer takes a message of the durable bus in again and again until it settles it: all but the
last of these ingestions failed for now, and the attempts were not used up (`Consumer.Course`). Then
it goes on with the next message of the topic, so what it takes in of a queue is one course after
the other (`Consumer.run_durable`). No matter what comes of taking messages in, all that was freshly
published is settled in its order and within its attempts (`Consumer.settles_each`).
-/

namespace FleetSync

namespace DurableBus

variable {b : DurableBus} {p : Publication} {n : Nat} {topic : String}
  {rest : List (Publication × Nat)}

/-- Publishes messages to a topic, each with its time, its key and its payload. -/
def publishAll (b : DurableBus) (topic : String) :
    List (Int × String × ByteArray) → List Publication × DurableBus
  | [] => ([], b)
  | (now, key, payload) :: rest =>
    let (offset, b) := b.publish now topic key payload
    let (published, b) := publishAll b topic rest
    (⟨offset, topic, key, payload⟩ :: published, b)

theorem Ordered.publishAll (h : b.Ordered) (topic : String)
    (messages : List (Int × String × ByteArray)) : (b.publishAll topic messages).2.Ordered := by
  induction messages generalizing b with
  | nil => exact h
  | cons m rest ih => exact ih (h.publish m.1 topic m.2.1 m.2.2)

theorem queue_publishAll (b : DurableBus) (topic : String)
    (messages : List (Int × String × ByteArray)) : (b.publishAll topic messages).2.queue topic =
      b.queue topic ++ (b.publishAll topic messages).1.map fun q => (q, 0) := by
  induction messages generalizing b with
  | nil => rw [publishAll, List.map_nil, List.append_nil]
  | cons m rest ih =>
    rw [publishAll, ih, queue_publish, if_pos rfl, List.append_assoc]
    rfl

theorem length_publishAll (b : DurableBus) (topic : String)
    (messages : List (Int × String × ByteArray)) :
    (b.publishAll topic messages).1.length = messages.length := by
  induction messages generalizing b with
  | nil => rfl
  | cons m rest ih => exact congrArg (· + 1) (ih _)

/-- What waits in a topic is in the order of its offsets. -/
theorem Ordered.queue_increasing (h : b.Ordered) (topic : String) :
    ((b.queue topic).map (·.1.offset)).Pairwise (· < ·) := by
  rw [queue, List.map_map]
  exact h.increasing.sublist (List.filter_sublist.map _)

/-- The head of a queue goes with its acknowledgement. -/
theorem Ordered.queue_ack_head (h : b.Ordered) (hq : b.queue topic = (p, n) :: rest) (now : Int)
    (attempt : Nat) : (b.ack now (p.delivery attempt)).queue topic = rest := by
  have hinc := h.queue_increasing topic
  rw [hq, List.map_cons, List.pairwise_cons] at hinc
  rw [queue_ack, hq, List.filter_cons, if_neg (by simp)]
  refine List.filter_eq_self.2 fun e he => bne_iff_ne.2 ?_
  exact Nat.ne_of_gt (hinc.1 _ (List.mem_map_of_mem he))

end DurableBus

namespace Consumer

variable {α σ : Type}

/-- A message that was taken in once, and what came of it. -/
structure Ingestion (α : Type) where
  delivery : Delivery
  result : Except OpError α

namespace Ingestion

/-- Whether the message could not be taken in for now. -/
def isTransient (i : Ingestion α) : Bool :=
  match i.result with
  | .ok _ => false
  | .error e => e.isTransient

/-- What becomes of the delivery after that. -/
def settlement (maxAttempts : Nat) (i : Ingestion α) : Settlement :=
  Consumer.settlement maxAttempts i.delivery.attempt i.result

/-- The delivery as it is settled. -/
def settled (maxAttempts : Nat) (i : Ingestion α) : Settlement × Delivery :=
  (i.settlement maxAttempts, i.delivery)

end Ingestion

/-- Takes some deliveries in, one after the other. -/
def ingestAll (ingest : ByteArray → σ → Except OpError α × σ) :
    List Delivery → σ → List (Ingestion α) × σ
  | [], world => ([], world)
  | d :: rest, world =>
    let (result, world) := ingest d.payload world
    let (log, world) := ingestAll ingest rest world
    (⟨d, result⟩ :: log, world)

/-- All ingestions of one message that was handed out so many times before: it is given back after
each but the last, and then acknowledged. -/
inductive Course (maxAttempts : Nat) (p : Publication) : Nat → List (Ingestion α) → Prop
  | last {n : Nat} {i : Ingestion α} (handed : i.delivery = p.delivery (n + 1))
    (final : i.settlement maxAttempts = .ack) : Course maxAttempts p n [i]
  | again {n : Nat} {i : Ingestion α} {rest : List (Ingestion α)}
    (handed : i.delivery = p.delivery (n + 1)) (retry : i.settlement maxAttempts = .nack)
    (course : Course maxAttempts p (n + 1) rest) : Course maxAttempts p n (i :: rest)

variable {ingest : ByteArray → σ → Except OpError α × σ} {maxAttempts n : Nat} {p : Publication}
  {course : List (Ingestion α)} {topic : String} {b : DurableBus} {rest : List (Publication × Nat)}

/-- A delivery is given back if it failed for now and the attempts are not used up. -/
theorem settlement_eq_nack {i : Ingestion α} : i.settlement maxAttempts = .nack ↔
    i.isTransient = true ∧ i.delivery.attempt < max maxAttempts 1 := by
  rw [Ingestion.settlement, Ingestion.isTransient]
  cases i.result with
  | ok a => exact iff_of_false nofun fun h => nomatch h.1
  | error e =>
    rw [Consumer.settlement]
    split
    · rename_i h
      exact iff_of_true rfl h
    · rename_i h
      exact iff_of_false nofun h

theorem ingestAll_cons (ingest : ByteArray → σ → Except OpError α × σ) (d : Delivery)
    (l : List Delivery) (world : σ) : ingestAll ingest (d :: l) world =
      (⟨d, (ingest d.payload world).1⟩ :: (ingestAll ingest l (ingest d.payload world).2).1,
        (ingestAll ingest l (ingest d.payload world).2).2) := rfl

theorem ingestAll_append (ingest : ByteArray → σ → Except OpError α × σ) (l l' : List Delivery)
    (world : σ) : ingestAll ingest (l ++ l') world =
      ((ingestAll ingest l world).1 ++ (ingestAll ingest l' (ingestAll ingest l world).2).1,
        (ingestAll ingest l' (ingestAll ingest l world).2).2) := by
  induction l generalizing world with
  | nil => rfl
  | cons d l ih => rw [List.cons_append, ingestAll_cons, ingestAll_cons, ih, List.cons_append]

/-! ## Courses -/

/-- Attempts that are allowed fit in a word. -/
theorem attemptWord_of_lt (word : maxAttempts < Nat.pow 2 32) (hn : n < max maxAttempts 1) :
    Delivery.attemptWord (n + 1) = n + 1 :=
  Nat.mod_eq_of_lt (Nat.lt_of_le_of_lt hn (Nat.max_lt.2 ⟨word, by decide⟩))

namespace Course

/-- Nothing is taken in once more when its attempts are used up. -/
theorem length_le (h : Course maxAttempts p n course) (word : maxAttempts < Nat.pow 2 32)
    (hn : n < max maxAttempts 1) : n + course.length ≤ max maxAttempts 1 := by
  induction h with
  | last => exact hn
  | again handed retry course ih =>
    obtain ⟨-, hlt⟩ := settlement_eq_nack.1 retry
    rw [handed, Publication.delivery, attemptWord_of_lt word hn] at hlt
    have hle := ih hlt
    rw [List.length_cons]
    omega

theorem length_pos (h : Course maxAttempts p n course) : 0 < course.length := by
  cases h <;> exact Nat.succ_pos _

theorem publication_eq (h : Course maxAttempts p n course) {i : Ingestion α} (hi : i ∈ course) :
    i.delivery.publication = p := by
  induction h with
  | last handed =>
    obtain rfl := List.mem_singleton.1 hi
    rw [handed, Publication.publication_delivery]
  | again handed retry course ih =>
    rcases List.mem_cons.1 hi with rfl | hi
    · rw [handed, Publication.publication_delivery]
    · exact ih hi

/-- What is taken in once more was given back. -/
theorem pairwise (h : Course maxAttempts p n course) :
    course.Pairwise fun i _ => i.settlement maxAttempts = .nack := by
  induction h with
  | last => exact List.pairwise_singleton _ _
  | again handed retry course ih => exact List.pairwise_cons.2 ⟨fun _ _ => retry, ih⟩

/-- A message is acknowledged once. -/
theorem acked (h : Course maxAttempts p n course) :
    (course.filter (·.settlement maxAttempts == .ack)).map (·.delivery.publication) = [p] := by
  induction h with
  | last handed final =>
    rw [List.filter_cons, if_pos (beq_iff_eq.2 final), List.filter_nil, List.map_singleton, handed,
      Publication.publication_delivery]
  | again handed retry course ih => rw [List.filter_cons, retry, if_neg (by decide), ih]

end Course

/-! ## Runs -/

/-- What came of some turns, after others that settled some deliveries. -/
def Outcome.after {β : Type} (o : Outcome β σ) (settled : List (Settlement × Delivery)) :
    Outcome β σ := { o with settled := settled ++ o.settled }

variable (ingest)

/-- In one turn the head of the queue is taken in and settled. -/
theorem run_turn (maxAttempts : Nat) (h : b.Ordered) (hq : b.queue topic = (p, n) :: rest)
    (now : Int) :
    ∃ (b' : DurableBus) (now' : Int), b'.Ordered ∧ b'.queue topic = (p, n + 1) :: rest ∧
      ∀ turns world, run (.durable topic) ingest maxAttempts (turns + 1) (b, now) world =
        match Ingestion.settlement maxAttempts ⟨p.delivery (n + 1), (ingest p.payload world).1⟩ with
        | .ack => (run (.durable topic) ingest maxAttempts turns
            (b'.ack now' (p.delivery (n + 1)), now') (ingest p.payload world).2).after
              [(.ack, p.delivery (n + 1))]
        | .nack => (run (.durable topic) ingest maxAttempts turns
            (b'.nack now' (p.delivery (n + 1)), now') (ingest p.payload world).2).after
              [(.nack, p.delivery (n + 1))] := by
  obtain ⟨b', hnext, ordered, hq'⟩ := h.next?_dueTime hq now
  refine ⟨b', b.dueTime now topic, ordered, hq', fun turns world => ?_⟩
  have hinbox : (Inbox.durable topic).next (b, now) =
      (.ok (some (p.delivery (n + 1))), (b', b.dueTime now topic)) := by
    simp only [Inbox.durable, hnext]
  rw [run, hinbox, Ingestion.settlement]
  have hpayload : (p.delivery (n + 1)).payload = p.payload := rfl
  simp only [hpayload]
  cases settlement maxAttempts (p.delivery (n + 1)).attempt (ingest p.payload world).1 <;> rfl

/-- Turn by turn the head of the queue is taken in until it is settled. -/
theorem run_course (word : maxAttempts < Nat.pow 2 32) (h : b.Ordered)
    (hq : b.queue topic = (p, n) :: rest) (hn : n < max maxAttempts 1) (now : Int) (world : σ) :
    ∃ (course : List (Ingestion α)) (b' : DurableBus) (now' : Int) (world' : σ),
      Course maxAttempts p n course ∧ b'.Ordered ∧ b'.queue topic = rest ∧
      ingestAll ingest (course.map (·.delivery)) world = (course, world') ∧
      ∀ turns, run (.durable topic) ingest maxAttempts (course.length + turns) (b, now) world =
        (run (.durable topic) ingest maxAttempts turns (b', now') world').after
          (course.map (·.settled maxAttempts)) := by
  -- The attempts that are left get fewer with every turn.
  induction hleft : max maxAttempts 1 - n using Nat.strongRecOn generalizing n b now world with
  | ind left ih =>
  obtain ⟨b', now', ordered, hq', hturn⟩ := run_turn ingest maxAttempts h hq now
  have hpayload : (p.delivery (n + 1)).payload = p.payload := rfl
  cases hs : Ingestion.settlement maxAttempts ⟨p.delivery (n + 1), (ingest p.payload world).1⟩ with
  | ack =>
    refine ⟨[⟨p.delivery (n + 1), (ingest p.payload world).1⟩], _, now',
      (ingest p.payload world).2, .last rfl hs, ordered.ack now' _,
      ordered.queue_ack_head hq' now' (n + 1), rfl, fun turns => ?_⟩
    rw [List.length_singleton, Nat.add_comm, hturn, List.map_singleton, Ingestion.settled, hs]
  | nack =>
    obtain ⟨-, hlt⟩ := settlement_eq_nack.1 hs
    have hlt : Delivery.attemptWord (n + 1) < max maxAttempts 1 := hlt
    rw [attemptWord_of_lt word hn] at hlt
    have hq'' : (b'.nack now' (p.delivery (n + 1))).queue topic = (p, n + 1) :: rest :=
      (DurableBus.queue_nack ..).trans hq'
    obtain ⟨course, b'', now'', world', hcourse, ordered', hrest, hlog, hrun⟩ :=
      ih _ (by omega) (ordered.nack now' _) hq'' hlt now' (ingest p.payload world).2 rfl
    refine ⟨⟨p.delivery (n + 1), (ingest p.payload world).1⟩ :: course, b'', now'', world',
      .again rfl hs hcourse, ordered', hrest, ?_, fun turns => ?_⟩
    · rw [List.map_cons, ingestAll_cons, hpayload, hlog]
    · rw [List.length_cons, Nat.add_right_comm, hturn, List.map_cons, Ingestion.settled, hs]
      simp only [hrun]
      rfl

/-- A consumer stops where nothing waits. -/
theorem run_of_queue_nil (hq : b.queue topic = []) (turns : Nat) (now : Int) (world : σ) :
    run (.durable topic) ingest maxAttempts turns (b, now) world = ⟨[], (b, now), world⟩ := by
  have hinbox : (Inbox.durable topic).next (b, now) = (.ok none, (b, now)) := by
    simp only [Inbox.durable, DurableBus.next?_of_queue_nil hq]
  cases turns with
  | zero => rfl
  | succ turns => rw [run, hinbox]

/-- What a consumer takes in of a fresh queue is one course after the other. -/
theorem run_durable (word : maxAttempts < Nat.pow 2 32) {published : List Publication}
    (h : b.Ordered) (hq : b.queue topic = published.map fun q => (q, 0)) (now : Int) (world : σ) :
    ∃ (courses : List (List (Ingestion α))) (b' : DurableBus) (now' : Int) (world' : σ),
      List.Forall₂ (fun q course => Course maxAttempts q 0 course) published courses ∧
      b'.queue topic = [] ∧
      ingestAll ingest (courses.flatten.map (·.delivery)) world = (courses.flatten, world') ∧
      ∀ turns, run (.durable topic) ingest maxAttempts (courses.flatten.length + turns) (b, now)
        world = ⟨courses.flatten.map (·.settled maxAttempts), (b', now'), world'⟩ := by
  induction published generalizing b now world with
  | nil => exact ⟨[], b, now, world, .nil, hq, rfl, fun turns => run_of_queue_nil ingest hq ..⟩
  | cons q published ih =>
    obtain ⟨course, b₁, now₁, world₁, hcourse, ordered, hq₁, hlog₁, hrun₁⟩ :=
      run_course ingest word h hq (by omega) now world
    obtain ⟨courses, b', now', world', hcourses, hq', hlog, hrun⟩ := ih ordered hq₁ now₁ world₁
    refine ⟨course :: courses, b', now', world', .cons hcourse hcourses, hq', ?_, fun turns => ?_⟩
    · rw [List.flatten_cons, List.map_append, ingestAll_append, hlog₁, hlog]
    · rw [List.flatten_cons, List.length_append, Nat.add_assoc, hrun₁, hrun, List.map_append]
      rfl

/-! ## What is settled -/

/-- Whether what was taken in settles some messages, each after those before it and within so many
attempts. -/
structure SettlesEach (maxAttempts : Nat) (published : List Publication)
    (log : List (Ingestion α)) : Prop where
  /-- Only these messages are taken in, as they were published. -/
  genuine : ∀ i ∈ log, i.delivery.publication ∈ published
  /-- They are acknowledged in their order, each once. -/
  acked : (log.filter (·.settlement maxAttempts == .ack)).map (·.delivery.publication) = published
  /-- When one is taken in, all before it are acknowledged. -/
  inOrder : ∀ before i later, log = before ++ i :: later → ∀ q ∈ published,
    q.offset < i.delivery.offset →
      ∃ j ∈ before, j.delivery.publication = q ∧ j.settlement maxAttempts = .ack
  /-- Each is taken in at least once, and not more often than it may be. -/
  tries : ∀ q ∈ published, 1 ≤ log.countP (·.delivery.publication = q) ∧
    log.countP (·.delivery.publication = q) ≤ max 1 maxAttempts
  /-- What is taken in once more failed for now. -/
  retried : ∀ before i later, log = before ++ i :: later →
    (∃ j ∈ later, j.delivery.publication = i.delivery.publication) → i.isTransient = true

namespace SettlesEach

variable {published : List Publication} {courses : List (List (Ingestion α))}

theorem genuine_of_courses
    (h : List.Forall₂ (fun q c => Course maxAttempts q 0 c) published courses) :
    ∀ i ∈ courses.flatten, i.delivery.publication ∈ published := by
  induction h with
  | nil => exact fun _ h => nomatch h
  | cons hcourse _ ih =>
    intro i hi
    rw [List.flatten_cons, List.mem_append] at hi
    rcases hi with hi | hi
    · exact hcourse.publication_eq hi ▸ List.mem_cons_self ..
    · exact List.mem_cons_of_mem _ (ih i hi)

theorem acked_of_courses
    (h : List.Forall₂ (fun q c => Course maxAttempts q 0 c) published courses) :
    (courses.flatten.filter (·.settlement maxAttempts == .ack)).map (·.delivery.publication) =
      published := by
  induction h with
  | nil => rfl
  | cons hcourse _ ih =>
    rw [List.flatten_cons, List.filter_append, List.map_append, hcourse.acked, ih]
    rfl

/-- After an ingestion come those of later messages only, or the message was given back. -/
theorem pairwise_of_courses
    (h : List.Forall₂ (fun q c => Course maxAttempts q 0 c) published courses)
    (hinc : (published.map (·.offset)).Pairwise (· < ·)) :
    courses.flatten.Pairwise fun i j => i.delivery.offset < j.delivery.offset ∨
      i.delivery.publication = j.delivery.publication ∧ i.settlement maxAttempts = .nack := by
  induction h with
  | nil => exact List.Pairwise.nil
  | @cons q course published courses hcourse hcourses ih =>
    rw [List.map_cons, List.pairwise_cons] at hinc
    rw [List.flatten_cons, List.pairwise_append]
    refine ⟨?_, ih hinc.2, fun i hi j hj => .inl ?_⟩
    · refine hcourse.pairwise.imp_of_mem fun {i j} hi hj hnack => .inr ⟨?_, hnack⟩
      rw [hcourse.publication_eq hi, hcourse.publication_eq hj]
    · have hq : i.delivery.offset = q.offset :=
        congrArg Publication.offset (hcourse.publication_eq hi)
      exact hq ▸ hinc.1 _ (List.mem_map_of_mem (genuine_of_courses hcourses j hj))

theorem tries_of_courses (h : List.Forall₂ (fun q c => Course maxAttempts q 0 c) published courses)
    (hinc : (published.map (·.offset)).Pairwise (· < ·)) (word : maxAttempts < Nat.pow 2 32) :
    ∀ q ∈ published, 1 ≤ courses.flatten.countP (·.delivery.publication = q) ∧
      courses.flatten.countP (·.delivery.publication = q) ≤ max 1 maxAttempts := by
  induction h with
  | nil => exact fun _ h => nomatch h
  | @cons q course published courses hcourse hcourses ih =>
    rw [List.map_cons, List.pairwise_cons] at hinc
    have hnot : q ∉ published := fun hq => Nat.lt_irrefl _ (hinc.1 _ (List.mem_map_of_mem hq))
    intro q' hq'
    rw [List.flatten_cons, List.countP_append]
    rcases List.mem_cons.1 hq' with rfl | hq'
    · have hown : course.countP (·.delivery.publication = q') = course.length :=
        List.countP_eq_length.2 fun i hi => decide_eq_true (hcourse.publication_eq hi)
      have hothers : courses.flatten.countP (·.delivery.publication = q') = 0 := by
        refine List.countP_eq_zero.2 fun i hi heq => hnot ?_
        exact of_decide_eq_true heq ▸ genuine_of_courses hcourses i hi
      have hle := hcourse.length_le word (by omega)
      have hpos := hcourse.length_pos
      rw [hown, hothers]
      omega
    · have hothers : course.countP (·.delivery.publication = q') = 0 := by
        refine List.countP_eq_zero.2 fun i hi heq => hnot ?_
        rw [← hcourse.publication_eq hi, of_decide_eq_true heq]
        exact hq'
      rw [hothers, Nat.zero_add]
      exact ih hinc.2 q' hq'

/-- One course after the other settles each message. -/
theorem of_courses (h : List.Forall₂ (fun q c => Course maxAttempts q 0 c) published courses)
    (hinc : (published.map (·.offset)).Pairwise (· < ·)) (word : maxAttempts < Nat.pow 2 32) :
    SettlesEach maxAttempts published courses.flatten where
  genuine := genuine_of_courses h
  acked := acked_of_courses h
  inOrder before i later hlog q hq hlt := by
    have hacked := hq
    rw [← acked_of_courses h, List.mem_map] at hacked
    obtain ⟨j, hj, rfl⟩ := hacked
    obtain ⟨hj, hack⟩ := List.mem_filter.1 hj
    have hpairwise := pairwise_of_courses h hinc
    rw [hlog, List.pairwise_append, List.pairwise_cons] at hpairwise
    rw [hlog, List.mem_append, List.mem_cons] at hj
    have hlt : j.delivery.offset < i.delivery.offset := hlt
    rcases hj with hj | rfl | hj
    · exact ⟨j, hj, rfl, beq_iff_eq.1 hack⟩
    · exact absurd hlt (Nat.lt_irrefl _)
    · rcases hpairwise.2.1.1 j hj with hlt' | ⟨heq, -⟩
      · exact absurd hlt (Nat.lt_asymm hlt')
      · have hoffset : i.delivery.offset = j.delivery.offset := congrArg Publication.offset heq
        exact absurd hlt (hoffset ▸ Nat.lt_irrefl _)
  tries := tries_of_courses h hinc word
  retried before i later hlog hj := by
    obtain ⟨j, hj, heq⟩ := hj
    have hpairwise := pairwise_of_courses h hinc
    rw [hlog, List.pairwise_append, List.pairwise_cons] at hpairwise
    rcases hpairwise.2.1.1 j hj with hlt | ⟨-, hnack⟩
    · have hoffset : j.delivery.offset = i.delivery.offset := congrArg Publication.offset heq
      exact absurd hlt (hoffset ▸ Nat.lt_irrefl _)
    · exact (settlement_eq_nack.1 hnack).1

end SettlesEach

/-- Courses take no more turns than their attempts allow. -/
theorem length_flatten_le {published : List Publication} {courses : List (List (Ingestion α))}
    (h : List.Forall₂ (fun q c => Course maxAttempts q 0 c) published courses)
    (word : maxAttempts < Nat.pow 2 32) :
    courses.flatten.length ≤ published.length * max maxAttempts 1 := by
  induction h with
  | nil => exact Nat.zero_le _
  | cons hcourse _ ih =>
    have hle := hcourse.length_le word (by omega)
    rw [List.flatten_cons, List.length_append, List.length_cons, Nat.succ_mul]
    omega

/-- What comes of publishing messages to a topic and letting a consumer go on with it. -/
def consume (maxAttempts : Nat) (b : DurableBus) (topic : String)
    (messages : List (Int × String × ByteArray)) (now : Int) (world : σ) (spare : Nat) :
    Outcome (DurableBus × Int) σ :=
  run (.durable topic) ingest maxAttempts (turns messages.length maxAttempts spare)
    ((b.publishAll topic messages).2, now) world

/-- Whatever comes of taking messages in, a consumer settles all that was freshly published to its
topic, each message after those before it and within its attempts, and leaves nothing. -/
theorem settles_each {backoff : Nat} {calls : List (Int × BusCall)}
    (drained : (Traffic.after backoff calls).bus.pending topic = 0)
    (word : maxAttempts < Nat.pow 2 32) (messages : List (Int × String × ByteArray)) (now : Int)
    (world : σ) (spare : Nat) :
    ∃ (log : List (Ingestion α)) (o : Outcome (DurableBus × Int) σ),
      consume ingest maxAttempts (Traffic.after backoff calls).bus topic messages now world spare =
        o ∧
      ingestAll ingest (o.settled.map (·.2)) world = (log, o.world) ∧
      o.settled = log.map (·.settled maxAttempts) ∧
      SettlesEach maxAttempts ((Traffic.after backoff calls).bus.publishAll topic messages).1 log ∧
      o.bus.1.pending topic = 0 := by
  have ordered := (Traffic.kept backoff calls).ordered.publishAll topic messages
  have hq := DurableBus.queue_publishAll (Traffic.after backoff calls).bus topic messages
  rw [DurableBus.pending_eq, List.length_eq_zero_iff] at drained
  rw [drained, List.nil_append] at hq
  have hinc := ordered.queue_increasing topic
  rw [hq, List.map_map] at hinc
  obtain ⟨courses, b', now', world', hcourses, hq', hlog, hrun⟩ :=
    run_durable ingest word ordered hq now world
  have hle := length_flatten_le hcourses word
  rw [DurableBus.length_publishAll] at hle
  obtain ⟨rest, hturns⟩ : ∃ rest, turns messages.length maxAttempts spare =
      courses.flatten.length + rest := Nat.exists_eq_add_of_le (by rw [turns]; omega)
  have hconsume := hrun rest
  rw [← hturns] at hconsume
  refine ⟨courses.flatten, _, hconsume, ?_, rfl, .of_courses hcourses hinc word, ?_⟩
  · rw [List.map_map]
    exact hlog
  · rw [DurableBus.pending_eq, hq', List.length_nil]

/-- Takes messages in as it was told before. -/
def scripted (_ : ByteArray) :
    List (Except OpError Unit) → Except OpError Unit × List (Except OpError Unit)
  | [] => (.ok (), [])
  | r :: rest => (r, rest)

/-- The first message fails once for now, the second one whenever it is taken in, and the third one
for good. -/
def script : List (Except OpError Unit) := [
  .error (.database "query" "locked"), .ok (), .error (.database "query" "locked"),
  .error (.bus "publish" "eu-1-incoming" "closed"), .error (.frame "too short")]

/-- A run that drains the topic of the reports. -/
def drainedRun : List (Int × BusCall) := Traffic.redelivery ++ [(42, .ack 0 2)]

/-- What is published to it then. -/
def freshReports : List (Int × String × ByteArray) :=
  [(50, "default", ⟨#[3]⟩), (51, "default", ⟨#[4]⟩), (52, "default", ⟨#[5]⟩)]

theorem settles_each_scripted :
    (Traffic.after 20 drainedRun).bus.pending "reports" = 0 ∧ 2 < Nat.pow 2 32 ∧
    ∃ (log : List (Ingestion Unit)) (o : Outcome (DurableBus × Int) (List (Except OpError Unit))),
      consume scripted 2 (Traffic.after 20 drainedRun).bus "reports" freshReports 60 script 0 = o ∧
      ingestAll scripted (o.settled.map (·.2)) script = (log, o.world) ∧
      o.settled = log.map (·.settled 2) ∧
      SettlesEach 2 ((Traffic.after 20 drainedRun).bus.publishAll "reports" freshReports).1 log ∧
      o.bus.1.pending "reports" = 0 := by
  have drained : (Traffic.after 20 drainedRun).bus.pending "reports" = 0 := by decide
  have word : 2 < Nat.pow 2 32 := by decide
  exact ⟨drained, word, settles_each scripted drained word freshReports 60 script 0⟩

/-- The first two are taken in twice, and the third one once. -/
example : ((consume scripted 2 (Traffic.after 20 drainedRun).bus "reports" freshReports 60 script
    0).settled.map fun s => (s.1, s.2.offset, s.2.attempt)) = [(.nack, 3, 1), (.ack, 3, 2),
      (.nack, 4, 1), (.ack, 4, 2), (.ack, 5, 1)] := by
  decide +kernel

end Consumer

end FleetSync
