import FleetSync.Json.Basic

/-!
# Configuration

The settings of the control plane, read from environment variables (`Config.ofEnvironment`). Only
the database has no default. Settings are read in a fixed order, and the limits on them are checked
once all of them are read.
-/

namespace FleetSync

/-- What is wrong with an environment. -/
inductive ConfigError where
  | missing (key : String)
  | invalid (key hint : String)
deriving DecidableEq, Repr, Inhabited

namespace ConfigError

/-- The name of the kind of error. -/
def name : ConfigError → String
  | missing _ => "Missing"
  | invalid .. => "Invalid"

/-- The text of the error. -/
def message : ConfigError → String
  | missing key => s!"missing required environment variable: {key}"
  | invalid key hint => s!"invalid value for {key}: {hint}"

end ConfigError

/-- How often a worker wakes up and the age it acts on, both in seconds. -/
structure WorkerConfig where
  pollSeconds : Nat
  ageSeconds : Nat
deriving DecidableEq, Repr, Inhabited

namespace WorkerConfig

/-- The stale sweep of a control plane that does not say. -/
def staleDefault : WorkerConfig := ⟨60, 300⟩

/-- The bus cleanup of a control plane that does not say. -/
def cleanupDefault : WorkerConfig := ⟨3600, 86400⟩

/-- The times of a worker as a value. -/
def encode (w : WorkerConfig) : Json := .arr [.ofInt w.pollSeconds, .ofInt w.ageSeconds]

end WorkerConfig

/-- The values of environment variables. -/
abbrev Environment := String → Option String

/-- The settings of the control plane. -/
structure Config where
  databaseUrl : String
  agentTopic : String
  clusterTopicSuffix : String
  busPollMillis : Nat
  staleAfterSeconds : Nat
  stalePollSeconds : Nat
  eventCapacity : Nat
  busRetentionSeconds : Nat
  cleanupPollSeconds : Nat
deriving DecidableEq, Repr, Inhabited

namespace Config

/-- The bound of an unsigned 64-bit number. -/
def wordBound : Nat := Nat.pow 2 64

/-- The 64-bit number a text writes in decimal, with or without a plus sign. -/
def word? (s : String) : Option Nat :=
  let ds := match s.toList with
    | '+' :: rest => rest
    | ds => ds
  if ds.isEmpty || !ds.all Char.isDigit then none
  else
    let n := ds.foldl (fun n c => n * 10 + (c.toNat - '0'.toNat)) 0
    if n < wordBound then some n else none

/-- The number a variable holds, or its default. -/
def wordOf (env : Environment) (key : String) (default : Nat) (hint : String) :
    Except ConfigError Nat :=
  match env key with
  | none => .ok default
  | some s => (word? s).elim (.error (.invalid key hint)) .ok

/-- Checks that a number is not zero. -/
def positive (key : String) (n : Nat) : Except ConfigError Unit :=
  if n = 0 then .error (.invalid key "must be greater than zero") else .ok ()

/-- What is said of a text that is no number of milliseconds. -/
def millisHint : String := "must be a positive number of milliseconds"

/-- What is said of a text that is no number of seconds. -/
def secondsHint : String := "must be a positive number of seconds"

/-- What is said of a text that is no number. -/
def integerHint : String := "must be a positive integer"

/-- The settings an environment gives. -/
def ofEnvironment (env : Environment) : Except ConfigError Config := do
  let some databaseUrl := env "STRATO_DATABASE_URL"
    | .error (.missing "STRATO_DATABASE_URL")
  let agentTopic := (env "STRATO_AGENT_TOPIC").getD "agent-reports"
  if agentTopic.isEmpty then .error (.invalid "STRATO_AGENT_TOPIC" "must not be empty")
  else
    let suffix := (env "STRATO_CLUSTER_TOPIC_SUFFIX").getD "-incoming"
    let poll ← wordOf env "STRATO_BUS_POLL_INTERVAL_MS" 500 millisHint
    let staleAfter ← wordOf env "STRATO_STALE_SYNC_AFTER_SECS" 300 secondsHint
    let stalePoll ← wordOf env "STRATO_STALE_SYNC_INTERVAL_SECS" 60 secondsHint
    let capacity ← wordOf env "STRATO_EVENT_CHANNEL_CAPACITY" 1024 integerHint
    let retention ← wordOf env "STRATO_BUS_RETENTION_SECS" 86400 secondsHint
    let cleanupPoll ← wordOf env "STRATO_BUS_CLEANUP_INTERVAL_SECS" 3600 secondsHint
    positive "STRATO_BUS_POLL_INTERVAL_MS" poll
    positive "STRATO_STALE_SYNC_INTERVAL_SECS" stalePoll
    positive "STRATO_BUS_CLEANUP_INTERVAL_SECS" cleanupPoll
    positive "STRATO_EVENT_CHANNEL_CAPACITY" capacity
    return ⟨databaseUrl, agentTopic, suffix, poll, staleAfter, stalePoll, capacity, retention,
      cleanupPoll⟩

/-- The stale sweep the settings ask for. -/
def staleWorker (c : Config) : WorkerConfig := ⟨c.stalePollSeconds, c.staleAfterSeconds⟩

/-- The bus cleanup the settings ask for. -/
def cleanupWorker (c : Config) : WorkerConfig := ⟨c.cleanupPollSeconds, c.busRetentionSeconds⟩

/-- The settings as a value. -/
def encode (c : Config) : Json := .obj [
  ("database_url", .str c.databaseUrl),
  ("agent_topic", .str c.agentTopic),
  ("cluster_topic_suffix", .str c.clusterTopicSuffix),
  ("bus_poll_interval_ms", .ofInt c.busPollMillis),
  ("stale_sync_after_secs", .ofInt c.staleAfterSeconds),
  ("stale_sync_interval_secs", .ofInt c.stalePollSeconds),
  ("event_channel_capacity", .ofInt c.eventCapacity),
  ("bus_retention_secs", .ofInt c.busRetentionSeconds),
  ("bus_cleanup_interval_secs", .ofInt c.cleanupPollSeconds),
  ("stale_worker", c.staleWorker.encode),
  ("cleanup_worker", c.cleanupWorker.encode)]

end Config

end FleetSync
