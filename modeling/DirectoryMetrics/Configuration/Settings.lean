import DirectoryMetrics.Configuration.Pipeline
import DirectoryMetrics.Network.Uri
import DirectoryMetrics.Time.Phrase

namespace DirectoryMetrics

/-- How a server is reached; no timeout means to wait for ever. -/
structure Connection where
  serverUri : String
  userDn : Option String
  userPassword : Option String
  startTls : Bool
  timeout : Option Duration
  deriving DecidableEq, Repr

structure Server where
  database : Option String
  connection : Option Connection
  /-- The metrics to collect; all of them if this is absent. -/
  chosenStatistics : Option (List String)
  object : Option Node

/-- The name of a server: its database, else the address of its connection. -/
def Server.name? (server : Server) : Option String :=
  (server.database.filter (!·.isEmpty)).orElse fun _ => server.connection.map (·.serverUri)

structure PullOptions where
  namespaceName : String
  portNumber : Nat
  address : Ip
  deriving DecidableEq, Repr

structure PushOptions where
  projectId : String
  endpoint : Option String
  accessToken : Option String
  metricPrefix : String
  deriving DecidableEq, Repr

inductive Exporter where
  | pull (options : PullOptions)
  | push (options : PushOptions)
  deriving DecidableEq, Repr

inductive LogFormat where
  | full
  | compact
  deriving DecidableEq, Repr

namespace LogFormat

def name : LogFormat → String
  | .full => "full"
  | .compact => "compact"

def all : List LogFormat := [.full, .compact]

def ofName? (name : String) : Option LogFormat := all.find? (·.name == name)

end LogFormat

structure LogConfig where
  level : String
  filter : Option String
  format : LogFormat
  ansi : Bool
  deriving DecidableEq, Repr

structure Settings where
  servers : List Server
  exporters : List Exporter
  period : Duration
  dnRoot : String
  interpolateMetricNames : Bool
  parallelCollection : Bool
  logConfig : Option LogConfig

def Settings.initial : Settings := ⟨[], [], .ofSeconds 5, "", true, false, none⟩

namespace Settings.Reading

/-- A whole number of seconds, a fraction of them, or a length in words. -/
def period : Reader Duration := fun node =>
  if node.hasTag then .error .unsupportedTag
  else
    let ofFraction (seconds : Float) : Except Mismatch Duration :=
      match Duration.ofFloatSeconds? seconds with
      | some d => .ok d
      | none =>
          .error (.badPeriod (DecimalStyle.plain.write seconds)
            "expected a positive number of seconds")
    match node with
    | .int seconds =>
        if 0 ≤ seconds then .ok (.ofSeconds seconds.toNat) else ofFraction (Float.ofInt seconds)
    | .float seconds => ofFraction seconds
    | .text words =>
        match Duration.readPhrase words with
        | .ok d => .ok d
        | .error e => .error (.badPeriod words e.message)
    | _ => .error (.noVariant "Seconds")

/-- Nothing, zero and less mean no timeout. -/
def timeout : Reader (Option Duration) := fun node => do
  match ← Reader.optional Reader.number node with
  | none => return none
  | some seconds =>
      if seconds ≤ 0 then return none
      match Duration.ofFloatSeconds? seconds with
      | some d => return some d
      | none => throw (.badTimeout (DecimalStyle.plain.write seconds))

open Reader in
def connectionFields : List (Reader.Field Connection) :=
  [field "server_uri" text fun v c => { c with serverUri := v },
    field "user_dn" (optional text) fun v c => { c with userDn := v },
    field "user_password" (optional text) fun v c => { c with userPassword := v },
    field "start_tls" flag fun v c => { c with startTls := v },
    field "timeout" timeout fun v c => { c with timeout := v }]

def connectionDefaults : Connection := ⟨"", none, none, false, none⟩

def connection : Reader Connection :=
  Reader.record "ConnectionConfig" connectionFields connectionDefaults ["server_uri"]

open Reader in
def serverFields : List (Reader.Field Server) :=
  [field "database" (optional text) fun v s => { s with database := v },
    field "connection" (optional connection) fun v s => { s with connection := v },
    field "chosen_statistics" (optional (list text)) fun v s => { s with chosenStatistics := v },
    field "object" (optional .ok) fun v s => { s with object := v }]

def serverDefaults : Server := ⟨none, none, none, none⟩

def server : Reader Server := Reader.record "ServerConfig" serverFields serverDefaults []

def address : Reader Ip := fun node =>
  match node.untag with
  | .text value =>
      match Ip.read? value with
      | some ip => .ok ip
      | none => .error .badAddress
  | found => .error (.wrongType found "IP address")

open Reader in
/-- The fields of the options of an exporter, in the order in which a list may hold them. -/
def pullFields : List (Reader.Field PullOptions) :=
  [field "namespace" text fun v o => { o with namespaceName := v },
    field "port" portNumber fun v o => { o with portNumber := v },
    field "address" address fun v o => { o with address := v }]

def pullDefaults : PullOptions := ⟨"openldap", 8000, .v4 [0, 0, 0, 0]⟩

open Reader in
def pushFields : List (Reader.Field PushOptions) :=
  [field "project_id" text fun v o => { o with projectId := v },
    field "endpoint" (optional text) fun v o => { o with endpoint := v },
    field "access_token" (optional text) fun v o => { o with accessToken := v },
    field "metric_prefix" text fun v o => { o with metricPrefix := v }]

def pushDefaults : PushOptions := ⟨"", none, none, "custom.googleapis.com/openldap"⟩

inductive ExporterKind where
  | pull
  | push
  deriving DecidableEq, Repr

/-- How the options of a kind of exporter are read: as a record, where they come after the name, and
as a record or a list, where they come before it. -/
def options (buffered : Bool) (kind : ExporterKind) : Reader Exporter := fun node =>
  let read {σ : Type} (name : String) (fields : List (Reader.Field σ)) (start : σ)
      (required : List String) : Except Mismatch σ :=
    if buffered then Reader.plainRecord name fields start required node
    else Reader.record name fields start required node
  match kind with
  | .pull => (read "PrometheusOptions" pullFields pullDefaults []).map .pull
  | .push =>
      (read "StackdriverOptions" pushFields pushDefaults ["project_id"]).map .push

def exporterKind : Reader ExporterKind :=
  Reader.variant [("Prometheus", .pull), ("Stackdriver", .push)]

def exporter : Reader Exporter :=
  Reader.adjacent "ExporterConfig" "name" "options" exporterKind options

open Reader in
def logConfig : Reader LogConfig :=
  record "LogConfig"
    [field "level" text fun v l => { l with level := v },
      field "filter" (optional text) fun v l => { l with filter := v },
      field "format" (variant (LogFormat.all.map fun f => (f.name, f)))
        fun v l => { l with format := v },
      field "ansi" flag fun v l => { l with ansi := v }]
    ⟨"info", none, .full, true⟩ []

open Reader in
def settingsFields : List (Reader.Field Settings) :=
  [field "ldap_servers" (list server) fun v s => { s with servers := v },
    field "exporters" (list exporter) fun v s => { s with exporters := v },
    field "period" period fun v s => { s with period := v },
    field "dn_root" text fun v s => { s with dnRoot := v },
    field "interpolate_metric_names" flag fun v s => { s with interpolateMetricNames := v },
    field "parallel_collection" flag fun v s => { s with parallelCollection := v },
    field "log_config" (optional logConfig) fun v s => { s with logConfig := v }]

def settings : Reader Settings := Reader.record "Settings" settingsFields Settings.initial []

end Settings.Reading

namespace Settings

def checkUri (server : Server) : Except ConfigError Unit :=
  match server.connection with
  | none => .ok ()
  | some connection =>
      match Uri.check connection.serverUri with
      | .ok () => .ok ()
      | .error reason =>
          .error (.invalidUri (server.name?.getD "") connection.serverUri reason)

/-- A period is positive, and every server has an absolute address. -/
def ofTree (tree : Node) : Except ConfigError Settings := do
  let settings ←
    match Reading.settings tree with
    | .ok settings => pure settings
    | .error mismatch => throw (.invalid mismatch)
  if settings.period.isZero then
    throw (.period "0" "the collection period must be positive")
  settings.servers.forM checkUri
  return settings

end Settings

def optionText (show? : Option String) : String :=
  match show? with
  | some text => "Some(" ++ text ++ ")"
  | none => "None"

def redacted (secret : Option String) : Option String :=
  secret.map fun _ => Text.quote "<redacted>"

def Connection.describe (c : Connection) : String :=
  "ConnectionConfig \x7b server_uri: " ++ Text.quote c.serverUri ++
    ", user_dn: " ++ optionText (c.userDn.map Text.quote) ++
    ", user_password: " ++ optionText (redacted c.userPassword) ++
    ", start_tls: " ++ toString c.startTls ++
    ", timeout: " ++ optionText (c.timeout.map Duration.describe) ++ " \x7d"

def PushOptions.describe (o : PushOptions) : String :=
  "StackdriverOptions \x7b project_id: " ++ Text.quote o.projectId ++
    ", endpoint: " ++ optionText (o.endpoint.map Text.quote) ++
    ", access_token: " ++ optionText (redacted o.accessToken) ++
    ", metric_prefix: " ++ Text.quote o.metricPrefix ++ " \x7d"

end DirectoryMetrics
