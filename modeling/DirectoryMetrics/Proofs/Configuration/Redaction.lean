import DirectoryMetrics.Proofs.Configuration.ChangedReading

namespace DirectoryMetrics

/-! Secrets: the passwords of servers and the access tokens of exporters. With secrets hidden a
configuration is read to the same settings with secrets hidden, unless reading meets a secret that
is no text. -/

namespace Node

def isOtherScalar : Node → Bool
  | .bool _ | .int _ | .float _ => true
  | .tagged _ content => content.isOtherScalar
  | .null | .text _ | .sequence _ | .mapping _ => false

def hide : Node → Node
  | .tagged tag content => .tagged tag content.hide
  | .bool _ | .int _ | .float _ | .text _ => .text "<redacted>"
  | node => node

def mapPasswords (g : Node → Node) : Node → Node :=
  mapField Field.ldapServers (mapItems (mapField Field.connection (mapField "user_password" g)))

def mapTokens (g : Node → Node) : Node → Node :=
  mapField "exporters" (mapItems (mapField "options" (mapField "access_token" g)))

def mapSecrets (g : Node → Node) (tree : Node) : Node := (tree.mapPasswords g).mapTokens g

def redact (tree : Node) : Node := tree.mapSecrets hide

theorem hide_eq_null (node : Node) : node.hide = .null ↔ node = .null := by
  cases node <;> simp [hide]

theorem hasTag_hide (node : Node) : node.hide.hasTag = node.hasTag := by
  cases node <;> rfl

end Node

def Connection.redact (c : Connection) : Connection :=
  { c with userPassword := redacted c.userPassword }

def PushOptions.redact (o : PushOptions) : PushOptions :=
  { o with accessToken := redacted o.accessToken }

def Exporter.redact : Exporter → Exporter
  | .push options => .push options.redact
  | exporter => exporter

def Server.redact (server : Server) : Server :=
  { server with connection := server.connection.map Connection.redact }

def Settings.redact (settings : Settings) : Settings :=
  { settings with
    servers := settings.servers.map Server.redact
    exporters := settings.exporters.map Exporter.redact }

theorem redacted_redacted (secret : Option String) :
    redacted (redacted secret) = redacted secret := by
  cases secret <;> rfl

theorem Connection.describe_redact (c : Connection) : c.redact.describe = c.describe := by
  unfold describe
  simp only [redact, redacted_redacted]

theorem PushOptions.describe_redact (o : PushOptions) : o.redact.describe = o.describe := by
  unfold describe
  simp only [redact, redacted_redacted]

namespace Settings.Reading

theorem text_follows : ∀ node : Node,
    Follows (node.isOtherScalar = true) (fun _ => Text.quote "<redacted>") (Reader.text node)
      (Reader.text node.hide)
  | .tagged _ content => text_follows content
  | .bool _ | .int _ | .float _ => .inl rfl
  | .text _ => .of_ok rfl
  | .null | .sequence _ | .mapping _ => .refl _

theorem secret_follows (node : Node) :
    Follows (node.isOtherScalar = true) redacted (Reader.optional Reader.text node)
      (Reader.optional Reader.text node.hide) :=
  Reader.optional_follows text_follows Node.hide_eq_null node

def MeetsPassword : Node → Prop :=
  Reader.MeetsField connectionFields connectionDefaults "user_password" (·.isOtherScalar)

def MeetsServerPassword : Node → Prop :=
  Reader.MeetsField serverFields serverDefaults Field.connection MeetsPassword

/-- Options are read as a record where they come after the name of their exporter, and also by
positions where they come before it. -/
def MeetsToken (buffered : Bool) (kind : ExporterKind) (node : Node) : Prop :=
  kind = .push ∧
    if buffered then
      Reader.MeetsPlainField pushFields pushDefaults "access_token" (·.isOtherScalar) node
    else Reader.MeetsField pushFields pushDefaults "access_token" (·.isOtherScalar) node

def MeetsExporterToken : Node → Prop :=
  Reader.MeetsContent "name" "options" exporterKind MeetsToken

def MeetsServersPassword : Node → Prop :=
  Reader.MeetsField settingsFields Settings.initial Field.ldapServers
    (Reader.MeetsListed server MeetsServerPassword)

def MeetsExportersToken : Node → Prop :=
  Reader.MeetsField settingsFields Settings.initial "exporters"
    (Reader.MeetsListed exporter MeetsExporterToken)

theorem connection_follows (node : Node) :
    Follows (MeetsPassword node) Connection.redact (connection node)
      (connection (node.mapField "user_password" Node.hide)) := by
  refine Reader.record_follows ?_ _ _ _ node
  simp only [connectionFields, List.forall_mem_cons]
  exact ⟨Reader.field_follows_of_ne (by decide) fun _ _ => rfl,
    Reader.field_follows_of_ne (by decide) fun _ _ => rfl,
    Reader.field_follows (fun v c => { c with userPassword := v }) (fun _ _ => rfl)
      fun _ => secret_follows,
    Reader.field_follows_of_ne (by decide) fun _ _ => rfl,
    Reader.field_follows_of_ne (by decide) fun _ _ => rfl, by simp⟩

theorem server_follows (node : Node) :
    Follows (MeetsServerPassword node) Server.redact (server node)
      (server (node.mapField Field.connection (Node.mapField "user_password" Node.hide))) := by
  have hconnection := Reader.optional_follows connection_follows (Node.mapMapping_eq_null _)
  refine Reader.record_follows ?_ _ _ _ node
  simp only [serverFields, List.forall_mem_cons]
  exact ⟨Reader.field_follows_of_ne (by decide) fun _ _ => rfl,
    Reader.field_follows (fun v s => { s with connection := v }) (fun _ _ => rfl)
      fun _ => hconnection,
    Reader.field_follows_of_ne (by decide) fun _ _ => rfl,
    Reader.field_follows_of_ne (by decide) fun _ _ => rfl, by simp⟩

theorem pushFields_follow : ∀ field ∈ pushFields,
    field.Follows (·.isOtherScalar) PushOptions.redact "access_token" Node.hide := by
  simp only [pushFields, List.forall_mem_cons]
  exact ⟨Reader.field_follows_of_ne (by decide) fun _ _ => rfl,
    Reader.field_follows_of_ne (by decide) fun _ _ => rfl,
    Reader.field_follows (fun v o => { o with accessToken := v }) (fun _ _ => rfl)
      fun _ => secret_follows,
    Reader.field_follows_of_ne (by decide) fun _ _ => rfl, by simp⟩

theorem pullFields_follow : ∀ field ∈ pullFields,
    field.Follows (fun _ => False) id "access_token" Node.hide := by
  simp only [pullFields, List.forall_mem_cons]
  exact ⟨Reader.field_follows_of_ne (by decide) fun _ _ => rfl,
    Reader.field_follows_of_ne (by decide) fun _ _ => rfl,
    Reader.field_follows_of_ne (by decide) fun _ _ => rfl, by simp⟩

theorem options_follows (buffered : Bool) (kind : ExporterKind) (node : Node)
    (hplain : buffered = false ∨ node.hasTag = false) :
    Follows (MeetsToken buffered kind node) Exporter.redact (options buffered kind node)
      (options buffered kind (node.mapField "access_token" Node.hide)) := by
  cases kind with
  | pull =>
      have hpull (a b : PullOptions) (hsame : a = b) : Exporter.pull a = Exporter.pull b :=
        congrArg _ hsame
      cases buffered with
      | false =>
          have hrecord :=
            Reader.record_follows pullFields_follow "PrometheusOptions" pullDefaults [] node
          exact (hrecord.mono fun hmeets => absurd hmeets Reader.not_meetsField).map hpull
      | true =>
          have hrecord := Reader.plainRecord_follows pullFields_follow "PrometheusOptions"
            pullDefaults [] (hplain.resolve_left Bool.noConfusion)
          exact (hrecord.mono fun hmeets => absurd hmeets Reader.not_meetsPlainField).map hpull
  | push =>
      have hpush (a b : PushOptions) (hsame : a.redact = b.redact) :
          Exporter.push a.redact = Exporter.push b.redact := congrArg _ hsame
      cases buffered with
      | false =>
          have hrecord := Reader.record_follows pushFields_follow "StackdriverOptions" pushDefaults
            ["project_id"] node
          exact (hrecord.mono fun hmeets => ⟨rfl, hmeets⟩).map hpush
      | true =>
          have hrecord := Reader.plainRecord_follows pushFields_follow "StackdriverOptions"
            pushDefaults ["project_id"] (hplain.resolve_left Bool.noConfusion)
          exact (hrecord.mono fun hmeets => ⟨rfl, hmeets⟩).map hpush

theorem exporter_follows (node : Node) :
    Follows (MeetsExporterToken node) Exporter.redact (exporter node)
      (exporter (node.mapField "options" (Node.mapField "access_token" Node.hide))) :=
  Reader.adjacent_follows (by decide) _ (Node.hasTag_mapField Node.hasTag_hide _) options_follows
    node

theorem settingsFields_follow_passwords : ∀ field ∈ settingsFields,
    field.Follows (Reader.MeetsListed server MeetsServerPassword) Settings.redact Field.ldapServers
      (Node.mapItems
        (Node.mapField Field.connection (Node.mapField "user_password" Node.hide))) := by
  have hservers (node : Node) := Reader.list_follows server_follows node
  simp only [settingsFields, List.forall_mem_cons]
  exact ⟨Reader.field_follows (fun v s => { s with servers := v }) (fun _ _ => rfl)
      fun _ => hservers,
    Reader.field_follows (fun v s => { s with exporters := v }) (fun _ _ => rfl)
      fun hname => absurd hname (by decide),
    Reader.field_follows_of_ne (by decide) fun _ _ => rfl,
    Reader.field_follows_of_ne (by decide) fun _ _ => rfl,
    Reader.field_follows_of_ne (by decide) fun _ _ => rfl,
    Reader.field_follows_of_ne (by decide) fun _ _ => rfl,
    Reader.field_follows_of_ne (by decide) fun _ _ => rfl, by simp⟩

theorem settingsFields_follow_tokens : ∀ field ∈ settingsFields,
    field.Follows (Reader.MeetsListed exporter MeetsExporterToken) Settings.redact "exporters"
      (Node.mapItems (Node.mapField "options" (Node.mapField "access_token" Node.hide))) := by
  have hexporters (node : Node) := Reader.list_follows exporter_follows node
  simp only [settingsFields, List.forall_mem_cons]
  exact ⟨Reader.field_follows (fun v s => { s with servers := v }) (fun _ _ => rfl)
      fun hname => absurd hname (by decide),
    Reader.field_follows (fun v s => { s with exporters := v }) (fun _ _ => rfl)
      fun _ => hexporters,
    Reader.field_follows_of_ne (by decide) fun _ _ => rfl,
    Reader.field_follows_of_ne (by decide) fun _ _ => rfl,
    Reader.field_follows_of_ne (by decide) fun _ _ => rfl,
    Reader.field_follows_of_ne (by decide) fun _ _ => rfl,
    Reader.field_follows_of_ne (by decide) fun _ _ => rfl, by simp⟩

theorem settings_follows (tree : Node) :
    Follows (MeetsServersPassword tree ∨ MeetsExportersToken tree) Settings.redact (settings tree)
      (settings tree.redact) := by
  have hpasswords := Reader.record_follows settingsFields_follow_passwords "Settings"
    Settings.initial [] tree
  have htokens := Reader.record_follows settingsFields_follow_tokens "Settings" Settings.initial []
    (tree.mapPasswords Node.hide)
  refine (hpasswords.mono .inl).trans (htokens.mono fun hmeets => ?_)
  exact hmeets.of_mapField settingsFields_follow_passwords (by decide)

def TellsScalar (mismatch : Mismatch) : Prop :=
  ∃ found : Node, found.isOtherScalar = true ∧ mismatch = .wrongType found "a string"

theorem text_fails : ∀ node : Node, node.isOtherScalar = true →
    FailsWith TellsScalar (Reader.text node)
  | .tagged _ content, hscalar => text_fails content hscalar
  | .bool _, hscalar | .int _, hscalar | .float _, hscalar => ⟨_, rfl, _, hscalar, rfl⟩

theorem secret_fails (node : Node) (hscalar : node.isOtherScalar = true) :
    FailsWith TellsScalar (Reader.optional Reader.text node) := by
  refine Reader.optional_fails text_fails ?_ hscalar
  rintro rfl
  cases hscalar

theorem connection_fails (node : Node) (hmeets : MeetsPassword node) :
    FailsWith TellsScalar (connection node) := by
  refine hmeets.fails _ _ ?_
  simp only [connectionFields, List.forall_mem_cons]
  exact ⟨Reader.field_failsAt_of_ne (by decide), Reader.field_failsAt_of_ne (by decide),
    Reader.field_failsAt secret_fails, Reader.field_failsAt_of_ne (by decide),
    Reader.field_failsAt_of_ne (by decide), by simp⟩

theorem server_fails (node : Node) (hmeets : MeetsServerPassword node) :
    FailsWith TellsScalar (server node) := by
  have hconnection (node : Node) (hmeets : MeetsPassword node) :
      FailsWith TellsScalar (Reader.optional connection node) := by
    refine Reader.optional_fails connection_fails ?_ hmeets
    rintro rfl
    obtain ⟨_, hnode, _⟩ := hmeets
    cases hnode
  refine hmeets.fails _ _ ?_
  simp only [serverFields, List.forall_mem_cons]
  exact ⟨Reader.field_failsAt_of_ne (by decide), Reader.field_failsAt hconnection,
    Reader.field_failsAt_of_ne (by decide), Reader.field_failsAt_of_ne (by decide), by simp⟩

theorem options_fails (buffered : Bool) (kind : ExporterKind) (node : Node)
    (hmeets : MeetsToken buffered kind node) :
    FailsWith TellsScalar (options buffered kind node) := by
  have heach : ∀ field ∈ pushFields,
      field.FailsAt TellsScalar "access_token" (·.isOtherScalar) := by
    simp only [pushFields, List.forall_mem_cons]
    exact ⟨Reader.field_failsAt_of_ne (by decide), Reader.field_failsAt_of_ne (by decide),
      Reader.field_failsAt secret_fails, Reader.field_failsAt_of_ne (by decide), by simp⟩
  obtain ⟨rfl, hmeets⟩ := hmeets
  cases buffered with
  | false => exact (Reader.MeetsField.fails _ _ heach hmeets).map
  | true => exact (Reader.MeetsPlainField.fails _ _ heach hmeets).map

theorem settings_fails {tree : Node}
    (hmeets : MeetsServersPassword tree ∨ MeetsExportersToken tree) :
    FailsWith TellsScalar (settings tree) := by
  have hservers (node : Node) (hmeets : Reader.MeetsListed server MeetsServerPassword node) :=
    hmeets.fails server_fails
  have hexporter (node : Node) (hmeets : MeetsExporterToken node) :
      FailsWith TellsScalar (exporter node) := hmeets.fails (by decide) _ options_fails
  have hexporters (node : Node) (hmeets : Reader.MeetsListed exporter MeetsExporterToken node) :=
    hmeets.fails hexporter
  rcases hmeets with hmeets | hmeets
  · refine hmeets.fails _ _ ?_
    simp only [settingsFields, List.forall_mem_cons]
    exact ⟨Reader.field_failsAt hservers, Reader.field_failsAt_of_ne (by decide),
      Reader.field_failsAt_of_ne (by decide), Reader.field_failsAt_of_ne (by decide),
      Reader.field_failsAt_of_ne (by decide), Reader.field_failsAt_of_ne (by decide),
      Reader.field_failsAt_of_ne (by decide), by simp⟩
  · refine hmeets.fails _ _ ?_
    simp only [settingsFields, List.forall_mem_cons]
    exact ⟨Reader.field_failsAt_of_ne (by decide), Reader.field_failsAt hexporters,
      Reader.field_failsAt_of_ne (by decide), Reader.field_failsAt_of_ne (by decide),
      Reader.field_failsAt_of_ne (by decide), Reader.field_failsAt_of_ne (by decide),
      Reader.field_failsAt_of_ne (by decide), by simp⟩

end Settings.Reading

theorem Server.name?_redact (server : Server) : server.redact.name? = server.name? := by
  rw [name?, name?, redact]
  cases server.connection <;> rfl

namespace Settings

theorem checkUri_redact (server : Server) : checkUri server.redact = checkUri server := by
  rw [checkUri, checkUri, Server.name?_redact]
  simp only [Server.redact]
  cases server.connection <;> rfl

end Settings

/-- Reading comes to a password of a server or an access token of an exporter that is a scalar and
not a text, and nothing before it is refused. -/
def Node.Refused (tree : Node) : Prop :=
  Settings.Reading.MeetsServersPassword tree ∨ Settings.Reading.MeetsExportersToken tree

/-- A refused secret is told. -/
theorem Node.Refused.told {tree : Node} (hrefused : tree.Refused) :
    ∃ found : Node, found.isOtherScalar = true ∧
      Settings.ofTree tree = .error (.invalid (.wrongType found "a string")) := by
  obtain ⟨_, hfailed, found, hscalar, rfl⟩ := Settings.Reading.settings_fails hrefused
  refine ⟨found, hscalar, ?_⟩
  rw [Settings.ofTree, hfailed]
  rfl

theorem Node.not_refused_of_isOk {tree : Node} (hok : (Settings.ofTree tree).isOk = true) :
    ¬tree.Refused := by
  intro hrefused
  obtain ⟨_, _, hfailed⟩ := hrefused.told
  rw [hfailed] at hok
  cases hok

theorem Settings.ofTree_redact {tree : Node} (hfits : ¬tree.Refused) :
    (ofTree tree).map redact = (ofTree tree.redact).map redact :=
  (ofTree_follows checkUri_redact (Reading.settings_follows tree) (fun _ => rfl)
    fun _ => rfl).resolve_left hfits

end DirectoryMetrics
