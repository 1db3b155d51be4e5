import DirectoryMetrics.Proofs.Collection.Connections
import DirectoryMetrics.Proofs.Configuration.ExpandedReading
import DirectoryMetrics.Proofs.Configuration.Redaction

namespace DirectoryMetrics

namespace Mapping

variable (g : Node → Node)

def mapPassword (server : Mapping) : Mapping :=
  server.mapUnder (fun key => isKey Field.connection key.untag) (Node.mapField "user_password" g)

theorem get?_mapPassword {name : String} (hdifferent : name ≠ Field.connection) (server : Mapping) :
    (server.mapPassword g).get? name = server.get? name :=
  get?_mapUnder_of_not (by simpa [Node.untag] using hdifferent) server

theorem serverName?_mapPassword (server : Mapping) :
    (server.mapPassword g).serverName? = server.serverName? := by
  have hdatabase : (server.mapPassword g).nonempty? Field.database =
      server.nonempty? Field.database := by
    rw [nonempty?, nonempty?, text?, text?, get?_mapPassword g (by decide)]
  have hconnection : (server.mapPassword g).get? Field.connection =
      (server.get? Field.connection).map (Node.mapField "user_password" g) := by
    simp only [mapPassword, get?_mapUnder_eq]
    rfl
  have huri (connection : Node) : connection.mapping?.bind (·.text? Field.serverUri) =
      (connection.field? Field.serverUri).bind Node.text? :=
    (Option.bind_assoc _ _ _).symm
  rw [serverName?, serverName?, hdatabase, hconnection]
  refine congrArg (Option.orElse _) (funext fun _ => ?_)
  simp only [huri, Option.bind_map, Function.comp_def]
  simp only [Node.field?_mapField_of_ne (show Field.serverUri ≠ "user_password" by decide)]

end Mapping

namespace Placeholder

variable (g : Node → Node)

theorem serverLookups_mapPassword (server : Mapping) :
    serverLookups (server.mapPassword g) = serverLookups server := by
  rw [serverLookups, serverLookups, Mapping.serverName?_mapPassword,
    Mapping.get?_mapPassword g (by decide)]

theorem resolveServer_mapPassword (values : Values) (server : Mapping) :
    resolveServer values (server.mapPassword g) =
      (resolveServer values server).map (Mapping.mapPassword g) := by
  rw [resolveServer, resolveServer, Mapping.serverName?_mapPassword]
  cases server.serverName? with
  | none => rfl
  | some name => exact Mapping.modify_mapUnder_of_not (by decide) server

/-- The names of a configuration are expanded alike, whatever its secrets are. -/
theorem resolve_mapSecrets (values : Values) (tree : Node) :
    resolve values (tree.mapSecrets g) = (resolve values tree).map (Node.mapSecrets g) := by
  have hpasswords : resolve values (tree.mapPasswords g) =
      (resolve values tree).map (Node.mapPasswords g) :=
    Node.mapRoot_mapMapping (Node.mapServers_mapUnder (resolveServer_mapPassword g values)) tree
  calc
    _ = (resolve values (tree.mapPasswords g)).map (Node.mapTokens g) :=
      Node.mapRoot_mapMapping (Mapping.modify_mapUnder_of_not (by decide)) _
    _ = ((resolve values tree).map (Node.mapPasswords g)).map (Node.mapTokens g) := by
      rw [hpasswords]
    _ = (resolve values tree).map (Node.mapSecrets g) := Except.map_map _ _ _

end Placeholder

namespace Node

variable (g : Node → Node)

theorem serverEntries_mapSecrets (tree : Node) :
    (tree.mapSecrets g).serverEntries = tree.serverEntries.map (Mapping.mapPassword g) := by
  have hlisted : (tree.mapSecrets g).field? Field.ldapServers =
      (tree.field? Field.ldapServers).map
        (mapItems (mapField Field.connection (mapField "user_password" g))) :=
    (field?_mapField_of_ne (by decide) _ _).trans (field?_mapField _ _ _ _)
  rw [serverEntries, serverEntries, hlisted]
  cases tree.field? Field.ldapServers with
  | none => rfl
  | some servers =>
      simp only [Option.map_some, Option.bind_some, sequence?_mapItems]
      cases servers.sequence? with
      | none => rfl
      | some items =>
          simp only [Option.map_some, List.filterMap_map, List.map_filterMap]
          exact congrArg (List.filterMap · items) (funext fun item => mapping?_mapMapping _ item)

end Node

theorem Placeholder.lookups_mapSecrets (g : Node → Node) (tree : Node) :
    lookups (tree.mapSecrets g) = lookups tree := by
  rw [lookups, lookups, Node.serverEntries_mapSecrets, List.mapM_map]
  simp only [Function.comp_def, serverLookups_mapPassword]

def ServerIdentity.redact (identity : ServerIdentity) : ServerIdentity :=
  { identity with connection := identity.connection.redact }

def Compiler.ServerPlan.redact (plan : ServerPlan) : ServerPlan :=
  { plan with identity := plan.identity.redact }

theorem ServerIdentity.ofServer_redact (index : Nat) (server : Server) :
    ofServer index server.redact = (ofServer index server).map redact := by
  rw [ofServer, ofServer, Server.name?_redact]
  cases server.name? with
  | none => rfl
  | some database =>
      simp only [Server.redact]
      cases server.connection <;> rfl

namespace Compiler

theorem serverPlan_redact (index : Nat) (server : Server) :
    serverPlan index server.redact = (serverPlan index server).map ServerPlan.redact := by
  rw [serverPlan, serverPlan, ServerIdentity.ofServer_redact, Except.map_bind, Except.bind_map]
  refine congrArg (bind _) (funext fun identity => ?_)
  rw [Except.bind_map]
  refine congrArg (bind _) (funext fun all => ?_)
  rw [Except.bind_map]
  rfl

theorem plansFrom_redact (index : Nat) (seen : Seen) (servers : List Server) :
    plansFrom index seen (servers.map Server.redact) =
      (plansFrom index seen servers).map (Prod.map (List.map ServerPlan.redact) id) := by
  induction servers generalizing index seen with
  | nil => rfl
  | cons server rest ih =>
      rw [List.map_cons, plansFrom, plansFrom, serverPlan_redact, Except.map_bind, Except.bind_map]
      refine congrArg (bind _) (funext fun plan => ?_)
      rw [Except.bind_map]
      refine congrArg (bind _) (funext fun seen => ?_)
      simp only [ih, Except.map_bind, Except.bind_map]
      rfl

/-- What configurations ask for that are read alike but for their secrets. -/
theorem plans_redact {tree tree' : Node}
    (hsame : (Settings.ofTree tree).map Settings.redact =
      (Settings.ofTree tree').map Settings.redact) :
    (plans tree).map (Prod.map (List.map ServerPlan.redact) id) =
      (plans tree').map (Prod.map (List.map ServerPlan.redact) id) := by
  have hby_settings (tree : Node) : (plans tree).map (Prod.map (List.map ServerPlan.redact) id) =
      ((Settings.ofTree tree).map Settings.redact).mapError CompileError.config >>= fun settings =>
        (plansFrom 0 [] settings.servers).map fun planned =>
          (planned.1, Sorted.sortBy (fun a b => Sorted.textBefore a.name b.name)
            (planned.2.map Prod.fst)) := by
    rw [plans, settings]
    cases Settings.ofTree tree with
    | error error => rfl
    | ok settings =>
        show Except.map _ (plansFrom 0 [] settings.servers >>= _) =
          (plansFrom 0 [] (settings.servers.map Server.redact)).map _
        rw [plansFrom_redact, Except.map_map, Except.bind_map]
        cases plansFrom 0 [] settings.servers <;> rfl
  rw [hby_settings, hby_settings, hsame]

end Compiler

namespace Backend

variable {α : Type}

/-- What is shown of the outcome of a compilation. -/
def shown (result : Except CompileError (List MetricSet)) : Except CompileError (List String) :=
  result.map (List.map MetricSet.describe)

theorem describe_connectAll (registry : Registry) (plans : List Compiler.ServerPlan) :
    (connectAll registry plans).1.map MetricSet.describe =
      (plans.map Compiler.ServerPlan.redact).map fun plan =>
        MetricSet.describe ⟨plan.identity, 0, plan.statistics⟩ := by
  induction plans generalizing registry with
  | nil => rfl
  | cons plan rest ih =>
      rw [connectAll, List.map_cons, List.map_cons, List.map_cons, ih]
      rfl

theorem shown_compile {tree tree' : Node} {backend backend' : Backend α}
    (hsame : (Settings.ofTree tree).map Settings.redact =
      (Settings.ofTree tree').map Settings.redact)
    (hstore : backend.store = backend'.store) :
    shown ((compile tree).run.run backend).1 = shown ((compile tree').run.run backend').1 := by
  have hplanned := Compiler.plans_redact hsame
  rw [run_compile, run_compile, ← hstore]
  cases first : Compiler.plans tree with
  | error error =>
      rw [first] at hplanned
      rw [Except.map_eq_error.mp hplanned.symm]
  | ok plan =>
      rw [first] at hplanned
      obtain ⟨plan', second, eq⟩ := Except.map_eq_ok.mp hplanned.symm
      obtain ⟨plans, views⟩ := plan
      obtain ⟨plans', views'⟩ := plan'
      obtain ⟨samePlans, rfl⟩ : plans'.map Compiler.ServerPlan.redact =
          plans.map Compiler.ServerPlan.redact ∧ views' = views := Prod.mk.inj eq
      rw [second]
      simp only []
      cases backend.store.pending views' with
      | error error => rfl
      | ok new =>
          refine congrArg Except.ok ?_
          rw [describe_connectAll, describe_connectAll, samePlans]

theorem identitiesFrom_redact (index : Nat) (servers : List Server) :
    identitiesFrom index (servers.map Server.redact) =
      (identitiesFrom index servers).map (List.map ServerIdentity.redact) := by
  induction servers generalizing index with
  | nil => rfl
  | cons server rest ih =>
      rw [List.map_cons, identitiesFrom, identitiesFrom, ServerIdentity.ofServer_redact,
        Except.map_bind, Except.bind_map]
      refine congrArg (bind _) (funext fun identity => ?_)
      rw [ih, Except.map_bind, Except.bind_map]
      rfl

theorem valueOf_redact (directories : Directories) (identities : List ServerIdentity) :
    valueOf directories (identities.map ServerIdentity.redact) =
      valueOf directories identities := by
  funext lookup
  rw [valueOf, valueOf, serverOf, serverOf, List.find?_map]
  simp only [Function.comp_def, ServerIdentity.redact]
  cases identities.find? (·.database == lookup.database) <;> rfl

section

variable {g : Node → Node} {tree : Node} (directories : Directories)

theorem shown_expandNames {identities identities' : List ServerIdentity}
    (hsameNames : identities'.map ServerIdentity.redact = identities.map ServerIdentity.redact)
    (hsame : ∀ values resolved, Placeholder.resolve values tree = .ok resolved →
      (Settings.ofTree resolved).map Settings.redact =
        (Settings.ofTree (resolved.mapSecrets g)).map Settings.redact) (backend : Backend α) :
    shown ((expandNames directories identities tree >>= compile).run.run backend).1 =
      shown ((expandNames directories identities' (tree.mapSecrets g) >>= compile).run.run
        backend).1 := by
  have values : valueOf directories identities' = valueOf directories identities := by
    rw [← valueOf_redact, hsameNames, valueOf_redact]
  rw [run_bind, run_bind, run_expandNames, run_expandNames, Placeholder.lookups_mapSecrets, values]
  cases Placeholder.lookups tree with
  | error error => rfl
  | ok lookups =>
      simp only [Placeholder.resolve_mapSecrets]
      generalize (lookups.map (valueOf directories identities)).filterMap id = found
      cases resolving : Placeholder.resolve found tree with
      | error error => rfl
      | ok resolved => exact shown_compile (hsame found resolved resolving) rfl

theorem shown_compileConfiguration
    (hsame : (Settings.ofTree tree).map Settings.redact =
      (Settings.ofTree (tree.mapSecrets g)).map Settings.redact)
    (hsameExpanded : ∀ settings values resolved, Settings.ofTree tree = .ok settings →
      Placeholder.resolve values tree = .ok resolved →
      (Settings.ofTree resolved).map Settings.redact =
        (Settings.ofTree (resolved.mapSecrets g)).map Settings.redact) (backend : Backend α) :
    shown ((compileConfiguration directories tree).run.run backend).1 =
      shown ((compileConfiguration directories (tree.mapSecrets g)).run.run backend).1 := by
  rw [compileConfiguration, compileConfiguration, run_bind, run_bind, run_lift, run_lift,
    Compiler.settings, Compiler.settings]
  cases first : Settings.ofTree tree with
  | error error =>
      rw [first] at hsame
      rw [Except.map_eq_error.mp hsame.symm]
      rfl
  | ok settings =>
      obtain ⟨settings', second, eq⟩ := Except.map_eq_ok.mp ((first ▸ hsame).symm)
      have hinterpolate : settings'.interpolateMetricNames = settings.interpolateMetricNames :=
        show settings'.redact.interpolateMetricNames = settings.redact.interpolateMetricNames from
          congrArg _ eq
      have hservers : settings'.servers.map Server.redact = settings.servers.map Server.redact :=
        congrArg Settings.servers eq
      have hnames := identitiesFrom_redact 0 settings.servers
      rw [← hservers, identitiesFrom_redact] at hnames
      rw [second]
      simp only [Except.mapError, run_bind, run_lift, hinterpolate]
      cases naming : identitiesFrom 0 settings.servers with
      | error error =>
          rw [naming] at hnames
          rw [Except.map_eq_error.mp hnames]
      | ok identities =>
          rw [naming] at hnames
          obtain ⟨identities', naming', sameNames⟩ := Except.map_eq_ok.mp hnames
          rw [naming']
          simp only []
          split
          · exact shown_expandNames directories sameNames
              (fun values resolved => hsameExpanded settings values resolved first) backend
          · exact shown_compile hsame rfl

end

end Backend

def Exporter.describe? : Exporter → Option String
  | .push options => some options.describe
  | .pull _ => none

/-- What is shown of the connections and of the push options of settings. -/
def Settings.shown (settings : Settings) : List String × List String :=
  (settings.servers.filterMap fun server => server.connection.map Connection.describe,
    settings.exporters.filterMap Exporter.describe?)

theorem Settings.shown_redact (settings : Settings) : settings.redact.shown = settings.shown := by
  have hconnection (server : Server) : server.redact.connection.map Connection.describe =
      server.connection.map Connection.describe := by
    rw [Server.redact, Option.map_map]
    exact congrArg (Option.map · _) (funext Connection.describe_redact)
  have hexporter (exporter : Exporter) : exporter.redact.describe? = exporter.describe? := by
    cases exporter with
    | pull options => rfl
    | push options => exact congrArg some options.describe_redact
  simp only [shown, redact, List.filterMap_map, Function.comp_def, hconnection, hexporter]

namespace Backend

variable {α : Type}

/-- Nothing that is shown of the settings of two configurations, or of the metric sets that they are
compiled to, is different; nor are the errors that they are rejected with. -/
structure Indistinguishable (α : Type) (tree tree' : Node) : Prop where
  settings : (Settings.ofTree tree).map Settings.shown = (Settings.ofTree tree').map Settings.shown
  compiled : ∀ backend : Backend α,
    shown ((compile tree).run.run backend).1 = shown ((compile tree').run.run backend).1
  configured : ∀ (directories : Directories) (backend : Backend α),
    shown ((compileConfiguration directories tree).run.run backend).1 =
      shown ((compileConfiguration directories tree').run.run backend).1

theorem indistinguishable_redact {tree : Node} (hfits : ¬tree.Refused) :
    Indistinguishable α tree tree.redact := by
  have hsame := Settings.ofTree_redact hfits
  refine ⟨?_, fun backend => shown_compile hsame rfl, fun directories backend => ?_⟩
  · have hshown := congrArg (Except.map Settings.shown) hsame
    simpa only [Except.map_map, Settings.shown_redact] using hshown
  · refine shown_compileConfiguration directories hsame
      (fun settings values resolved reading resolving => ?_) backend
    obtain ⟨settings', accepted, _⟩ := Placeholder.resolve_accepted resolving reading
    exact Settings.ofTree_redact (Node.not_refused_of_isOk (by rw [accepted]; rfl))

/-- Secrets never reach a text, but for those that a configuration is refused for. -/
theorem secrets_untold {tree tree' : Node} (hsame : tree.redact = tree'.redact)
    (hfits : ¬tree.Refused) (hfits' : ¬tree'.Refused) : Indistinguishable α tree tree' := by
  have hfirst : Indistinguishable α tree tree.redact := indistinguishable_redact hfits
  have hsecond : Indistinguishable α tree' tree'.redact := indistinguishable_redact hfits'
  rw [← hsame] at hsecond
  exact ⟨hfirst.settings.trans hsecond.settings.symm,
    fun backend => (hfirst.compiled backend).trans (hsecond.compiled backend).symm,
    fun directories backend =>
      (hfirst.configured directories backend).trans (hsecond.configured directories backend).symm⟩

def guarded (password token : Node) : Node :=
  .mapping
    [(.text "ldap_servers", .sequence
      [.mapping
        [(.text "database", .text "main"),
          (.text "connection", .tagged "!bound" (.mapping
            [(.text "server_uri", .text "ldap://one"), (.text "user_password", password)])),
          (.text "object", .mapping
            [(.text "computed_dn", .text "cn=Monitor"),
              (.text "metric_name", .text "$\x7bcn\x7d/ops"),
              (.text "attribute", .text "opsDone"), (.text "unit", .int 1)])]]),
      (.text "exporters", .sequence
        [.mapping
          [(.text "options", .mapping
              [(.text "project_id", .text "monitors"), (.text "access_token", token)]),
            (.text "name", .text "Stackdriver")]])]

def namingMonitor : Directories := fun _ _ _ => some [.text "Monitor"]

theorem guarded_untold :
    (guarded (.text "one") (.text "first")).redact =
        (guarded (.text "two") (.text "second")).redact ∧
      Indistinguishable Nat (guarded (.text "one") (.text "first"))
        (guarded (.text "two") (.text "second")) ∧
      ((compileConfiguration namingMonitor (guarded (.text "two") (.text "second"))).run.run
        (default : Backend Nat)).1.isOk = true :=
  ⟨rfl, secrets_untold rfl (Node.not_refused_of_isOk (by decide +kernel))
    (Node.not_refused_of_isOk (by decide +kernel)), by decide +kernel⟩

/-- A secret that is no text is told. -/
theorem guarded_told :
    (guarded (.int 5) (.text "first")).redact = (guarded (.int 6) (.text "first")).redact ∧
      (Settings.ofTree (guarded (.int 5) (.text "first"))).mapError ConfigError.message =
        .error "Invalid configuration: invalid type: integer `5`, expected a string" ∧
      (Settings.ofTree (guarded (.int 6) (.text "first"))).mapError ConfigError.message =
        .error "Invalid configuration: invalid type: integer `6`, expected a string" := by
  refine ⟨rfl, ?_, ?_⟩
  · rfl
  · rfl

end Backend

end DirectoryMetrics
