import DirectoryMetrics.Proofs.Collection.Lifetime
import DirectoryMetrics.Proofs.Configuration.ServerNames

namespace DirectoryMetrics

/-! Servers that lookups are made on. Where the entries of servers are named like their servers,
each lookup is made once, in order, and on the connection of its own server. -/

namespace Backend

variable {α : Type}

section

variable (directories : Directories) (identities : List ServerIdentity)

/-- Makes a lookup and tells on which connection; none if its server is unknown. -/
def findOn (lookup : Lookup) : Compilation α (Option (Nat × Option (Lookup × String))) := do
  match identities.find? (·.database == lookup.database) with
  | none => return none
  | some identity =>
      let handle ← connect identity
      return some (handle, (← ask directories lookup).map fun value => (lookup, value.display))

/-- The value of a placeholder is the one that its lookup finds. -/
theorem findValue_eq (lookup : Lookup) :
    (findValue directories identities lookup : Compilation α _) =
      (fun found => found.bind Prod.snd) <$> findOn directories identities lookup := by
  rw [findValue, findOn]
  cases identities.find? (·.database == lookup.database) with
  | none => rfl
  | some identity => rfl

theorem run_findOn {lookup : Lookup} {identity : ServerIdentity}
    (hknown : serverOf identities lookup = some identity) (backend : Backend α) :
    (findOn directories identities lookup).run.run backend =
      (.ok (some ((backend.registry.getOrCreate identity).1,
        (directories.first? lookup).map fun value => (lookup, value.display))),
        lookUp identities [lookup] backend) := by
  have hasked : lookUp identities [lookup] backend =
      { backend with
        registry := (backend.registry.getOrCreate identity).2
        asked := backend.asked ++ [lookup] } := by
    simp [lookUp, Registry.connectEach, hknown]
  rw [findOn, show identities.find? (·.database == lookup.database) = some identity from hknown,
    hasked]
  rfl

theorem run_findOnEach {lookups : List Lookup}
    (hknown : ∀ lookup ∈ lookups, ∃ identity ∈ serverOf identities lookup,
      identity.database = lookup.database) (backend : Backend α) :
    ∃ found, (lookups.mapM (findOn directories identities)).run.run backend =
        (.ok found, lookUp identities lookups backend) ∧
      List.Forall₂
        (fun lookup found => ∃ handle,
          (lookUp identities lookups backend).registry.handle? (Lookup.database lookup) =
            some handle ∧
          found = some (handle,
            (directories.first? lookup).map fun value => (lookup, value.display)))
        lookups found := by
  induction lookups generalizing backend with
  | nil => exact ⟨[], by rw [lookUp_nil]; rfl, .nil⟩
  | cons lookup rest ih =>
      rw [List.forall_mem_cons] at hknown
      obtain ⟨⟨identity, isServer, sameName⟩, knownRest⟩ := hknown
      obtain ⟨found, running, connected⟩ := ih knownRest (lookUp identities [lookup] backend)
      rw [List.mapM_cons, run_bind, run_findOn directories identities isServer]
      simp only []
      rw [run_bind, running, lookUp_cons identities lookup rest]
      refine ⟨_, rfl, .cons ⟨_, ?_, rfl⟩ connected⟩
      have hfirst : (lookUp identities [lookup] backend).registry.handle? lookup.database =
          some (backend.registry.getOrCreate identity).1 := by
        rw [← sameName, lookUp, List.filterMap_cons_some isServer]
        exact Registry.handle?_getOrCreate backend.registry identity
      exact Registry.handle?_of_made_prefix (Registry.made_prefix_connectEach _ _) hfirst

end

theorem compile_asked {tree : Node} {backend after : Backend α}
    {result : Except CompileError (List MetricSet)}
    (hrunning : (compile tree).run.run backend = (result, after)) :
    after.asked = backend.asked ∧ backend.registry.made <+: after.registry.made := by
  rcases compile_cases tree backend with ⟨⟨error, run⟩, _⟩ | ⟨plans, views, new, _, _, run⟩
  · rw [run] at hrunning
    cases hrunning
    exact ⟨rfl, List.prefix_rfl⟩
  · rw [run] at hrunning
    cases hrunning
    exact ⟨rfl, made_prefix_connectAll _ _⟩

theorem compileConfiguration_asked {directories : Directories} {tree : Node} {settings : Settings}
    {identities : List ServerIdentity} {needed : List Lookup} {backend after : Backend α}
    {result : Except CompileError (List MetricSet)} (hreading : Settings.ofTree tree = .ok settings)
    (hnaming : identitiesFrom 0 settings.servers = .ok identities)
    (hwanted : settings.interpolateMetricNames = true)
    (hasking : Placeholder.lookups tree = .ok needed)
    (hrunning : (compileConfiguration directories tree).run.run backend = (result, after)) :
    after.asked = (lookUp identities needed backend).asked ∧
      (lookUp identities needed backend).registry.made <+: after.registry.made := by
  rw [compileConfiguration, run_bind, run_lift, Compiler.settings, hreading] at hrunning
  simp only [Except.mapError, run_bind, run_lift, hnaming, hwanted, if_true, run_expandNames,
    hasking] at hrunning
  generalize Placeholder.resolve _ tree = resolved at hrunning
  cases resolved with
  | error error =>
      cases hrunning
      exact ⟨rfl, List.prefix_rfl⟩
  | ok expanded => exact compile_asked hrunning

/-- A server is known for each lookup; the lookups are made once each, in order, and nothing else is
asked; and each of them is made on the connection that its own server has in the end. -/
structure OwnLookups (directories : Directories) (identities : List ServerIdentity)
    (needed : List Lookup) (backend after : Backend α) : Prop where
  known : ∀ lookup ∈ needed, ∃ identity ∈ serverOf identities lookup,
    identity.database = lookup.database
  ordered : needed.Pairwise fun a b => a.before b = true
  nodup : needed.Nodup
  asked : after.asked = backend.asked ++ needed
  connected : ∃ found between,
    (needed.mapM (findOn directories identities)).run.run backend = (.ok found, between) ∧
      List.Forall₂
        (fun lookup found => ∃ handle,
          after.registry.handle? (Lookup.database lookup) = some handle ∧
          found = some (handle,
            (directories.first? lookup).map fun value => (lookup, value.display)))
        needed found

theorem serverOf_of_mem {identities : List ServerIdentity} {lookup : Lookup}
    (hknown : ∃ identity ∈ identities, identity.database = lookup.database) :
    ∃ identity ∈ serverOf identities lookup, identity.database = lookup.database := by
  obtain ⟨identity, member, same⟩ := hknown
  cases found : serverOf identities lookup with
  | none =>
      have hunlike := List.find?_eq_none.mp found identity member
      exact absurd (beq_iff_eq.mpr same) hunlike
  | some other => exact ⟨other, rfl, by simpa using List.find?_some found⟩

/-- What the names of an accepted configuration and of its servers have in common. -/
structure ServersAgree (α : Type) (tree : Node) (settings : Settings) : Prop where
  names : ∀ items, (tree.field? Field.ldapServers).bind Node.sequence? = some items →
    List.Forall₂
      (fun item server => ∀ m, Node.mapping? item = some m → m.NamedPlainly →
        Server.name? server = m.serverName?)
      items settings.servers
  lookups : (∀ entry ∈ tree.serverEntries, entry.NamedPlainly) →
    ∀ identities needed, identitiesFrom 0 settings.servers = .ok identities →
      Placeholder.lookups tree = .ok needed → settings.interpolateMetricNames = true →
      ∀ (directories : Directories) (backend after : Backend α) result,
        (compileConfiguration directories tree).run.run backend = (result, after) →
        OwnLookups directories identities needed backend after

def calledByObject (named : Mapping) : Node :=
  .mapping (named ++
    [(.text "object", .mapping
      [(.text "computed_dn", .text "cn=Monitor"), (.text "metric_name", .text "$\x7bcn\x7d/ops"),
        (.text "attribute", .text "opsDone"), (.text "unit", .int 1)])])

def nameAndAddress : Node :=
  .mapping
    [(.text "ldap_servers", .tagged "!servers" (.sequence
      [calledByObject
        [(.text "database", .text "main"),
          (.text "connection", .mapping [(.text "server_uri", .text "ldap://one")])],
      .tagged "!unnamed" (calledByObject
        [(.text "database", .text ""),
          (.text "connection", .tagged "!plain"
            (.mapping [(.text "server_uri", .tagged "!uri" (.text "ldap://two"))]))])]))]

def calledMonitor : Directories := fun _ dn attributeName =>
  if dn = "cn=Monitor" ∧ attributeName = "cn" then some [.text "Monitor"] else none

def taggedName : Node :=
  .mapping
    [(.text "ldap_servers", .sequence
      [calledByObject
        [(.tagged "!name" (.text "database"), .text "main"),
          (.text "connection", .mapping [(.text "server_uri", .text "ldap://one")])]])]

end Backend

end DirectoryMetrics
