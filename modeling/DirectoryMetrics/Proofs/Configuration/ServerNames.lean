import DirectoryMetrics.Collection.Compiler
import DirectoryMetrics.Proofs.Configuration.Lookups
import DirectoryMetrics.Proofs.Configuration.Reading

namespace DirectoryMetrics

/-! Names of servers. The name that the passes see in an entry is the one that the server has once
it is read, unless a key that it depends on is under a tag: readers look at keys through their tags,
and the passes do not. -/

structure Mapping.NamedPlainly (server : Mapping) : Prop where
  database : server.NamesPlainly Field.database
  connection : server.NamesPlainly Field.connection
  serverUri : ∀ m ∈ (server.get? Field.connection).bind Node.mapping?,
    Mapping.NamesPlainly Field.serverUri m

instance (server : Mapping) : Decidable server.NamedPlainly :=
  decidable_of_iff
    (server.NamesPlainly Field.database ∧ server.NamesPlainly Field.connection ∧
      ∀ m ∈ (server.get? Field.connection).bind Node.mapping?,
        Mapping.NamesPlainly Field.serverUri m)
    ⟨fun ⟨database, connection, serverUri⟩ => ⟨database, connection, serverUri⟩,
      fun plain => ⟨plain.database, plain.connection, plain.serverUri⟩⟩

namespace Reader

theorem text?_of_text {node : Node} {value : String} (hreading : text node = .ok value) :
    node.text? = some value := by
  rw [text] at hreading
  rw [Node.text?]
  cases isNode : node.untag with
  | text found =>
      rw [isNode] at hreading
      cases hreading
      rfl
  | _ =>
      rw [isNode] at hreading
      cases hreading

theorem optional_cases {α : Type} {read : Reader α} {node : Node} {found : Option α}
    (hreading : optional read node = .ok found) :
    (node = .null ∧ found = none) ∨ ∃ value, read node = .ok value ∧ found = some value := by
  rw [optional.eq_def] at hreading
  split at hreading
  · cases hreading
    exact .inl ⟨rfl, rfl⟩
  · obtain ⟨value, readValue, rfl⟩ := Except.map_eq_ok.mp hreading
    exact .inr ⟨value, readValue, rfl⟩

theorem mapping?_of_record {σ : Type} {kind : String} {fields : List (Field σ)} {start state : σ}
    {required : List String} {name : String} (hrequired : name ∈ required) {node : Node}
    (hreading : record kind fields start required node = .ok state) :
    ∃ m, node.mapping? = some m := by
  rw [record] at hreading
  rw [Node.mapping?]
  split at hreading
  · rename_i entries isMapping
    exact ⟨entries, by rw [isMapping]⟩
  · obtain ⟨_, readEntries, hreading⟩ := Except.bind_eq_ok.mp hreading
    cases readEntries
    simp only at hreading
    split at hreading
    · cases hreading
    · rename_i complete
      simpa using List.find?_eq_none.mp complete name hrequired
  · cases hreading

end Reader

namespace Settings.Reading

theorem connection_serverUri {node : Node} {read : Connection}
    (hreading : connection node = .ok read) : ∃ m, node.mapping? = some m ∧
      (m.NamesPlainly Field.serverUri → m.text? Field.serverUri = some read.serverUri) := by
  obtain ⟨m, isMapping⟩ := Reader.mapping?_of_record List.mem_cons_self hreading
  refine ⟨m, isMapping, fun plain => ?_⟩
  rw [connection_of_mapping? isMapping] at hreading
  obtain ⟨value, there, readUri⟩ := connection_serverUri_read hreading
  rw [plain.read?_eq] at there
  rw [Mapping.text?, there]
  exact Reader.text?_of_text readUri

theorem server_name? {m : Mapping} {read : Server} (hreading : server (.mapping m) = .ok read)
    (hplain : m.NamedPlainly) : read.name? = m.serverName? := by
  have hreadDatabase := server_database_read hreading
  have hreadConnection := server_connection_read hreading
  rw [hplain.database.read?_eq] at hreadDatabase
  rw [hplain.connection.read?_eq] at hreadConnection
  have hdatabase : read.database = m.text? Field.database := by
    rw [Mapping.text?]
    cases there : m.get? Field.database with
    | none =>
        rw [there] at hreadDatabase
        exact (Except.ok.inj hreadDatabase).symm
    | some node =>
        rw [there, Option.getD_some] at hreadDatabase
        rcases Reader.optional_cases hreadDatabase with ⟨rfl, absent⟩ | ⟨value, readText, eq⟩
        · exact absent
        · rw [eq]
          exact (Reader.text?_of_text readText).symm
  have connection : read.connection.map (·.serverUri) =
      (m.get? Field.connection).bind fun connection =>
        connection.mapping?.bind (·.text? Field.serverUri) := by
    cases there : m.get? Field.connection with
    | none =>
        rw [there] at hreadConnection
        rw [← Except.ok.inj hreadConnection]
        rfl
    | some node =>
        rw [there, Option.getD_some] at hreadConnection
        rcases Reader.optional_cases hreadConnection with ⟨rfl, absent⟩ | ⟨value, readRecord, eq⟩
        · rw [absent]
          rfl
        · obtain ⟨c, isMapping, uri⟩ := connection_serverUri readRecord
          have hplainUri := hplain.serverUri c (by rw [there, Option.bind_some, isMapping]; rfl)
          rw [eq, Option.map_some, Option.bind_some, isMapping, Option.bind_some, uri hplainUri]
  rw [Server.name?, Mapping.serverName?, Mapping.nonempty?, hdatabase, connection]

end Settings.Reading

theorem Settings.ofTree_names {tree : Node} {settings : Settings} {items : List Node}
    (hlisted : (tree.field? Field.ldapServers).bind Node.sequence? = some items)
    (hreading : ofTree tree = .ok settings) :
    List.Forall₂
      (fun item server => ∀ m, Node.mapping? item = some m → m.NamedPlainly →
        Server.name? server = m.serverName?)
      items settings.servers :=
  (Reading.settings_servers_items hlisted (ofTree_eq_ok hreading)).imp
    fun _ _ read _ isMapping plain =>
      Reading.server_name? (Reading.server_of_mapping? isMapping ▸ read) plain

theorem ServerIdentity.ofServer_eq_ok {index : Nat} {server : Server} {identity : ServerIdentity}
    (hnamed : ofServer index server = .ok identity) :
    server.name? = some identity.database ∧ server.connection = some identity.connection := by
  rw [ofServer] at hnamed
  split at hnamed
  · cases hnamed
  · cases hnamed
  · rename_i name connected
    cases hnamed
    exact ⟨name, connected⟩

theorem Backend.identitiesFrom_eq_ok {index : Nat} {servers : List Server}
    {identities : List ServerIdentity} (hnaming : identitiesFrom index servers = .ok identities) :
    List.Forall₂
      (fun server identity => Server.name? server = some identity.database ∧
        server.connection = some identity.connection)
      servers identities := by
  induction servers generalizing index identities with
  | nil =>
      cases hnaming
      exact .nil
  | cons server rest ih =>
      obtain ⟨identity, named, hnaming⟩ := Except.bind_eq_ok.mp hnaming
      obtain ⟨later, namingRest, returned⟩ := Except.bind_eq_ok.mp hnaming
      cases returned
      exact .cons (ServerIdentity.ofServer_eq_ok named) (ih namingRest)

theorem Placeholder.exists_identity {tree : Node} {settings : Settings} {needed : List Lookup}
    {identities : List ServerIdentity} (hreading : Settings.ofTree tree = .ok settings)
    (hplain : ∀ entry ∈ tree.serverEntries, entry.NamedPlainly)
    (hnaming : Backend.identitiesFrom 0 settings.servers = .ok identities)
    (hasking : lookups tree = .ok needed) {lookup : Lookup} (hmember : lookup ∈ needed) :
    ∃ identity ∈ identities, identity.database = lookup.database := by
  obtain ⟨name, m, metric, found, attributeName, isNamed, _, _, _, rfl⟩ :=
    (mem_lookups hasking).mp hmember
  obtain ⟨entry, isEntry, named, _⟩ := isNamed
  have hentryPlain := hplain entry isEntry
  rw [Node.serverEntries] at isEntry
  split at isEntry
  · rename_i items listed
    obtain ⟨item, inItems, isMapping⟩ := List.mem_filterMap.mp isEntry
    have identified := forall₂_comp
      (P := fun item identity => item.mapping? = some entry →
        entry.serverName? = some (ServerIdentity.database identity))
      (fun _ _ _ same identified isEntry =>
        (same entry isEntry hentryPlain).symm.trans identified.1)
      (Settings.ofTree_names listed hreading) (Backend.identitiesFrom_eq_ok hnaming)
    obtain ⟨i, atItem⟩ := List.mem_iff_getElem?.mp inItems
    obtain ⟨identity, atIdentity, same⟩ := exists_of_forall₂_getElem? identified.flip atItem
    rw [same isMapping, Option.some.injEq] at named
    exact ⟨identity, List.mem_of_getElem? atIdentity, named⟩
  · cases isEntry

end DirectoryMetrics
