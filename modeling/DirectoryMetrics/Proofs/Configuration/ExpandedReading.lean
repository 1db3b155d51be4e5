import DirectoryMetrics.Proofs.Configuration.ChangedReading

namespace DirectoryMetrics

/-! Object trees are taken as they are when a configuration is read. So it is accepted with the
names of its metrics expanded if it is accepted as it was. -/

def Node.dropObjects (tree : Node) : Node :=
  tree.mapField Field.ldapServers (mapItems (mapField Field.object fun _ => .null))

def Server.withoutObject (server : Server) : Server := { server with object := none }

def Settings.withoutObjects (settings : Settings) : Settings :=
  { settings with servers := settings.servers.map Server.withoutObject }

namespace Settings

namespace Reading

theorem server_follows_dropped (node : Node) :
    Follows False Server.withoutObject (server node)
      (server (node.mapField Field.object fun _ => .null)) := by
  have hobject (node : Node) :
      Follows False (fun _ => (none : Option Node)) (Reader.optional .ok node)
        (Reader.optional .ok Node.null) := by
    cases node <;> exact .of_ok rfl
  suffices heach : ∀ field ∈ serverFields, field.Follows (fun _ => False) Server.withoutObject
      Field.object fun _ => .null by
    exact (Reader.record_follows heach _ _ _ node).mono Reader.not_meetsField
  simp only [serverFields, List.forall_mem_cons]
  exact ⟨Reader.field_follows_of_ne (by decide) fun _ _ => rfl,
    Reader.field_follows_of_ne (by decide) fun _ _ => rfl,
    Reader.field_follows_of_ne (by decide) fun _ _ => rfl,
    Reader.field_follows (fun v s => { s with object := v }) (fun _ _ => rfl)
      fun _ => hobject, by simp⟩

theorem settings_follows_dropped (tree : Node) :
    Follows False withoutObjects (settings tree) (settings tree.dropObjects) := by
  have hservers (node : Node) :=
    (Reader.list_follows server_follows_dropped node).mono Reader.not_meetsListed
  suffices heach : ∀ field ∈ settingsFields, field.Follows (fun _ => False) withoutObjects
      Field.ldapServers (Node.mapItems (Node.mapField Field.object fun _ => .null)) by
    exact (Reader.record_follows heach _ _ _ tree).mono Reader.not_meetsField
  simp only [settingsFields, List.forall_mem_cons]
  exact ⟨Reader.field_follows (fun v s => { s with servers := v }) (fun _ _ => rfl)
      fun _ => hservers,
    Reader.field_follows_of_ne (by decide) fun _ _ => rfl,
    Reader.field_follows_of_ne (by decide) fun _ _ => rfl,
    Reader.field_follows_of_ne (by decide) fun _ _ => rfl,
    Reader.field_follows_of_ne (by decide) fun _ _ => rfl,
    Reader.field_follows_of_ne (by decide) fun _ _ => rfl,
    Reader.field_follows_of_ne (by decide) fun _ _ => rfl, by simp⟩

end Reading

theorem ofTree_dropObjects (tree : Node) :
    (ofTree tree).map withoutObjects = (ofTree tree.dropObjects).map withoutObjects := by
  have hchecks (server : Server) : checkUri server.withoutObject = checkUri server := rfl
  have hfollows := ofTree_follows hchecks (Reading.settings_follows_dropped tree) (fun _ => rfl)
    fun _ => rfl
  exact hfollows.resolve_left id

end Settings

namespace Placeholder

theorem resolveServer_dropped {values : Values} {before after : Mapping}
    (hresolving : resolveServer values before = .ok after) :
    after.mapUnder (fun key => Mapping.isKey Field.object key.untag) (fun _ => .null) =
      before.mapUnder (fun key => Mapping.isKey Field.object key.untag) fun _ => .null := by
  rw [resolveServer] at hresolving
  split at hresolving
  · cases hresolving
    rfl
  · exact Mapping.mapUnder_of_modify (by decide) hresolving fun _ _ _ => rfl

theorem resolve_dropObjects {values : Values} {tree resolved : Node}
    (hresolving : resolve values tree = .ok resolved) : resolved.dropObjects = tree.dropObjects :=
  Node.mapMapping_of_mapRoot hresolving fun _ _ hresolving =>
    Node.mapUnder_of_mapServers hresolving fun _ _ => resolveServer_dropped

/-- A configuration is accepted with its names expanded, and only its object trees are others. -/
theorem resolve_accepted {values : Values} {tree resolved : Node} {settings : Settings}
    (hresolving : resolve values tree = .ok resolved)
    (hreading : Settings.ofTree tree = .ok settings) :
    ∃ settings', Settings.ofTree resolved = .ok settings' ∧
      settings'.withoutObjects = settings.withoutObjects := by
  have hsame := Settings.ofTree_dropObjects tree
  rw [← resolve_dropObjects hresolving, ← Settings.ofTree_dropObjects resolved, hreading] at hsame
  exact Except.map_eq_ok.mp hsame.symm

end Placeholder

end DirectoryMetrics
