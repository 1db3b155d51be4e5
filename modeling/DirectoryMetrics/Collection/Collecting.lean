import DirectoryMetrics.Collection.MetricSet

namespace DirectoryMetrics

/-- How a directory answers the first question of a collection, the second and so on. -/
abbrev Client := (moment : Nat) → Directory

inductive Effect where
  | asked (lookup : Lookup)
  | missed (metric dn attributeName : String)
  | refused (database : String) (e : NotNumeric)
  | committed (batch : Batch Float) (tags : Tags)

namespace Effect

def lookup? : Effect → Option Lookup
  | .asked lookup => some lookup
  | _ => none

def commit? : Effect → Option (Batch Float × Tags)
  | .committed batch tags => some (batch, tags)
  | _ => none

end Effect

structure Collecting where
  /-- How many questions were asked. -/
  moment : Nat
  /-- What was shown so far, in order. -/
  effects : List Effect
  staged : Batch Float

namespace Collecting

def start : Collecting := ⟨0, [], []⟩

def note (effect : Effect) : StateM Collecting Unit :=
  modify fun c => { c with effects := c.effects ++ [effect] }

def stage (m : Measurement Float) : StateM Collecting Unit :=
  modify fun c => { c with staged := c.staged ++ [m] }

def ask (client : Client) (lookup : Lookup) : StateM Collecting (Option (List AttributeValue)) := do
  note (.asked lookup)
  modifyGet fun c =>
    (client c.moment lookup.dn lookup.attributeName, { c with moment := c.moment + 1 })

end Collecting

def Statistic.stage (client : Client) (database : String) (s : Statistic) :
    ExceptT NotNumeric (StateM Collecting) Unit := do
  match (← Collecting.ask client ⟨database, s.dn, s.attributeName⟩).bind List.head? with
  | none => Collecting.note (.missed s.metricName s.dn s.attributeName)
  | some value =>
      match numberOf? value with
      | some x => Collecting.stage ⟨s.metricName, x⟩
      | none => throw ⟨s.metricName, s.attributeName, value.display⟩

/-- The failure of a statistic is shown, and the collection goes on. -/
def Statistic.attempt (client : Client) (database : String) (s : Statistic) :
    StateM Collecting Unit := do
  match ← (s.stage client database).run with
  | .ok () => pure ()
  | .error e => Collecting.note (.refused database e)

/-- Collects every statistic through the connection of the set into one batch, and commits that
once. The number of the measurements in it is returned. -/
def MetricSet.collecting (clients : (handle : Nat) → Client) (set : MetricSet) :
    StateM Collecting Nat := do
  set.statistics.forM (Statistic.attempt (clients set.handle) set.identity.database)
  let staged := (← get).staged
  Collecting.note (.committed staged set.tags)
  return staged.length

end DirectoryMetrics
