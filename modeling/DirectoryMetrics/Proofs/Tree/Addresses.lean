import DirectoryMetrics.Tree.Traversal

namespace DirectoryMetrics

namespace Node

theorem children_withChildren {node : Node} {nodes : List Node}
    (hlength : nodes.length = node.children.length) :
    (node.withChildren nodes).children = nodes := by
  cases node with
  | mapping entries =>
      rw [children, List.length_map] at hlength
      rw [withChildren, children]
      induction entries generalizing nodes with
      | nil => exact (List.length_eq_zero_iff.mp hlength).symm
      | cons entry rest ih =>
          cases nodes with
          | nil => cases hlength
          | cons first nodes =>
              rw [List.zipWith_cons_cons, List.map_cons, ih (Nat.succ.inj hlength)]
  | sequence items => rfl
  | _ => exact (List.length_eq_zero_iff.mp hlength).symm

theorem withChildren_children (node : Node) : node.withChildren node.children = node := by
  cases node with
  | mapping entries =>
      rw [withChildren, children]
      congr 1
      induction entries with
      | nil => rfl
      | cons entry rest ih => rw [List.map_cons, List.zipWith_cons_cons, ih]
  | _ => rfl

theorem withChildren_withChildren {node : Node} {nodes : List Node}
    (hlength : nodes.length = node.children.length) (others : List Node) :
    (node.withChildren nodes).withChildren others = node.withChildren others := by
  cases node with
  | mapping entries =>
      rw [children, List.length_map] at hlength
      rw [withChildren, withChildren, withChildren]
      congr 1
      induction entries generalizing nodes others with
      | nil => rfl
      | cons entry rest ih =>
          cases nodes with
          | nil => cases hlength
          | cons first nodes =>
              cases others with
              | nil => rfl
              | cons other others =>
                  rw [List.zipWith_cons_cons, List.zipWith_cons_cons, List.zipWith_cons_cons,
                    ih others (Nat.succ.inj hlength)]
  | _ => rfl

theorem at?_append (node : Node) (address rest : Address) :
    node.at? (address ++ rest) = (node.at? address).bind (·.at? rest) := by
  induction address generalizing node with
  | nil => rfl
  | cons index address ih =>
      rw [List.cons_append, at?, at?, Option.bind_assoc]
      exact congrArg _ (funext fun child => ih child)

theorem putAt_putAt (node : Node) (address : Address) (new other : Node) :
    (node.putAt address new).putAt address other = node.putAt address other := by
  induction address generalizing node with
  | nil => rfl
  | cons index address ih =>
      have hlength (f : Node → Node) :
          (node.children.modify index f).length = node.children.length :=
        List.length_modify _ _ _
      rw [putAt, putAt, putAt, children_withChildren (hlength _),
        withChildren_withChildren (hlength _),
        List.modify_modify_eq]
      congr 2
      exact funext fun child => ih child

theorem at?_putAt {node old : Node} {address : Address} (hthere : node.at? address = some old)
    (new : Node) : (node.putAt address new).at? address = some new := by
  induction address generalizing node with
  | nil => rfl
  | cons index address ih =>
      rw [at?, Option.bind_eq_some_iff] at hthere
      obtain ⟨child, isChild, hthere⟩ := hthere
      rw [putAt, at?, children_withChildren (List.length_modify _ _ _), List.getElem?_modify,
        isChild]
      simpa using ih hthere

theorem putAt_at? {node old : Node} {address : Address} (hthere : node.at? address = some old) :
    node.putAt address old = node := by
  induction address generalizing node with
  | nil => exact (Option.some.inj hthere).symm
  | cons index address ih =>
      rw [at?, Option.bind_eq_some_iff] at hthere
      obtain ⟨child, isChild, hthere⟩ := hthere
      have hsame : node.children.modify index (·.putAt address old) = node.children := by
        refine List.ext_getElem? fun i => ?_
        rw [List.getElem?_modify]
        by_cases here : index = i
        · rw [← here, isChild]
          simpa using ih hthere
        · simp [here]
      rw [putAt, hsame, withChildren_children]

theorem putAt_append {node old : Node} {address : Address} (hthere : node.at? address = some old)
    (rest : Address) (new : Node) :
    node.putAt (address ++ rest) new = node.putAt address (old.putAt rest new) := by
  induction address generalizing node with
  | nil =>
      cases hthere
      rfl
  | cons index address ih =>
      rw [at?, Option.bind_eq_some_iff] at hthere
      obtain ⟨child, isChild, hthere⟩ := hthere
      rw [List.cons_append, putAt, putAt]
      congr 1
      refine List.ext_getElem? fun i => ?_
      rw [List.getElem?_modify, List.getElem?_modify]
      by_cases here : index = i
      · rw [← here, isChild]
        simpa using ih hthere
      · simp [here]

theorem at?_child {node parent child : Node} {address : Address} {done rest : List Node}
    (hthere : node.at? address = some parent)
    (hchildren : parent.children = done ++ child :: rest) :
    node.at? (address ++ [done.length]) = some child := by
  rw [at?_append, hthere, Option.bind_some, at?, hchildren,
    List.getElem?_append_right (Nat.le_refl _), Nat.sub_self]
  rfl

theorem putAt_child {node parent child : Node} {address : Address} {done rest : List Node}
    (hthere : node.at? address = some parent) (hchildren : parent.children = done ++ child :: rest)
    (new : Node) :
    node.putAt (address ++ [done.length]) new =
      node.putAt address (parent.withChildren (done ++ new :: rest)) := by
  have hchanged : (done ++ child :: rest).modify done.length (·.putAt [] new) =
      done ++ new :: rest := by
    clear hchildren
    induction done with
    | nil => rfl
    | cons first done ih => exact congrArg (first :: ·) ih
  rw [putAt_append hthere, putAt, hchildren, hchanged]

end Node

end DirectoryMetrics
