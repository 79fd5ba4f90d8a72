import EightBit.FileTree

/-!
A file that has been put into a tree is found there. Whatever was at its path, or in the way of it,
gives way, so the path leads to the file and reading it gives back its content.
-/

namespace EightBit.FileTree

/-- A component that leads down from a directory to something in it. -/
structure IsName (component : String) : Prop where
  filled : component ≠ ""
  notHere : component ≠ "."
  notUp : component ≠ ".."
  short : component.utf8ByteSize ≤ componentLimit

variable {component : String} {names rest : List String} {content : ByteArray}

theorem next_of_isName (named : IsName component) (names : List String) :
    next names component = component :: names := by
  simp [next, named.filled, named.notHere, named.notUp]

theorem insert_cons (tree node : FileTree) (name : String) (rest : List String) :
    tree.insert (name :: rest) node =
      .directory ((name, ((tree.entries.lookup name).getD empty).insert rest node) ::
        tree.entries.filter (·.1 != name)) := by
  cases tree <;> simp [insert]

/-- Below a place that names lead to, a node is put by inserting it at the end of all the names. -/
theorem exists_putFrom_eq_insert (named : ∀ component ∈ rest, IsName component)
    (tree node : FileTree) (names : List String) :
    ∃ before : FileTree,
      putFrom tree node names rest = before.insert (names.reverse ++ rest) node := by
  induction rest generalizing tree names with
  | nil => exact ⟨tree, by rw [putFrom, List.append_nil]⟩
  | cons component rest inductionHypothesis =>
      obtain ⟨first, others⟩ := List.forall_mem_cons.mp named
      obtain ⟨before, put⟩ := inductionHypothesis others (tree.insert names.reverse empty)
        (component :: names)
      refine ⟨before, ?_⟩
      rw [putFrom, next_of_isName first, put, List.reverse_cons, List.append_assoc,
        List.singleton_append]

theorem walk_insert (named : ∀ component ∈ names, IsName component) (tree : FileTree)
    (above : List FileTree) (content : ByteArray) :
    walk (tree.insert names (.file content)) above names = .ok (.file content) := by
  induction names generalizing tree above with
  | nil => simp [insert, walk]
  | cons name rest inductionHypothesis =>
      obtain ⟨first, others⟩ := List.forall_mem_cons.mp named
      rw [insert_cons]
      simp [walk, first.filled, first.notHere, first.notUp, Nat.not_lt.mpr first.short,
        inductionHypothesis others]

theorem relative_of_named {path : String} (named : ∀ component ∈ components path, IsName component) :
    path ≠ "" ∧ path.toList.head? ≠ some '/' := by
  have noEmpty : "" ∉ components path := fun among => (named "" among).filled rfl
  constructor
  · rintro rfl
    exact noEmpty (by decide)
  · intro rooted
    obtain ⟨rest, begins⟩ := List.head?_eq_some_iff.mp rooted
    apply noEmpty
    have first : path.toList.splitOn '/' = [] :: rest.splitOn '/' := by rw [begins]; rfl
    rw [components, first]
    exact List.mem_cons_self

/-- A file put at a path of names can be read, whatever the tree was before. -/
theorem read_put {path : String} (tree : FileTree) (content : ByteArray)
    (named : ∀ component ∈ components path, IsName component)
    (noNul : '\x00' ∉ path.toList) (short : path.utf8ByteSize < pathLimit) :
    (tree.put path (.file content)).read path = .ok content := by
  obtain ⟨before, put⟩ := exists_putFrom_eq_insert named tree (.file content) []
  obtain ⟨filled, relative⟩ := relative_of_named named
  have found : (tree.put path (.file content)).find path = .ok (.file content) := by
    rw [find, FileTree.put, put]
    simp [noNul, filled, relative, Nat.not_le.mpr short, walk_insert named]
  rw [read, found]

end EightBit.FileTree
