/-
An importer that refuses a value is as good as before.

An importer reads values one after another. Whatever came of the earlier ones, the next
one is read as by a fresh importer, but for its numbers: they go on after those that the
earlier values have used (`Importer.node_after`). Nothing else stays behind, in particular
the depth is back at zero.

The proof compares two pairs of imports in lockstep:

* the depth that is counted with the depth that is left (`counted_node`): both give the
  same, and what is counted is back where it was;
* an import that begins with number `k + n` with one that begins with `k`
  (`shifted_node`): the numbers differ by `n`, and so does the next number.
-/
import EsFront.Estree.Importer
import EsFront.Proofs.Estree.Lockstep
import EsFront.Proofs.Estree.Renumber

namespace EsFront

namespace Import

/-! ### Counting the depth -/

/-- The second import counts the depth. It gives what the first gives, and the depth is
back at `depth` whether the step succeeds or not. -/
def counted (depth : Nat) : Lockstep (StateM ImportState) (StateT Nat (StateM ImportState)) where
  Follows f first second := ∀ s, (second.run.run depth).run s
    = (((first.run.run s).1.map f, depth), (first.run.run s).2)
  pure _ _ _ := rfl
  throw _ _ _ := rfl
  bind := by
    intro α β γ δ f g first second next next' hfirst hnext s
    have hs := hfirst s
    rw [ExceptT.run_bind, StateT.run_bind, StateT.run_bind, hs, ExceptT.run_bind, StateT.run_bind]
    rcases first.run.run s with ⟨result, t⟩
    cases result with
    | error e => rfl
    | ok a => exact hnext a t

/-- What a node takes when it is reached does not touch the depth. -/
theorem counted_takeData (depth : Nat) (file : Option String) (kind : NodeKind) (raw : Json) :
    (counted depth).Follows id (takeData file kind raw) (takeData file kind raw) := by
  intro s
  unfold takeData
  cases raw.location? file with
  | none => rfl
  | some loc => cases kind.acceptsComments <;> rfl

/-- A step inside one more node. -/
theorem counted_inside {depth : Nat} {α β : Type} {f : α → β} {first : Import α}
    {second : NestedImport β} (h : (counted (depth + 1)).Follows f first second) :
    (counted depth).Follows f first (inside second) := by
  intro s
  have hrun : ((inside second).run.run depth).run s
      = ((((second.run.run (depth + 1)).run s).1.1, ((second.run.run (depth + 1)).run s).1.2 - 1),
          ((second.run.run (depth + 1)).run s).2) := rfl
  rw [hrun, h s, Nat.add_sub_cancel]

/-- Looking at the depth. -/
theorem counted_get {depth : Nat} {α β : Type} {f : α → β} {first : Import α}
    {next : Nat → NestedImport β} (h : (counted depth).Follows f first (next depth)) :
    (counted depth).Follows f first (getThe Nat >>= next) :=
  fun s => h s

/-- As long as the depth is within the limit, a node is read as if the depth that is left
were given. -/
theorem counted_node (file : Option String) (fuel : Nat) :
    ∀ depth : Nat, depth ≤ depthLimit → depthLimit < fuel + depth → ∀ raw,
      (counted depth).Follows (AnyNode.mapData id) (node file (depthLimit - depth) raw)
        (nestedNode file fuel raw) := by
  induction fuel with
  | zero =>
    intro depth hdepth hfuel
    omega
  | succ fuel ih =>
    intro depth hdepth hfuel raw
    rw [nestedNode]
    by_cases hlimit : depthLimit ≤ depth
    · -- the deepest level, where a node is refused once its kind is known
      rw [show depthLimit - depth = 0 by omega, node]
      refine (counted depth).bind ((counted depth).same_check _) fun kind => counted_get ?_
      rw [if_pos hlimit]
      exact (counted depth).throw _ _
    · rw [show depthLimit - depth = depthLimit - (depth + 1) + 1 by omega, node]
      refine (counted depth).bind ((counted depth).same_check _) fun kind => counted_get ?_
      rw [if_neg hlimit]
      have hchild := ih (depth + 1) (by omega) (by omega)
      exact counted_inside ((counted (depth + 1)).nodeOfKind hchild
        (counted_takeData (depth + 1) file) kind raw)

/-! ### Other numbers -/

/-- The second import begins `n` numbers later, and neither has comments. It gives what the
first gives, its next number is later by `n` again, and there still are no comments. -/
def shifted (n : Nat) : Lockstep (StateM ImportState) (StateM ImportState) where
  Follows f first second := ∀ k, ∃ k',
    (first.run.run ⟨k, .empty⟩).2 = ⟨k', .empty⟩ ∧
      second.run.run ⟨k + n, .empty⟩ = ((first.run.run ⟨k, .empty⟩).1.map f, ⟨k' + n, .empty⟩)
  pure _ _ k := ⟨k, rfl, rfl⟩
  throw _ _ k := ⟨k, rfl, rfl⟩
  bind := by
    intro α β γ δ f g first second next next' hfirst hnext k
    obtain ⟨k', hstate, hsecond⟩ := hfirst k
    rw [ExceptT.run_bind, StateT.run_bind, ExceptT.run_bind, StateT.run_bind, hsecond]
    rcases hrun : first.run.run ⟨k, .empty⟩ with ⟨result, t⟩
    rw [hrun] at hstate
    subst hstate
    cases result with
    | error e => exact ⟨k', rfl, rfl⟩
    | ok a => exact hnext a k'

end Import

/-- The data with a later number. -/
def NodeData.shift (n : Nat) (data : NodeData) : NodeData := { data with id := data.id + n }

namespace Import

theorem shifted_takeData (n : Nat) (file : Option String) (kind : NodeKind) (raw : Json) :
    (shifted n).Follows (NodeData.shift n) (takeData file kind raw) (takeData file kind raw) := by
  have hrun : ∀ k, (takeData file kind raw : Import NodeData).run.run ⟨k, .empty⟩
      = (.ok ⟨k, raw.location? file, raw.range?, [], []⟩, ⟨k + 1, .empty⟩) := by
    intro k
    have hbare : Label.Uncommented ⟨kind, ⟨k, raw.location? file, raw.range?, [], []⟩⟩ := ⟨rfl, rfl⟩
    exact takeData_gives.mpr (ImportState.reach_empty k hbare)
  intro k
  refine ⟨k + 1, ?_, ?_⟩
  · rw [hrun]
  · rw [hrun, hrun, Nat.add_right_comm]
    rfl

/-- A node that is read later gets later numbers, and is otherwise read the same. -/
theorem shifted_node (n : Nat) (file : Option String) (levels : Nat) :
    ∀ raw, (shifted n).Follows (AnyNode.mapData (NodeData.shift n)) (node file levels raw)
      (node file levels raw) := by
  induction levels with
  | zero =>
    intro raw
    rw [node]
    exact (shifted n).bind ((shifted n).same_check _) fun _ => (shifted n).throw _ _
  | succ levels ih =>
    intro raw
    rw [node]
    exact (shifted n).bind ((shifted n).same_check _) fun kind =>
      (shifted n).nodeOfKind ih (shifted_takeData n file) kind raw

end Import

/-! ### One value after another -/

namespace Importer

/-- An importer reads a node as the import does with the depth that is left. -/
theorem node_eq {file : Option String} {s : ImportState} {depth : Nat}
    (h : depth ≤ Import.depthLimit) (raw : Json) :
    (⟨file, s, depth⟩ : Importer).node raw
      = (((Import.node file (Import.depthLimit - depth) raw).run.run s).1,
          ⟨file, ((Import.node file (Import.depthLimit - depth) raw).run.run s).2, depth⟩) := by
  have hrun := Import.counted_node file (Import.depthLimit + 1) _ h (by omega) raw s
  have hid : ∀ result : Except ImportError AnyNode, result.map (AnyNode.mapData id) = result := by
    intro result
    cases result with
    | error e => rfl
    | ok any =>
      exact congrArg (fun node => Except.ok (AnyNode.mk any.kind node)) (Node.mapData_id any.node)
  rw [hid] at hrun
  rw [node, hrun]

/-- How many numbers a fresh importer gives out for a value. -/
def numbersUsed (file : Option String) (raw : Json) : Nat :=
  ((start file).node raw).2.state.nextId

/-- How many numbers fresh importers give out for some values together. -/
def numbersUsedBy (file : Option String) : List Json → Nat
  | [] => 0
  | raw :: raws => numbersUsed file raw + numbersUsedBy file raws

/-- After `k` numbers a value is read as by a fresh importer, but for the numbers. -/
theorem node_from (file : Option String) (k : Nat) (raw : Json) :
    (⟨file, ⟨k, .empty⟩, 0⟩ : Importer).node raw
      = (((start file).node raw).1.map (AnyNode.mapData (NodeData.shift k)),
          ⟨file, ⟨k + numbersUsed file raw, .empty⟩, 0⟩) := by
  obtain ⟨used, hstate, hrun⟩ := Import.shifted_node k file Import.depthLimit raw 0
  rw [Nat.zero_add] at hrun
  have hfresh : (start file).node raw = _ := node_eq (Nat.zero_le _) raw
  rw [Nat.sub_zero, ImportState.start, hstate] at hfresh
  rw [numbersUsed, hfresh, node_eq (Nat.zero_le _), Nat.sub_zero, hrun, Nat.add_comm used k]

theorem after_from (file : Option String) (raws : List Json) (k : Nat) :
    (⟨file, ⟨k, .empty⟩, 0⟩ : Importer).after raws
      = ⟨file, ⟨k + numbersUsedBy file raws, .empty⟩, 0⟩ := by
  induction raws generalizing k with
  | nil => rfl
  | cons raw raws ih =>
    rw [after, List.foldl_cons, node_from]
    refine (ih _).trans ?_
    rw [numbersUsedBy, Nat.add_assoc]

/-- After any values, whether they were refused or not, the depth is zero, no comment and
no directive is left, and only numbers have been used: as many as fresh importers use for
these values. The next value is read as by a fresh importer but for its numbers, which are
later by as many; if it is refused, it is for the same reason. -/
theorem node_after (file : Option String) (raws : List Json) (raw : Json) :
    (start file).after raws = ⟨file, ⟨numbersUsedBy file raws, .empty⟩, 0⟩ ∧
    ((start file).after raws).node raw
      = (((start file).node raw).1.map
            (AnyNode.mapData (NodeData.shift (numbersUsedBy file raws))),
          ⟨file, ⟨numbersUsedBy file raws + numbersUsed file raw, .empty⟩, 0⟩) := by
  have hafter : (start file).after raws
      = ⟨file, ⟨numbersUsedBy file raws, .empty⟩, 0⟩ := by
    rw [start, ImportState.start, after_from, Nat.zero_add]
  exact ⟨hafter, by rw [hafter, node_from]⟩

end Importer

end EsFront
