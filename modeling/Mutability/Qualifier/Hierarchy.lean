import Mutability.Qualifier.Order

/-!
# The hierarchy from its direct steps

The order, the joins and the meets as tables, computed from nothing but the list of direct steps.
The steps are closed under going through one qualifier after the other, in place; then the common
bounds of every two qualifiers are searched for the one next to them. `Qualifier.le`, `join` and
`meet` say in closed form what the tables hold.
-/

namespace Mutability

namespace Hierarchy

/-- The direct steps, each from a qualifier to one above it. -/
def directEdges : List (Qualifier × Qualifier) :=
  [ (.mutable, .readonly),
    (.immutable, .readonly),
    (.receiverDependant, .readonly),
    (.polyMutable, .readonly),
    (.substitutable, .mutable),
    (.substitutable, .immutable),
    (.substitutable, .receiverDependant),
    (.substitutable, .polyMutable),
    (.bottom, .substitutable) ]

/-- A truth value for every two qualifiers. -/
structure Table where
  holds : Qualifier → Qualifier → Bool

namespace Table

/-- The table with one entry set. -/
def mark (t : Table) (a b : Qualifier) : Table :=
  ⟨fun x y => if x = a ∧ y = b then true else t.holds x y⟩

/-- Every qualifier below itself, and the lower end of every step below the upper one. -/
def ofSteps (edges : List (Qualifier × Qualifier)) : Table :=
  let reflexive := Qualifier.all.foldl (fun t q => t.mark q q) ⟨fun _ _ => false⟩
  edges.foldl (fun t e => t.mark e.1 e.2) reflexive

/-- Marks `i` as below `j` if the table leads from the one to the other through `k`. -/
def relax (t : Table) (k i j : Qualifier) : Table :=
  if t.holds i k && t.holds k j then t.mark i j else t

/-- Goes through `k` from `i`. -/
def relaxRow (t : Table) (k i : Qualifier) : Table :=
  Qualifier.all.foldl (fun t j => t.relax k i j) t

/-- Goes through `k` from everywhere. -/
def pass (t : Table) (k : Qualifier) : Table :=
  Qualifier.all.foldl (fun t i => t.relaxRow k i) t

/-- Goes through every qualifier. -/
def close (t : Table) : Table :=
  Qualifier.all.foldl pass t

/-- The common upper bound that is below all others, or `readonly` if there is none. -/
def leastOf (t : Table) (a b : Qualifier) : Qualifier :=
  let uppers := Qualifier.all.filter fun u => t.holds a u && t.holds b u
  (uppers.find? fun c => uppers.all fun u => t.holds c u).getD .readonly

/-- The common lower bound that is above all others, or `bottom` if there is none. -/
def greatestOf (t : Table) (a b : Qualifier) : Qualifier :=
  let lowers := Qualifier.all.filter fun l => t.holds l a && t.holds l b
  (lowers.find? fun c => lowers.all fun l => t.holds l c).getD .bottom

end Table

end Hierarchy

/-- The order of qualifiers with all joins and meets. -/
structure Hierarchy where
  subtype : Hierarchy.Table
  lub : Qualifier → Qualifier → Qualifier
  glb : Qualifier → Qualifier → Qualifier

/-- The hierarchy that the direct steps generate. -/
def Hierarchy.build : Hierarchy :=
  let subtype := (Table.ofSteps directEdges).close
  ⟨subtype, subtype.leastOf, subtype.greatestOf⟩

end Mutability
