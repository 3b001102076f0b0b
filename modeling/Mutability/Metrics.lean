import Mutability.Collection.OrderedSet
import Mutability.Report

/-!
# Metrics

Summaries of a report: where the qualifiers of its positions came from, which qualifiers they are,
and what the diagnostics are about. Positions without a qualifier are not counted.
-/

namespace Mutability.Metrics

/-- How many positions there are and how many have their qualifier from where. Each number is a
counter of its own. -/
structure Coverage where
  total : Nat
  explicit : Nat
  defaulted : Nat
  propagated : Nat
  refined : Nat
deriving DecidableEq, Repr, Inhabited

namespace Coverage

/-- The coverage of no positions. -/
def empty : Coverage := ⟨0, 0, 0, 0, 0⟩

/-- One more position with a qualifier of this origin. -/
def add (c : Coverage) (o : Origin) : Coverage :=
  let c := { c with total := c.total + 1 }
  match o with
  | .explicit => { c with explicit := c.explicit + 1 }
  | .defaulted => { c with defaulted := c.defaulted + 1 }
  | .propagated => { c with propagated := c.propagated + 1 }
  | .refined => { c with refined := c.refined + 1 }

/-- The share of annotated positions in percent, all of them if there are none. -/
def percentage (c : Coverage) : Float :=
  if c.total = 0 then 100.0 else c.explicit.toFloat / c.total.toFloat * 100.0

end Coverage

/-- How many positions have which qualifier. -/
structure Distribution where
  counts : OrderedMap Qualifier Nat
deriving DecidableEq, Repr

namespace Distribution

/-- The distribution of no positions: every qualifier is there. -/
def empty : Distribution :=
  ⟨.ofList (Qualifier.all.map fun q => (q, 0))⟩

instance : Inhabited Distribution := ⟨empty⟩

/-- One more position with this qualifier. -/
def add (d : Distribution) (q : Qualifier) : Distribution :=
  ⟨d.counts.bump q⟩

/-- The number of positions. -/
def total (d : Distribution) : Nat :=
  d.counts.values.foldr (· + ·) 0

/-- The share of immutable positions in percent, none if there are no positions. -/
def immutableShare (d : Distribution) : Float :=
  if d.total = 0 then 0.0
  else ((d.counts.get? .immutable).getD 0).toFloat / d.total.toFloat * 100.0

end Distribution

/-- What the diagnostics of a report are about. -/
structure DiagnosticSummary where
  total : Nat
  /-- How many diagnostics have which message key, in the order in which the keys first come. -/
  byKey : OrderedMap String Nat
  /-- The number of classes with a diagnostic. -/
  classesWithErrors : Nat
deriving DecidableEq, Repr, Inhabited

/-- The summary of diagnostics. -/
def DiagnosticSummary.ofDiagnostics (ds : List LocatedDiagnostic) : DiagnosticSummary where
  total := ds.length
  byKey := (ds.map fun d => d.diagnostic.kind.key).foldl OrderedMap.bump ∅
  classesWithErrors := (OrderedSet.ofList (ds.map fun d => d.location.className)).size

end Mutability.Metrics

namespace Mutability

/-- The summaries of a report. -/
structure Metrics where
  coverage : Metrics.Coverage
  distribution : Metrics.Distribution
  diagnostics : Metrics.DiagnosticSummary
deriving DecidableEq, Repr, Inhabited

/-- The markings of the positions that have one, in order. -/
def Report.markings (r : Report) : List Marking :=
  r.positions.filterMap Position.marking

/-- Summarizes a report. -/
def Metrics.ofReport (r : Report) : Metrics where
  coverage := (r.markings.map Marking.origin).foldl Coverage.add .empty
  distribution := (r.markings.map Marking.qualifier).foldl Distribution.add .empty
  diagnostics := .ofDiagnostics r.diagnostics

end Mutability
