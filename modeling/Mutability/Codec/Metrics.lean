import Mutability.Codec.Qualifier
import Mutability.Decimal.Shortest
import Mutability.Law.Basic
import Mutability.Metrics

/-!
# Metrics and verdicts as JSON
-/

namespace Mutability

/-- A double is written as the shortest decimal that is rounded to it. -/
def Json.ofFloat (x : Float) : Json :=
  .num (.decimal (Decimal.print x))

namespace Metrics

def Coverage.toJson (c : Coverage) : Json :=
  .obj [("total_positions", .ofNat c.total), ("explicit", .ofNat c.explicit),
    ("defaulted", .ofNat c.defaulted), ("propagated", .ofNat c.propagated),
    ("refined", .ofNat c.refined), ("coverage_percentage", .ofFloat c.percentage)]

/-- The counts of qualifiers are written under their names. -/
def Distribution.toJson (d : Distribution) : Json :=
  .obj [("counts", .obj (d.counts.entries.map fun e => (e.1.simpleName, .ofNat e.2)))]

def DiagnosticSummary.toJson (s : DiagnosticSummary) : Json :=
  .obj [("total", .ofNat s.total),
    ("by_key", .obj (s.byKey.entries.map fun e => (e.1, .ofNat e.2))),
    ("classes_with_errors", .ofNat s.classesWithErrors)]

def toJson (m : Metrics) : Json :=
  .obj [("coverage", m.coverage.toJson), ("distribution", m.distribution.toJson),
    ("diagnostics", m.diagnostics.toJson)]

end Metrics

namespace Verdict

def Method.toJson : Method → Json
  | exhaustive => .str "Exhaustive"
  | sampled tests => .obj [("Sampled", .obj [("tests", .ofNat tests)])]

def toJson (v : Verdict) : Json :=
  .obj [("property", .str v.property),
    ("status", .str (if v.isProven then "Proven" else "Violated")),
    ("method", v.method.toJson), ("counterexample", .ofOption .str v.counterexample)]

end Verdict

end Mutability
