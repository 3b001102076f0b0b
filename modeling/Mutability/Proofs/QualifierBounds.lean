import Mathlib.Data.Finset.Lattice.Fold
import Mathlib.Data.List.Fold
import Mutability.Proofs.Annotation
import Mutability.Proofs.BodyRuns
import Mutability.Proofs.HierarchyTables

/-!
# Bounds of many qualifiers

Qualifiers form a lattice. The join of a list is the supremum of the set of its members
(`Qualifier.joinAll_eq_sup`), whatever their order and however often they come, and the meet is the
infimum.

Operators join the qualifiers of their operands. An expression that is built from leaves by
operators alone evaluates the leaves from left to right, as the arguments of a call are, and has the
join of their qualifiers (`Checker.map_qualifier_checkExpr`): the shape of the tree leaves no trace.
-/

namespace Mutability

-- The instances stay local: elsewhere the order is used through its own lemmas alone.
local instance : Lattice Qualifier where
  le_refl := Qualifier.le_refl
  le_trans _ _ _ := Qualifier.le_trans
  le_antisymm _ _ := Qualifier.le_antisymm
  sup := Qualifier.join
  le_sup_left := Qualifier.le_join_left
  le_sup_right := Qualifier.le_join_right
  sup_le _ _ _ := Qualifier.join_le
  inf := Qualifier.meet
  inf_le_left := Qualifier.meet_le_left
  inf_le_right := Qualifier.meet_le_right
  le_inf _ _ _ := Qualifier.le_meet

local instance : BoundedOrder Qualifier where
  top := .readonly
  le_top := Qualifier.le_readonly
  bot := .bottom
  bot_le := Qualifier.bottom_le

namespace Qualifier

/-! ## Joins and meets of lists -/

theorem joinAll_eq_sup (qs : List Qualifier) : joinAll qs = qs.toFinset.sup id := by
  rw [← List.foldr_sup_eq_sup_toFinset, ← List.foldl_eq_foldr]
  rfl

theorem meetAll_eq_inf (qs : List Qualifier) : meetAll qs = qs.toFinset.inf id := by
  rw [← List.foldr_inf_eq_inf_toFinset, ← List.foldl_eq_foldr]
  rfl

theorem isLUB_joinAll (qs : List Qualifier) : IsLUB {q | q ∈ qs} (joinAll qs) := by
  rw [joinAll_eq_sup, ← List.coe_toFinset]
  exact Finset.isLUB_sup_id

theorem isGLB_meetAll (qs : List Qualifier) : IsGLB {q | q ∈ qs} (meetAll qs) := by
  rw [meetAll_eq_inf, ← List.coe_toFinset]
  exact Finset.isGLB_inf_id

theorem joinAll_le_iff {qs : List Qualifier} {u : Qualifier} :
    joinAll qs ≤ u ↔ ∀ q ∈ qs, q ≤ u :=
  isLUB_le_iff (isLUB_joinAll qs)

theorem joinAll_congr {qs qs' : List Qualifier} (h : ∀ q, q ∈ qs ↔ q ∈ qs') :
    joinAll qs = joinAll qs' := by
  rw [joinAll_eq_sup, joinAll_eq_sup, List.toFinset.ext h]

theorem meetAll_congr {qs qs' : List Qualifier} (h : ∀ q, q ∈ qs ↔ q ∈ qs') :
    meetAll qs = meetAll qs' := by
  rw [meetAll_eq_inf, meetAll_eq_inf, List.toFinset.ext h]

theorem joinAll_singleton (q : Qualifier) : joinAll [q] = q :=
  bot_sup_eq q

theorem joinAll_append (qs qs' : List Qualifier) :
    joinAll (qs ++ qs') = (joinAll qs).join (joinAll qs') := by
  rw [joinAll_eq_sup, List.toFinset_append, Finset.sup_union, ← joinAll_eq_sup, ← joinAll_eq_sup]
  rfl

theorem meetAll_append (qs qs' : List Qualifier) :
    meetAll (qs ++ qs') = (meetAll qs).meet (meetAll qs') := by
  rw [meetAll_eq_inf, List.toFinset_append, Finset.inf_union, ← meetAll_eq_inf, ← meetAll_eq_inf]
  rfl

end Qualifier

/-! ## Trees of operators -/

/-- The expression is built from the leaves, in this order, by operators whose results are of types
with values that may change. -/
inductive Expr.BuiltFrom (c : Configuration) : List Expr → Expr → Prop
  | leaf (e : Expr) : BuiltFrom c [e] e
  | binary {host : HostType} {lhs rhs : Expr} {ls rs : List Expr}
      (hhost : c.isImplicitlyImmutable host = false) (left : BuiltFrom c ls lhs)
      (right : BuiltFrom c rs rhs) : BuiltFrom c (ls ++ rs) (.binary host lhs rhs)

theorem Policy.qualifierOf_binary {π : Policy} {host : HostType}
    (hi : π.config.isImplicitlyImmutable host = false) (q : Qualifier) :
    π.qualifierOf ((Position.bare .binary host).fill q .propagated) = pure q := by
  show π.qualifierOf ⟨.binary, host, some ⟨q, .propagated⟩⟩ = .ok q
  have hk : Position.Kind.binary ≠ .staticField := by decide
  rw [qualifierOf_eq_ok, annotate_of_marked hi hk rfl]
  rfl

namespace Checker

theorem checkArgs_append (env : Env) (s : Scope) (es es' : List Expr) :
    checkArgs env s (es ++ es') = (do
      let qs ← checkArgs env s es
      let qs' ← checkArgs env s es'
      return qs ++ qs') := by
  induction es with
  | nil => rw [List.nil_append, checkArgs]; simp
  | cons e rest ih => rw [List.cons_append, checkArgs, checkArgs, ih]; simp

/-- A tree of operators evaluates its leaves as the arguments of a call, and has their join. -/
theorem map_qualifier_checkExpr {env : Env} {s : Scope} {leaves : List Expr} {e : Expr}
    (h : e.BuiltFrom env.policy.config leaves) :
    Typed.qualifier <$> checkExpr env s e = Qualifier.joinAll <$> checkArgs env s leaves := by
  induction h with
  | leaf e =>
    rw [checkArgs, checkArgs]
    simp [Qualifier.joinAll_singleton]
  | @binary host lhs rhs ls rs hhost _ _ ihl ihr =>
    calc
      Typed.qualifier <$> checkExpr env s (.binary host lhs rhs) = (do
          let l ← Typed.qualifier <$> checkExpr env s lhs
          let r ← Typed.qualifier <$> checkExpr env s rhs
          return l.join r) := by
        rw [checkExpr]
        simp [Policy.qualifierOf_binary hhost]
      _ = (do
          let qs ← checkArgs env s ls
          let qs' ← checkArgs env s rs
          return Qualifier.joinAll (qs ++ qs')) := by
        rw [ihl, ihr]
        simp [Qualifier.joinAll_append]
      _ = Qualifier.joinAll <$> checkArgs env s (ls ++ rs) := by
        rw [checkArgs_append]
        simp

/-- The expression is evaluated, and has this qualifier. -/
def HasQualifier (env : Env) (s : Scope) (e : Expr) (q : Qualifier) : Prop :=
  ∃ t d, Yields (checkExpr env s e) t d ∧ q = t.qualifier

theorem hasQualifier_iff {env : Env} {s : Scope} {e : Expr} {q : Qualifier} :
    HasQualifier env s e q ↔
      ∃ t, Within (fun _ => True) (checkExpr env s e) t ∧ q = t.qualifier := by
  constructor
  · rintro ⟨t, d, ht, hq⟩
    exact ⟨t, ht.within, hq⟩
  · rintro ⟨t, ⟨d, ht, -⟩, hq⟩
    exact ⟨t, d, ht, hq⟩

theorem within_map {α β : Type} {P : Diagnostic → Prop} {f : α → β} {m : Check α} {b : β} :
    Within P (f <$> m) b ↔ ∃ a, Within P m a ∧ b = f a := by
  rw [map_eq_pure_bind, within_bind]
  simp only [within_pure]

/-- A tree of operators has a qualifier exactly if all its leaves have, and then their join. -/
theorem hasQualifier_of_builtFrom {env : Env} {s : Scope} {leaves : List Expr} {e : Expr}
    (h : e.BuiltFrom env.policy.config leaves) {q : Qualifier} :
    HasQualifier env s e q ↔
      ∃ qs, List.Forall₂ (HasQualifier env s) leaves qs ∧ q = Qualifier.joinAll qs := by
  have hleaves : ∀ qs, List.Forall₂ (HasQualifier env s) leaves qs ↔
      Within (fun _ => True) (checkArgs env s leaves) qs := by
    intro qs
    rw [within_checkArgs]
    exact ⟨fun h => h.imp fun _ _ => hasQualifier_iff.1,
      fun h => h.imp fun _ _ => hasQualifier_iff.2⟩
  simp only [hleaves, hasQualifier_iff, ← within_map, map_qualifier_checkExpr h]

/-- An expression has at most one qualifier. -/
theorem HasQualifier.unique {env : Env} {s : Scope} {e : Expr} {q q' : Qualifier}
    (h : HasQualifier env s e q) (h' : HasQualifier env s e q') : q = q' := by
  obtain ⟨t, d, ht, rfl⟩ := h
  obtain ⟨t', d', ht', rfl⟩ := h'
  rw [(ht.unique ht').1]

theorem exists_hasQualifier_of_mem {env : Env} {s : Scope} {es : List Expr} {qs : List Qualifier}
    (h : List.Forall₂ (HasQualifier env s) es qs) {e : Expr} (he : e ∈ es) :
    ∃ q ∈ qs, HasQualifier env s e q := by
  have hflip : List.Forall₂ (flip (HasQualifier env s)) qs es := List.Forall₂.flip h
  exact exists_of_mem_forall₂ hflip he

theorem mem_of_hasQualifiers {env : Env} {s : Scope} {es : List Expr} {qs : List Qualifier}
    (h : List.Forall₂ (HasQualifier env s) es qs) {q : Qualifier} :
    q ∈ qs ↔ ∃ e ∈ es, HasQualifier env s e q := by
  constructor
  · exact exists_of_mem_forall₂ h
  · rintro ⟨e, he, hq⟩
    obtain ⟨q', hq', hqe⟩ := exists_hasQualifier_of_mem h he
    exact HasQualifier.unique hqe hq ▸ hq'

/-- Trees with the same leaves have the same qualifier, in whatever order and however often the
leaves come. -/
theorem HasQualifier.of_same_leaves {env : Env} {s : Scope} {leaves leaves' : List Expr}
    {e e' : Expr} (h : e.BuiltFrom env.policy.config leaves)
    (h' : e'.BuiltFrom env.policy.config leaves') (hsame : ∀ x, x ∈ leaves' ↔ x ∈ leaves)
    {q : Qualifier} (hq : HasQualifier env s e q) : HasQualifier env s e' q := by
  obtain ⟨qs, hqs, rfl⟩ := (hasQualifier_of_builtFrom h).1 hq
  have hall : ∀ x ∈ leaves', ∃ q, HasQualifier env s x q := by
    intro x hx
    obtain ⟨q, -, hxq⟩ := exists_hasQualifier_of_mem hqs ((hsame x).1 hx)
    exact ⟨q, hxq⟩
  obtain ⟨qs', hqs'⟩ := exists_forall₂ hall
  refine (hasQualifier_of_builtFrom h').2 ⟨qs', hqs', Qualifier.joinAll_congr fun q => ?_⟩
  simp only [mem_of_hasQualifiers hqs, mem_of_hasQualifiers hqs', hsame]

end Checker

open Qualifier Checker

/-- The order of qualifiers is the one that its direct steps generate, and looking for the least or
the greatest common bound of two always finds it: their join or meet. The tables that
are computed from the direct steps hold just these, since the loop that closes the table of any
steps leads wherever the steps lead. The join of a list is its least upper bound and the meet its
greatest lower bound. Both depend on nothing but which the members are, and take lists put together
to the join or the meet of the parts. So a tree of operators on types with values that may change
has the join of its leaves, and any other tree with these leaves has the same. -/
theorem bounds_independent_of_shape :
    (∀ a b : Qualifier, a ≤ b ↔ Relation.ReflTransGen (fun x y => Covers y x) a b) ∧
    (∀ a b : Qualifier, leastAbove? a b = some (a.join b) ∧ greatestBelow? a b = some (a.meet b)) ∧
    Hierarchy.build = ⟨⟨le⟩, join, meet⟩ ∧
    (∀ (edges : List (Qualifier × Qualifier)) (a b : Qualifier),
      (Hierarchy.Table.ofSteps edges).close.holds a b = true ↔
        Relation.ReflTransGen (fun x y => (x, y) ∈ edges) a b) ∧
    (∀ qs : List Qualifier, IsLUB {q | q ∈ qs} (joinAll qs) ∧ IsGLB {q | q ∈ qs} (meetAll qs)) ∧
    joinAll [] = .bottom ∧ meetAll [] = .readonly ∧
    (∀ qs qs' : List Qualifier, (∀ q, q ∈ qs ↔ q ∈ qs') →
      joinAll qs = joinAll qs' ∧ meetAll qs = meetAll qs') ∧
    (∀ qs qs' : List Qualifier, joinAll (qs ++ qs') = (joinAll qs).join (joinAll qs') ∧
      meetAll (qs ++ qs') = (meetAll qs).meet (meetAll qs')) ∧
    ∀ (env : Env) (s : Scope) (leaves : List Expr) (e : Expr),
      e.BuiltFrom env.policy.config leaves →
        (∀ q, HasQualifier env s e q ↔
          ∃ qs, List.Forall₂ (HasQualifier env s) leaves qs ∧ q = joinAll qs) ∧
        ∀ (leaves' : List Expr) (e' : Expr), e'.BuiltFrom env.policy.config leaves' →
          (∀ x, x ∈ leaves' ↔ x ∈ leaves) →
            ∀ q, HasQualifier env s e' q ↔ HasQualifier env s e q := by
  refine ⟨fun a b => le_iff_reflTransGen, fun a b => ⟨leastAbove?_eq a b, greatestBelow?_eq a b⟩,
    Hierarchy.build_eq, fun edges a b => Hierarchy.Table.close_ofSteps_iff,
    fun qs => ⟨isLUB_joinAll qs, isGLB_meetAll qs⟩, rfl, rfl,
    fun qs qs' h => ⟨joinAll_congr h, meetAll_congr h⟩,
    fun qs qs' => ⟨joinAll_append qs qs', meetAll_append qs qs'⟩, fun env s leaves e h => ?_⟩
  refine ⟨fun q => hasQualifier_of_builtFrom h, fun leaves' e' h' hsame q => ⟨?_, ?_⟩⟩
  · exact HasQualifier.of_same_leaves h' h fun x => (hsame x).symm
  · exact HasQualifier.of_same_leaves h h' hsame

/-- A scope with two variables of different qualifiers. -/
def sumScope : Scope where
  location := ⟨"Sums", "add"⟩
  receiver := none
  inConstructor := false
  returns := none
  vars := .ofList [("a", ⟨.bare .localVariable (.declared "Sum"), .mutable⟩),
    ("b", ⟨.bare .localVariable (.declared "Sum"), .immutable⟩)]
  written := []

/-- The sums `(a + b) + a` and `b + a` have the same leaves. -/
theorem bounds_independent_of_shape_sum :
    let env : Env := ⟨.ofConfiguration .standard, ∅⟩
    let sum := Expr.binary (.declared "Sum")
    HasQualifier env sumScope (sum (sum (.var "a") (.var "b")) (.var "a")) .readonly ∧
      HasQualifier env sumScope (sum (.var "b") (.var "a")) .readonly := by
  intro env sum
  have ha : HasQualifier env sumScope (.var "a") .mutable :=
    hasQualifier_iff.2 ⟨_, within_var.2 ⟨_, rfl, rfl⟩, rfl⟩
  have hb : HasQualifier env sumScope (.var "b") .immutable :=
    hasQualifier_iff.2 ⟨_, within_var.2 ⟨_, rfl, rfl⟩, rfl⟩
  have hhost : env.policy.config.isImplicitlyImmutable (.declared "Sum") = false := by decide
  obtain ⟨hjoin, hsame⟩ := bounds_independent_of_shape.2.2.2.2.2.2.2.2.2 env sumScope _ _
    (.binary hhost (.binary hhost (.leaf (.var "a")) (.leaf (.var "b"))) (.leaf (.var "a")))
  have hsum := (hjoin .readonly).2 ⟨_, .cons ha (.cons hb (.cons ha .nil)), by decide⟩
  refine ⟨hsum, (hsame _ _ (.binary hhost (.leaf (.var "b")) (.leaf (.var "a"))) fun x => ?_) _ |>.2
    hsum⟩
  simp only [List.mem_append, List.mem_singleton]
  tauto

end Mutability
