import Mutability.Proofs.CleanReports
import Mutability.Proofs.ConstructorSummaries

/-!
# What constructors of other than mutable objects set

The setting of fields is followed by one part of the checker and the legality of writes is judged by
another. In a clean program they meet: whatever a constructor counts as set has gone through a write
that is legal for the object under construction (`mayWrite_of_mem_body`). An ordinary field, neither
final nor assignable, is only written through a `mutable` receiver. So a constructor whose object is
not `mutable` leaves every ordinary field unset that it would have to set; besides these it can only
leave unset final ones. If it leaves nothing unset, there is no such field
(`ordinary_fields_left_unset`).
-/

namespace Mutability

open Typing

/-- The field is one of objects, is neither final nor assignable, and each constructor has to set
it. A field annotated `polyMutable` counts as `receiverDependant`. -/
def FieldDecl.OrdinaryInvariant (π : Policy) (f : FieldDecl) : Prop :=
  f.isStatic = false ∧ f.isFinal = false ∧ f.isAssignable = false ∧
    ∃ q ∈ f.slot.qualifier? π, q = .immutable ∨ q = .receiverDependant ∨ q = .polyMutable

instance (π : Policy) (f : FieldDecl) : Decidable (f.OrdinaryInvariant π) :=
  inferInstanceAs (Decidable (_ ∧ _ ∧ _ ∧ _))

theorem FieldDecl.OrdinaryInvariant.mustBeSet {π : Policy} {f : FieldDecl}
    (h : f.OrdinaryInvariant π) : f.MustBeSet π := by
  obtain ⟨hstatic, hfinal, hassignable, hq⟩ := h
  refine ⟨hstatic, hq, ?_⟩
  rw [hfinal, hassignable]
  decide

/-- A field that has to be set is ordinary or final. -/
theorem FieldDecl.OrdinaryInvariant.of_mustBeSet {π : Policy} {f : FieldDecl}
    (h : f.MustBeSet π) (hfinal : f.isFinal = false) : f.OrdinaryInvariant π := by
  obtain ⟨hstatic, hq, hmodifiers⟩ := h
  refine ⟨hstatic, hfinal, ?_, hq⟩
  cases hassignable : f.isAssignable with
  | false => rfl
  | true =>
    rw [hfinal, hassignable] at hmodifiers
    exact absurd rfl hmodifiers

theorem FieldDecl.OrdinaryInvariant.eq_mutable_of_mayWrite {π : Policy} {f : FieldDecl}
    (h : f.OrdinaryInvariant π) {M : Member} {receiver : Expr} {r : Qualifier}
    (hmay : MayWrite M f receiver r) : r = .mutable := by
  obtain ⟨hstatic, hfinal, hassignable, -⟩ := h
  cases hmay with
  | assignable _ has => cases hassignable.symm.trans has
  | initializer hfin => cases hfinal.symm.trans hfin
  | static _ hst => cases hstatic.symm.trans hst
  | mutable _ hr => exact hr

namespace Checker

/-- The scope is that of a body in which the object under construction is qualified `ret`. -/
structure Scope.Constructs (s : Scope) (c : ClassDecl) (ret : Qualifier) : Prop where
  owner : s.location.className = c.name
  receiver : s.receiver = some ret
  inConstructor : s.inConstructor = true

theorem Scope.Constructs.of_sameMember {s s' : Scope} {c : ClassDecl} {ret : Qualifier}
    (h : s.Constructs c ret) (hs : s.SameMember s') : s'.Constructs c ret where
  owner := by rw [hs.location, h.owner]
  receiver := by rw [hs.receiver, h.receiver]
  inConstructor := by rw [hs.inConstructor, h.inConstructor]

section

variable {P : Diagnostic → Prop} {env : Env} {s s' : Scope} {c : ClassDecl} {table : ClassTable}
  {ret : Qualifier} {name : String} {e : Expr}

/-- A write on the object under construction that is not reported is legal through its
qualifier. -/
theorem mayWrite_of_fieldWrite (ht : env.tables.get? c.name = some table)
    (hc : ClassDeclaredAs P env.policy c table) (hs : s.Constructs c ret)
    (h : Within noDiagnostic (checkStmt env s (.fieldWrite .self name e)) s') :
    ∃ f, c.field? name = some f ∧ MayWrite s.member f .self ret := by
  obtain ⟨target, resolved, value, htarget, hf, -, hw, -⟩ := within_fieldWrite.1 h
  obtain ⟨q, hq, rfl⟩ := within_self.1 htarget
  obtain rfl := Option.some.inj (hs.receiver.symm.trans hq)
  obtain ⟨owner, howner, table', ht', hget⟩ := Tables.field_eq_ok.1 hf
  obtain rfl : c.name = owner := by
    rw [← hs.owner]
    exact HostType.declared.inj howner
  obtain rfl := Option.some.inj (ht.symm.trans ht')
  rcases hc.field name with ⟨-, hnone⟩ | ⟨f, r, hfind, hr, d, -, hresolved⟩
  · rw [hnone] at hget
    cases hget
  · obtain rfl := Option.some.inj (hr.symm.trans hget)
    have hfield := congrArg ResolvedField.field hresolved
    exact ⟨f, hfind, ((writeDiagnostics_eq_nil (M := s.member) hfield).1
      (forall_noDiagnostic.1 hw)).1⟩

/-- Every write on the object under construction, anywhere in a body that is not reported. -/
theorem mayWrite_of_mem_body {body : List Stmt} (ht : env.tables.get? c.name = some table)
    (hc : ClassDeclaredAs P env.policy c table) (hs : s.Constructs c ret)
    (h : Within noDiagnostic (checkBody env s body) s')
    (hmem : .fieldWrite .self name e ∈ body) :
    ∃ f, c.field? name = some f ∧ MayWrite s.member f .self ret := by
  induction body generalizing s with
  | nil => cases hmem
  | cons stmt rest ih =>
    obtain ⟨next, hstmt, hrest⟩ := within_checkBody_cons.1 h
    rcases List.mem_cons.1 hmem with rfl | hmem
    · exact mayWrite_of_fieldWrite ht hc hs hstmt
    · have hsame := sameMember_of_checkStmt hstmt
      rw [← hsame.member_eq]
      exact ih (hs.of_sameMember hsame) hrest hmem

end

/-- A constructor that is not reported gives a qualifier that new objects may have. If this is not
`mutable`, it leaves unset the ordinary fields, and the final ones that its body does not set. -/
theorem mem_unsetBy_of_clean_checkConstructor {P : Diagnostic → Prop} {env : Env} {c : ClassDecl}
    {table : ClassTable} {k : ConstructorDecl} {index : Nat} {summary : ConstructorSummary}
    (ht : env.tables.get? c.name = some table) (hc : ClassDeclaredAs P env.policy c table)
    (h : Within noDiagnostic (checkConstructor env c index k) summary) :
    summary.object.mutability ∈ Construction.returnQualifiers ∧
      (summary.object.mutability ≠ .mutable → ∀ name f, c.field? name = some f →
        (name ∈ c.unsetBy env.policy k ↔ f.OrdinaryInvariant env.policy ∨
          f.isFinal = true ∧ f.MustBeSet env.policy ∧
            ∀ value, .fieldWrite .self name value ∉ k.body)) := by
  obtain ⟨table', resolved, s', ht', -, hdiag, hbody, rfl⟩ := within_checkConstructor.1 h
  obtain ⟨hret, -⟩ := Construction.declarationDiagnostics_eq_nil.1 (forall_noDiagnostic.1 hdiag)
  refine ⟨hret, fun hne name f hf => ?_⟩
  rw [ClassDecl.mem_unsetBy, hf]
  simp only [Option.some.injEq, exists_eq_left']
  constructor
  · rintro ⟨hset, hnone⟩
    cases hfinal : f.isFinal with
    | false => exact Or.inl (.of_mustBeSet hset hfinal)
    | true => exact Or.inr ⟨rfl, hset, hnone⟩
  · rintro (hordinary | ⟨-, hset, hnone⟩)
    · refine ⟨hordinary.mustBeSet, fun value hmem => hne ?_⟩
      have hs : (constructorScope c index resolved).Constructs c resolved.ret := ⟨rfl, rfl, rfl⟩
      obtain ⟨f', hf', hmay⟩ := mayWrite_of_mem_body ht hc hs hbody hmem
      obtain rfl := Option.some.inj (hf.symm.trans hf')
      exact hordinary.eq_mutable_of_mayWrite hmay
    · exact ⟨hset, hnone⟩

end Checker

open Checker

/-- In a clean program each constructor has a run that is not reported, against the table of its own
class. -/
theorem Program.exists_clean_checkConstructor {π : Policy} {p : Program} {r : Report}
    (hn : (p.classes.map ClassDecl.name).Nodup) (h : p.check π = .ok r) (hr : r.diagnostics = [])
    {c : ClassDecl} {k : ConstructorDecl} {index : Nat} (hc : c ∈ p.classes)
    (hk : c.constructors[index]? = some k) :
    ∃ tables table summary, tables.get? c.name = some table ∧
      ClassDeclaredAs noDiagnostic π c table ∧
      Within noDiagnostic (checkConstructor ⟨π, tables⟩ c index k) summary := by
  obtain ⟨tables, hfirst, hsecond⟩ :=
    Program.check_within.1 ⟨r, h, diagnostics_eq_nil_iff.1 hr⟩
  obtain ⟨table, ht, hdecl⟩ := get?_of_mem hfirst hn hc
  obtain ⟨summary, hsummary⟩ := (within_checkClass.1 (hsecond c hc)).1 index k hk
  exact ⟨tables, table, summary, ht, hdecl, hsummary⟩

/-- In the clean report of a program whose classes have different names, a constructor whose object
is not `mutable` leaves unset every ordinary field that has to be set, and apart from these only
final ones that its body does not set. So if it leaves nothing unset, the class has no such ordinary
field. The last declaration of a name counts. -/
theorem ordinary_fields_left_unset (π : Policy) (p : Program) (r : Report)
    (hn : (p.classes.map ClassDecl.name).Nodup) (h : p.check π = .ok r)
    (hr : r.diagnostics = []) :
    List.Forall₂ (fun x s => s.location = constructorLocation x.1 x.2.2 ∧
      s.object.mutability ∈ [.mutable, .immutable, .receiverDependant] ∧
      (s.object.mutability ≠ .mutable → s.uninitialized = [] →
        ∀ name f, x.1.field? name = some f → ¬ f.OrdinaryInvariant π) ∧
      (s.object.mutability = .immutable ∨ s.object.mutability = .receiverDependant →
        ∀ name f, x.1.field? name = some f →
          (name ∈ s.uninitialized ↔ f.OrdinaryInvariant π ∨
            f.isFinal = true ∧ f.MustBeSet π ∧
              ∀ value, .fieldWrite .self name value ∉ x.2.1.body)))
      p.constructors r.constructors := by
  obtain ⟨ds, hds, hconstructors, -⟩ := Program.exists_concat_of_check hn h
  have hsummaries := forall₂_summarizes_concat hds
  rw [← hconstructors] at hsummaries
  have hmem : ∀ x ∈ p.constructors, x.1 ∈ p.classes ∧ x.1.constructors[x.2.2]? = some x.2.1 :=
    fun x hx => Program.mem_constructors hx
  refine ((List.forall₂_and_left _ _).2 ⟨hmem, hsummaries⟩).imp ?_
  rintro ⟨c, k, index⟩ s ⟨⟨hc, hk⟩, hs⟩
  obtain ⟨tables, table, summary, ht, hdecl, hrun⟩ :=
    Program.exists_clean_checkConstructor hn h hr hc hk
  obtain rfl := hs.unique (summarizes_checkConstructor ht hdecl hk hrun)
  obtain ⟨hret, hunset⟩ := mem_unsetBy_of_clean_checkConstructor ht hdecl hrun
  rw [← hs.uninitialized] at hunset
  refine ⟨hs.location, hret, fun hne hnil name f hf hordinary => ?_, fun hret => hunset ?_⟩
  · have hlisted := (hunset hne name f hf).2 (Or.inl hordinary)
    rw [hnil] at hlisted
    cases hlisted
  · rcases hret with hret | hret <;> rw [hret] <;> decide

/-- A class with an ordinary field, which its first constructor sets and its second one cannot, and
a class whose constructor sets all that has to be set. -/
def noteProgram : Program where
  classes := [
    { name := "Note"
      fields := [⟨"text", .declared "Note", some "@Immutable", false, false, false⟩,
        ⟨"owner", .declared "Note", some "@ReceiverDependantMutable", false, true, false⟩]
      constructors := [
        ⟨some "@Mutable", [⟨"t", .declared "Note", some "@Immutable"⟩,
            ⟨"o", .declared "Note", some "@Mutable"⟩],
          [.fieldWrite .self "text" (.var "t"), .fieldWrite .self "owner" (.var "o")]⟩,
        ⟨some "@ReceiverDependantMutable",
          [⟨"o", .declared "Note", some "@ReceiverDependantMutable"⟩],
          [.fieldWrite .self "owner" (.var "o")]⟩]
      methods := [] },
    { name := "Stamp"
      fields := [⟨"code", .declared "Note", some "@Immutable", false, true, false⟩,
        ⟨"seen", .declared "Note", some "@Immutable", false, false, true⟩,
        ⟨"draft", .declared "Note", some "@Mutable", false, false, false⟩]
      constructors := [⟨some "@Immutable", [⟨"c", .declared "Note", some "@Immutable"⟩],
        [.fieldWrite .self "code" (.var "c")]⟩]
      methods := [] }]

/-- The second constructor leaves the ordinary field unset. The third one leaves nothing unset, so
its class has no such field. -/
theorem ordinary_fields_left_unset_noteProgram :
    ∃ r s₁ s₂ s₃, noteProgram.check default = .ok r ∧ r.diagnostics = [] ∧
      r.constructors = [s₁, s₂, s₃] ∧
      (s₂.object.mutability = .receiverDependant ∧ "text" ∈ s₂.uninitialized) ∧
      s₃.object.mutability = .immutable ∧ s₃.uninitialized = [] ∧
      ∀ name f, (noteProgram.classes[1]).field? name = some f → ¬ f.OrdinaryInvariant default := by
  have hrun : (noteProgram.check default).map (fun r => (r.diagnostics, r.constructors)) = .ok ([],
      [⟨⟨"Note", "<init>[0]"⟩, ⟨.mutable, .initialized⟩, []⟩,
        ⟨⟨"Note", "<init>[1]"⟩, ⟨.receiverDependant, .underInitialization 0⟩, ["text"]⟩,
        ⟨⟨"Stamp", "<init>[0]"⟩, ⟨.immutable, .initialized⟩, []⟩]) := by
    decide +kernel
  cases hcheck : noteProgram.check default with
  | error f => rw [hcheck] at hrun; cases hrun
  | ok r =>
    rw [hcheck] at hrun
    obtain ⟨hdiagnostics, hconstructors⟩ := Prod.mk.inj (Except.ok.inj hrun)
    have hall := ordinary_fields_left_unset default noteProgram r (by decide) hcheck hdiagnostics
    rw [hconstructors] at hall
    obtain ⟨-, hrest⟩ := List.forall₂_cons.1 hall
    obtain ⟨⟨-, -, -, hunset⟩, hrest⟩ := List.forall₂_cons.1 hrest
    obtain ⟨⟨-, -, hnone, -⟩, -⟩ := List.forall₂_cons.1 hrest
    have htext : "text" ∈ ["text"] :=
      (hunset (Or.inr rfl) "text" _ rfl).2 (Or.inl (by decide +kernel))
    exact ⟨r, _, _, _, rfl, hdiagnostics, hconstructors, ⟨rfl, htext⟩, rfl, rfl,
      hnone (by decide) rfl⟩

end Mutability
