import LogoLang.Proofs.Emit.Agreement
import LogoLang.Proofs.Emit.Statement
import Mathlib.Data.Finset.Basic

set_option autoImplicit false

/-! # Names in doubt

The scope of an emission is carried through the text as if every body were run once. A run may pass
over a body or go through it again, so that the scope can say of a name what is not true of the
variable. Such a name is in doubt: after a block if a `MAKE` in its body changes what the scope says of
the name, and in a loop from its condition on, until the next `MAKE` of the name. A statement is certain
if it reads no name in doubt. What the scope says of all other names is true on either way through a
block (`Scope.Known.pass`, `Scope.Known.back`). -/

namespace LogoLang

/-! ## What bodies change -/

mutual

/-- The names of which a statement changes what the scope says. -/
def Stmt.retypes (scope : Scope) : Stmt → Finset Text
  | .block _ _ body _ => bodyRetypes scope body
  | .assign .make (.named name _) value _ =>
    if value.typeIn scope = Bindings.get? scope name then ∅ else {name}
  | .assign .make (.malformed _) _ _ => ∅
  | .assign .increase _ _ _ => ∅
  | .pen _ _ => ∅
  | .command _ _ _ => ∅
  | .call _ _ _ => ∅
  | .comment _ _ => ∅

/-- The names of which the statements of a body change what the scope says, at any depth. -/
def bodyRetypes (scope : Scope) : List Stmt → Finset Text
  | [] => ∅
  | stmt :: rest => stmt.retypes scope ∪ bodyRetypes (stmt.scopeAfter scope) rest

end

mutual

theorem Stmt.get?_scopeAfter {stmt : Stmt} {scope : Scope} {name : Text}
    (h : name ∉ stmt.retypes scope) :
    Bindings.get? (stmt.scopeAfter scope) name = Bindings.get? scope name := by
  cases stmt with
  | block kind condition body line => exact get?_scopeAfterBody h
  | assign kind target value line =>
    cases kind with
    | increase => rfl
    | make =>
      cases target with
      | malformed flaw => rfl
      | named name' span =>
        rw [Stmt.scopeAfter]
        rw [Stmt.retypes] at h
        split
        · next ty htype =>
          by_cases hname : name' = name
          · subst hname
            -- a name whose entry is set and that is not retyped keeps its type
            rw [htype] at h
            split at h
            · next hsame => rw [Bindings.get?_set_self, ← hsame]
            · exact absurd (Finset.mem_singleton_self name') h
          · exact Bindings.get?_set_of_ne scope ty hname
        · rfl
  | pen | command | call | comment => rfl

/-- The scope says after a body what it said before, but for the names that the body retypes. -/
theorem get?_scopeAfterBody {body : List Stmt} {scope : Scope} {name : Text}
    (h : name ∉ bodyRetypes scope body) :
    Bindings.get? (scopeAfterBody scope body) name = Bindings.get? scope name := by
  cases body with
  | nil => rfl
  | cons stmt rest =>
    rw [bodyRetypes, Finset.notMem_union] at h
    rw [scopeAfterBody, get?_scopeAfterBody h.2, Stmt.get?_scopeAfter h.1]

end

/-! ## Doubt -/

/-- The names in doubt after a statement. A `MAKE` removes the doubt about its name. -/
def Stmt.doubtAfter (scope : Scope) (doubt : Finset Text) : Stmt → Finset Text
  | .block _ _ body _ => doubt ∪ bodyRetypes scope body
  | .assign .make (.named name _) _ _ => doubt.erase name
  | .assign .make (.malformed _) _ _ => doubt
  | .assign .increase _ _ _ => doubt
  | .pen _ _ => doubt
  | .command _ _ _ => doubt
  | .call _ _ _ => doubt
  | .comment _ _ => doubt

/-- The names in doubt after the statements of a body. -/
def doubtAfterBody (scope : Scope) (doubt : Finset Text) : List Stmt → Finset Text
  | [] => doubt
  | stmt :: rest => doubtAfterBody (stmt.scopeAfter scope) (stmt.doubtAfter scope doubt) rest

/-- The names in doubt at the start of a body: in a loop also those that an earlier pass retypes. -/
def BlockKind.doubtInside (kind : BlockKind) (scope : Scope) (doubt : Finset Text)
    (body : List Stmt) : Finset Text :=
  match kind with
  | .branch => doubt
  | .loop => doubt ∪ bodyRetypes scope body

theorem Stmt.doubtAfter_subset (stmt : Stmt) (scope : Scope) (doubt : Finset Text) :
    stmt.doubtAfter scope doubt ⊆ doubt ∪ stmt.retypes scope := by
  cases stmt with
  | block kind condition body line => exact Finset.Subset.refl _
  | assign kind target value line =>
    cases kind with
    | increase => exact Finset.subset_union_left
    | make =>
      cases target with
      | malformed flaw => exact Finset.subset_union_left
      | named name span => exact (Finset.erase_subset name doubt).trans Finset.subset_union_left
  | pen | command | call | comment => exact Finset.subset_union_left

/-- No name comes into doubt in a body that the body does not retype. -/
theorem doubtAfterBody_subset (body : List Stmt) (scope : Scope) (doubt : Finset Text) :
    doubtAfterBody scope doubt body ⊆ doubt ∪ bodyRetypes scope body := by
  induction body generalizing scope doubt with
  | nil => exact Finset.subset_union_left
  | cons stmt rest ih =>
    calc doubtAfterBody scope doubt (stmt :: rest)
        ⊆ stmt.doubtAfter scope doubt ∪ bodyRetypes (stmt.scopeAfter scope) rest := ih _ _
      _ ⊆ (doubt ∪ stmt.retypes scope) ∪ bodyRetypes (stmt.scopeAfter scope) rest :=
          Finset.union_subset_union_left (stmt.doubtAfter_subset scope doubt)
      _ = doubt ∪ bodyRetypes scope (stmt :: rest) := Finset.union_assoc _ _ _

/-! ## Certain statements -/

/-- Whether an expression reads no name in doubt. -/
def Expr.isCertain (doubt : Finset Text) (expr : Expr) : Bool :=
  expr.reads.all fun name => name ∉ doubt

mutual

/-- Whether a statement reads no name in doubt, anywhere in it. -/
def Stmt.isCertain (scope : Scope) (doubt : Finset Text) : Stmt → Bool
  | .block kind condition body _ =>
    condition.isCertain (kind.doubtInside scope doubt body) &&
      bodyIsCertain scope (kind.doubtInside scope doubt body) body
  | .assign .make _ value _ => value.isCertain doubt
  | .assign .increase target value _ =>
    target.name?.all (fun name => name ∉ doubt) && value.isCertain doubt
  | .pen _ _ => true
  | .command _ value _ => value.isCertain doubt
  | .call _ args _ => args.all (Expr.isCertain doubt)
  | .comment _ _ => true

/-- Whether the statements of a body read no name that is in doubt where it is read. -/
def bodyIsCertain (scope : Scope) (doubt : Finset Text) : List Stmt → Bool
  | [] => true
  | stmt :: rest =>
    stmt.isCertain scope doubt &&
      bodyIsCertain (stmt.scopeAfter scope) (stmt.doubtAfter scope doubt) rest

end

/-- Whether no function of a table reads a name in doubt. Of the parameters none is in doubt. -/
def FunctionTable.isCertain (table : FunctionTable) : Bool :=
  table.entries.all fun entry => bodyIsCertain entry.2.scope ∅ entry.2.body

/-! ## What is known -/

/-- What the scope says is true of the variables, but for the names in doubt. -/
def Scope.Known (scope : Scope) (doubt : Finset Text) (env : Environment) : Prop :=
  ∀ name, name ∉ doubt → scope.Fits env name

section Known

variable {scope : Scope} {doubt : Finset Text} {env : Environment} {body : List Stmt}

theorem Scope.Known.mono {doubt' : Finset Text} (h : scope.Known doubt env)
    (hsub : doubt ⊆ doubt') : scope.Known doubt' env :=
  fun name hname => h name fun hmem => hname (hsub hmem)

theorem Scope.Known.congr {scope' : Scope} (h : scope.Known doubt env)
    (hsame : ∀ name, name ∉ doubt → Bindings.get? scope' name = Bindings.get? scope name) :
    scope'.Known doubt env := by
  intro name hname ty hty
  rw [hsame name hname] at hty
  exact h name hname ty hty

/-- What is known before a block that is passed over is known after it. -/
theorem Scope.Known.pass (h : scope.Known doubt env) :
    (scopeAfterBody scope body).Known (doubt ∪ bodyRetypes scope body) env := by
  refine (h.mono Finset.subset_union_left).congr fun name hname => ?_
  rw [Finset.notMem_union] at hname
  exact get?_scopeAfterBody hname.2

/-- What is known at the end of a body is known after the block. -/
theorem Scope.Known.join
    (h : (scopeAfterBody scope body).Known (doubtAfterBody scope doubt body) env) :
    (scopeAfterBody scope body).Known (doubt ∪ bodyRetypes scope body) env :=
  h.mono (doubtAfterBody_subset body scope doubt)

/-- What is known at the end of the body of a loop is known at its start. -/
theorem Scope.Known.back
    (h : (scopeAfterBody scope body).Known (doubt ∪ bodyRetypes scope body) env) :
    scope.Known (doubt ∪ bodyRetypes scope body) env := by
  refine h.congr fun name hname => ?_
  rw [Finset.notMem_union] at hname
  exact (get?_scopeAfterBody hname.2).symm

/-- After a `MAKE` the type of the value is known. -/
theorem Scope.Known.set {name : Text} {ty : Bool} {v : Value} (h : scope.Known doubt env)
    (hv : v.isTruth = ty) :
    Scope.Known (Bindings.set scope name ty) (doubt.erase name) (env.bind name v) := by
  intro name' hname' ty' hty'
  by_cases heq : name = name'
  · subst heq
    rw [Bindings.get?_set_self, Option.some.injEq] at hty'
    exact ⟨v, Bindings.get?_set_self env name (some v), hv.trans hty'⟩
  · -- nothing changes for another name, about which the doubt stays
    have hdoubt : name' ∉ doubt := by
      rwa [Finset.mem_erase, not_and_or, not_not, or_iff_right (Ne.symm heq)] at hname'
    rw [Bindings.get?_set_of_ne scope ty heq] at hty'
    rw [Environment.bind, Bindings.get?_set_of_ne env (some v) heq]
    exact h name' hdoubt ty' hty'

/-- A new value of the known type changes nothing in what is known. -/
theorem Scope.Known.rebind {name : Text} {v : Value} (h : scope.Known doubt env)
    (hv : Bindings.get? scope name = some v.isTruth) : scope.Known doubt (env.bind name v) := by
  intro name' hname' ty' hty'
  by_cases heq : name = name'
  · subst heq
    rw [hv, Option.some.injEq] at hty'
    exact ⟨v, Bindings.get?_set_self env name (some v), hty'⟩
  · rw [Environment.bind, Bindings.get?_set_of_ne env (some v) heq]
    exact h name' hname' ty' hty'

theorem Scope.Known.settles {t : Turtle} {expr : Expr} {ty : Bool} (h : scope.Known doubt env)
    (htype : expr.typeIn scope = some ty) (hcertain : expr.isCertain doubt = true) :
    Settles ty t (expr.eval env t).result := by
  refine Expr.settles htype fun name hname => h name ?_
  exact of_decide_eq_true (List.all_eq_true.1 hcertain name hname)

end Known

end LogoLang
