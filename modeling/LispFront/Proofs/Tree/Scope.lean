import LispFront.Proofs.Tree.Env
import LispFront.Proofs.Tree.Path
import LispFront.Proofs.Tree.Provenance

/-!
# Lexical scope

What a name stands for below a node is read off the path to it: each hop into a slot of a binding
construct brings the names of the construct into scope, and the classes of `new` and of handlers
are outside of all scopes. A scope gives the innermost binder of a name, without its initial value.
-/

namespace LispFront

def Scope := Symbol → Option Binding

namespace Scope

def empty : Scope := fun _ => none

def extend (σ : Scope) (bs : List Binding) : Scope := fun s =>
  ((bs.reverse.find? (·.name = s)).map .withoutInit).or (σ s)

end Scope

/-- The scope of what stands in the slot that the hop goes to, given that of the node it leaves. -/
def Hop.scope (h : Hop) (σ : Scope) : Scope :=
  match h.parent.op, h.slot with
  | .letBlock bindings _, .bindings => σ.extend (binders (bindings.take h.index))
  | .letBlock bindings _, .body => σ.extend (binders bindings)
  | .loop _ bindings _, .bindings => σ.extend (binders (bindings.take h.index))
  | .loop _ bindings _, .body => σ.extend (binders bindings)
  | .letfnBlock bindings _, .bindings => σ.extend (binders bindings)
  | .letfnBlock bindings _, .body => σ.extend (binders bindings)
  | .fn self .., .methods => σ.extend (binders self.toList)
  | .method _ params .., .body => σ.extend (binders params)
  | .handler _ caught _, .body => σ.extend (binders [caught])
  | .handler .., .cls => .empty
  | .new .., .cls => .empty
  | _, _ => σ

def scopeAlong (σ : Scope) (hops : List Hop) : Scope := hops.foldl (fun σ h => h.scope σ) σ

def Env.scope (e : Env) : Scope := fun s => (e.local? s).map .withoutInit

theorem Scope.extend_cons (σ : Scope) (b : Binding) (bs : List Binding) :
    σ.extend (b :: bs) = (σ.extend [b]).extend bs := by
  funext s
  simp only [extend, List.reverse_cons, List.find?_append, List.reverse_nil, List.nil_append]
  cases bs.reverse.find? (·.name = s) with
  | none => rfl
  | some c => rfl

theorem Scope.extend_withoutInit (σ : Scope) (bs : List Binding) :
    σ.extend (bs.map .withoutInit) = σ.extend bs := by
  induction bs generalizing σ with
  | nil => rfl
  | cons b bs ih =>
    have hb : σ.extend [b.withoutInit] = σ.extend [b] := by
      funext s
      by_cases hs : b.name = s <;> simp [extend, Binding.withoutInit, hs]
    rw [List.map_cons, extend_cons, hb, ih, ← extend_cons]

namespace Env

variable (e : Env)

theorem scope_bind (b : Binding) : (e.bind b).scope = e.scope.extend [b] := by
  funext s
  by_cases hs : s = b.name
  · simp [scope, local?_bind, Scope.extend, hs]
  · simp [scope, local?_bind, Scope.extend, hs, Ne.symm hs]

theorem scope_bindMany (bs : List Binding) : (e.bindMany bs).scope = e.scope.extend bs := by
  induction bs generalizing e with
  | nil => rfl
  | cons b bs ih =>
    rw [Scope.extend_cons, ← scope_bind]
    exact ih (e.bind b)

end Env

/-- The scope of a slot agrees with the environment that what stands in it was analyzed in. -/
theorem scope_slotEnv (e : Env) (n m : Node) (slot : Slot) (i : Nat) :
    (n.op.slotEnv e slot i).scope = Hop.scope ⟨n, slot, i, m⟩ e.scope := by
  obtain ⟨op, form, env, raw⟩ := n
  cases op with
  | sequence | branch | new | tryBlock | case | caseBranch => cases slot <;> rfl
  | letBlock bindings body =>
    cases slot with
    | bindings | body => exact Env.scope_bindMany e _
    | _ => rfl
  | letfnBlock bindings body =>
    cases slot with
    | bindings =>
      have h := Env.scope_bindMany e ((binders bindings).map .withoutInit)
      rw [Scope.extend_withoutInit] at h
      exact h
    | body => exact Env.scope_bindMany e _
    | _ => rfl
  | loop id bindings body =>
    cases slot with
    | bindings | body => exact Env.scope_bindMany (e.withLoopId id) _
    | _ => rfl
  | handler cls caught body =>
    cases slot with
    | body => exact Env.scope_bindMany e.leaveTry _
    | _ => rfl
  | fn self methods variadic maxFixed once =>
    cases slot with
    | methods =>
      cases self with
      | none => rfl
      | some self =>
        cases hb : self.binder? with
        | none =>
          simp only [Op.slotEnv, Hop.scope, binders, Option.bind_some, Option.toList_some,
            List.filterMap_cons, List.filterMap_nil, hb]
          rfl
        | some b =>
          simp only [Op.slotEnv, Hop.scope, binders, Option.bind_some, Option.toList_some,
            List.filterMap_cons, List.filterMap_nil, hb]
          exact Env.scope_bind e b
    | _ => rfl
  | method id params fixed variadic body self =>
    cases slot with
    | body => exact Env.scope_bindMany e.withoutSelf _
    | _ => rfl
  | _ => rfl

def Scope.Bare (σ : Scope) : Prop := ∀ s b, σ s = some b → b.init = none

theorem Scope.bare_empty : empty.Bare := fun _ _ h => nomatch h

theorem Scope.bare_extend {σ : Scope} (h : σ.Bare) (bs : List Binding) : (σ.extend bs).Bare := by
  intro s b hb
  unfold extend at hb
  cases hfind : bs.reverse.find? (·.name = s) with
  | none =>
    rw [hfind] at hb
    exact h s b hb
  | some c =>
    rw [hfind] at hb
    cases hb
    rfl

theorem Env.bare_scope (e : Env) : e.scope.Bare := by
  intro s b hb
  obtain ⟨c, -, rfl⟩ := Option.map_eq_some_iff.mp hb
  rfl

theorem Hop.bare_scope (h : Hop) {σ : Scope} (hσ : σ.Bare) : (h.scope σ).Bare := by
  unfold Hop.scope
  split
  all_goals first | exact Scope.bare_extend hσ _ | exact Scope.bare_empty | exact hσ

theorem bare_scopeAlong {σ : Scope} (hσ : σ.Bare) (hops : List Hop) :
    (scopeAlong σ hops).Bare := by
  induction hops generalizing σ with
  | nil => exact hσ
  | cons h hops ih => exact ih (h.bare_scope hσ)

end LispFront
