import LispFront.Proofs.Sorted
import LispFront.Tree.Children
import LispFront.Tree.Env

/-!
# Renaming the loop ids of a tree

A renaming acts on every loop id in a tree: those that loops and methods carry, those that `recur`
goes back to, and those in environments and in the initial values that bindings hold.
-/

namespace LispFront

mutual

def Binding.mapIds (ρ : Symbol → Symbol) : Binding → Binding
  | ⟨name, kind, init, argId, variadic, assignable⟩ =>
    ⟨name, kind, mapIdsOfNode? ρ init, argId, variadic, assignable⟩

def Env.mapIds (ρ : Symbol → Symbol) : Env → Env
  | ⟨locals, context, ns, loopId, loopArity, inTry, once, topLevel, self⟩ =>
    ⟨mapIdsOfBindings ρ locals, context, ns, loopId.map ρ, loopArity, inTry, once, topLevel,
      mapIdsOfBinding? ρ self⟩

def Op.mapIds (ρ : Symbol → Symbol) : Op → Op
  | .const kind val metadata => .const kind val (mapIdsOfNode? ρ metadata)
  | .vector items => .vector (mapIdsOfNodes ρ items)
  | .map keys vals => .map (mapIdsOfNodes ρ keys) (mapIdsOfNodes ρ vals)
  | .set items => .set (mapIdsOfNodes ρ items)
  | .localRef b => .localRef (b.mapIds ρ)
  | .varRef v => .varRef v
  | .theVar v => .theVar v
  | .hostForm cls field => .hostForm cls field
  | .classRef cls => .classRef cls
  | .invoke fn args metadata => .invoke (fn.mapIds ρ) (mapIdsOfNodes ρ args) metadata
  | .sequence statements ret body =>
    .sequence (mapIdsOfNodes ρ statements) (ret.mapIds ρ) body
  | .branch test onTrue onFalse => .branch (test.mapIds ρ) (onTrue.mapIds ρ) (onFalse.mapIds ρ)
  | .new cls args => .new (cls.mapIds ρ) (mapIdsOfNodes ρ args)
  | .quote expr => .quote (expr.mapIds ρ)
  | .assign target val => .assign (target.mapIds ρ) (val.mapIds ρ)
  | .tryBlock body catches cleanup =>
    .tryBlock (body.mapIds ρ) (mapIdsOfNodes ρ catches) (mapIdsOfNode? ρ cleanup)
  | .handler cls caught body => .handler (cls.mapIds ρ) (caught.mapIds ρ) (body.mapIds ρ)
  | .throw exception => .throw (exception.mapIds ρ)
  | .define v doc metadata init => .define v doc (mapIdsOfNode? ρ metadata) (mapIdsOfNode? ρ init)
  | .hostCall target method args => .hostCall (target.mapIds ρ) method (mapIdsOfNodes ρ args)
  | .hostField target field => .hostField (target.mapIds ρ) field
  | .hostMember target member => .hostMember (target.mapIds ρ) member
  | .letBlock bindings body => .letBlock (mapIdsOfNodes ρ bindings) (body.mapIds ρ)
  | .letfnBlock bindings body => .letfnBlock (mapIdsOfNodes ρ bindings) (body.mapIds ρ)
  | .loop id bindings body => .loop (ρ id) (mapIdsOfNodes ρ bindings) (body.mapIds ρ)
  | .recur id exprs => .recur (ρ id) (mapIdsOfNodes ρ exprs)
  | .fn self methods variadic maxFixed once =>
    .fn (mapIdsOfNode? ρ self) (mapIdsOfNodes ρ methods) variadic maxFixed once
  | .method id params fixed variadic body self =>
    .method (ρ id) (mapIdsOfNodes ρ params) fixed variadic (body.mapIds ρ)
      (mapIdsOfBinding? ρ self)
  | .binding b => .binding (b.mapIds ρ)
  | .withMetadata metadata expr => .withMetadata (metadata.mapIds ρ) (expr.mapIds ρ)
  | .case test branches default shift mask switch tests skipCheck =>
    .case (test.mapIds ρ) (mapIdsOfNodes ρ branches) (default.mapIds ρ) shift mask switch tests
      skipCheck
  | .caseBranch tests body => .caseBranch (mapIdsOfNodes ρ tests) (body.mapIds ρ)

def Node.mapIds (ρ : Symbol → Symbol) : Node → Node
  | ⟨op, form, env, expandedFrom⟩ => ⟨op.mapIds ρ, form, env.mapIds ρ, expandedFrom⟩

def mapIdsOfNode? (ρ : Symbol → Symbol) : Option Node → Option Node
  | none => none
  | some n => some (n.mapIds ρ)

def mapIdsOfNodes (ρ : Symbol → Symbol) : List Node → List Node
  | [] => []
  | n :: ns => n.mapIds ρ :: mapIdsOfNodes ρ ns

def mapIdsOfBinding? (ρ : Symbol → Symbol) : Option Binding → Option Binding
  | none => none
  | some b => some (b.mapIds ρ)

def mapIdsOfBindings (ρ : Symbol → Symbol) : List Binding → List Binding
  | [] => []
  | b :: bs => b.mapIds ρ :: mapIdsOfBindings ρ bs

end

theorem mapIds_id_of_parts :
    (∀ b : Binding, b.mapIds id = b) ∧ (∀ n, mapIdsOfNode? id n = n) ∧
      (∀ n : Node, n.mapIds id = n) ∧ (∀ e : Env, e.mapIds id = e) ∧
      (∀ b, mapIdsOfBinding? id b = b) ∧ (∀ bs, mapIdsOfBindings id bs = bs) ∧
      (∀ op : Op, op.mapIds id = op) ∧ ∀ ns, mapIdsOfNodes id ns = ns := by
  apply Binding.mapIds.mutual_induct <;> intros <;>
    simp_all [Binding.mapIds, mapIdsOfNode?, Node.mapIds, Env.mapIds, mapIdsOfBinding?,
      mapIdsOfBindings, Op.mapIds, mapIdsOfNodes]

theorem mapIds_comp_of_parts (σ ρ : Symbol → Symbol) :
    (∀ b : Binding, (b.mapIds ρ).mapIds σ = b.mapIds (σ ∘ ρ)) ∧
      (∀ n, mapIdsOfNode? σ (mapIdsOfNode? ρ n) = mapIdsOfNode? (σ ∘ ρ) n) ∧
      (∀ n : Node, (n.mapIds ρ).mapIds σ = n.mapIds (σ ∘ ρ)) ∧
      (∀ e : Env, (e.mapIds ρ).mapIds σ = e.mapIds (σ ∘ ρ)) ∧
      (∀ b, mapIdsOfBinding? σ (mapIdsOfBinding? ρ b) = mapIdsOfBinding? (σ ∘ ρ) b) ∧
      (∀ bs, mapIdsOfBindings σ (mapIdsOfBindings ρ bs) = mapIdsOfBindings (σ ∘ ρ) bs) ∧
      (∀ op : Op, (op.mapIds ρ).mapIds σ = op.mapIds (σ ∘ ρ)) ∧
      ∀ ns, mapIdsOfNodes σ (mapIdsOfNodes ρ ns) = mapIdsOfNodes (σ ∘ ρ) ns := by
  apply Binding.mapIds.mutual_induct <;> intros <;>
    simp_all [Binding.mapIds, mapIdsOfNode?, Node.mapIds, Env.mapIds, mapIdsOfBinding?,
      mapIdsOfBindings, Op.mapIds, mapIdsOfNodes]

theorem Node.mapIds_id (n : Node) : n.mapIds id = n := mapIds_id_of_parts.2.2.1 n

theorem Env.mapIds_id (e : Env) : e.mapIds id = e := mapIds_id_of_parts.2.2.2.1 e

theorem Op.mapIds_id (op : Op) : op.mapIds id = op := mapIds_id_of_parts.2.2.2.2.2.2.1 op

theorem Node.mapIds_comp (σ ρ : Symbol → Symbol) (n : Node) :
    (n.mapIds ρ).mapIds σ = n.mapIds (σ ∘ ρ) :=
  (mapIds_comp_of_parts σ ρ).2.2.1 n

theorem Env.mapIds_comp (σ ρ : Symbol → Symbol) (e : Env) :
    (e.mapIds ρ).mapIds σ = e.mapIds (σ ∘ ρ) :=
  (mapIds_comp_of_parts σ ρ).2.2.2.1 e

theorem mapIdsOfBindings_eq (ρ : Symbol → Symbol) (bs : List Binding) :
    mapIdsOfBindings ρ bs = bs.map (Binding.mapIds ρ) := by
  induction bs with
  | nil => rfl
  | cons b bs ih => rw [mapIdsOfBindings, ih, List.map_cons]

namespace Env

variable (ρ : Symbol → Symbol) (e : Env)

theorem mapIds_withContext (c : Context) :
    (e.withContext c).mapIds ρ = (e.mapIds ρ).withContext c := by
  cases e
  rfl

theorem mapIds_bind (b : Binding) : (e.bind b).mapIds ρ = (e.mapIds ρ).bind (b.mapIds ρ) := by
  have hcmp (b c : Binding) : (b.mapIds ρ).name.cmp (c.mapIds ρ).name = b.name.cmp c.name := by
    cases b
    cases c
    rfl
  have hinsert : Sorted.insert (fun a b : Binding => a.name.cmp b.name) (b.mapIds ρ)
      (e.locals.map (Binding.mapIds ρ)) =
        (Sorted.insert (fun a b : Binding => a.name.cmp b.name) b e.locals).map (Binding.mapIds ρ) :=
    Sorted.insert_map (f := Binding.mapIds ρ) hcmp b e.locals
  cases e
  simp only [bind, mapIds, mapIdsOfBindings_eq, hinsert]

theorem mapIds_bindMany (bs : List Binding) :
    (e.bindMany bs).mapIds ρ = (e.mapIds ρ).bindMany (bs.map (Binding.mapIds ρ)) := by
  induction bs generalizing e with
  | nil => rfl
  | cons b bs ih =>
    change ((e.bind b).bindMany bs).mapIds ρ = _
    rw [ih, mapIds_bind]
    rfl

end Env

section Fixed

variable {ρ : Symbol → Symbol}

theorem mapIdsOfNodes_eq_self {ns : List Node} (h : ∀ n ∈ ns, n.mapIds ρ = n) :
    mapIdsOfNodes ρ ns = ns := by
  induction ns with
  | nil => rfl
  | cons n ns ih =>
    obtain ⟨hn, hns⟩ := List.forall_mem_cons.mp h
    rw [mapIdsOfNodes, hn, ih hns]

theorem mapIdsOfNode?_eq_self {n : Option Node} (h : ∀ m ∈ n, m.mapIds ρ = m) :
    mapIdsOfNode? ρ n = n := by
  cases n with
  | none => rfl
  | some n => rw [mapIdsOfNode?, h n rfl]

theorem Binding.mapIds_eq_self {b : Binding} (h : mapIdsOfNode? ρ b.init = b.init) :
    b.mapIds ρ = b := by
  cases b
  rw [Binding.mapIds, h]

theorem Binding.mapIds_of_init {b : Binding} (h : b.init = none) : b.mapIds ρ = b :=
  mapIds_eq_self (by rw [h, mapIdsOfNode?])

theorem mapIdsOfBindings_eq_self_iff {bs : List Binding} :
    mapIdsOfBindings ρ bs = bs ↔ ∀ b ∈ bs, b.mapIds ρ = b := by
  induction bs with
  | nil => simp [mapIdsOfBindings]
  | cons b bs ih => simp [mapIdsOfBindings, ih]

theorem Node.mapIds_eq_self_iff {n : Node} :
    n.mapIds ρ = n ↔ n.op.mapIds ρ = n.op ∧ n.env.mapIds ρ = n.env := by
  cases n
  simp [Node.mapIds]

def Op.Keeps (ρ : Symbol → Symbol) : Op → Prop
  | .localRef b => b.mapIds ρ = b
  | .recur id _ => ρ id = id
  | .loop id _ _ => ρ id = id
  | .method id _ _ _ _ self => ρ id = id ∧ mapIdsOfBinding? ρ self = self
  | _ => True

theorem Op.mapIds_eq_self {op : Op} (hown : op.Keeps ρ)
    (h : ∀ c ∈ op.children, ∀ n ∈ c.2.nodes, n.mapIds ρ = n) : op.mapIds ρ = op := by
  have hopt {slot : Slot} {o : Option Node}
      (ho : ∀ c ∈ slot.opt o, ∀ n ∈ c.2.nodes, n.mapIds ρ = n) : mapIdsOfNode? ρ o = o :=
    mapIdsOfNode?_eq_self fun n hn => by
      cases hn
      exact ho _ List.mem_cons_self n List.mem_cons_self
  cases op with
  | const kind val metadata => rw [Op.mapIds, hopt h]
  | localRef b => rw [Op.mapIds, hown]
  | binding b => rw [Op.mapIds, Binding.mapIds_eq_self (hopt h)]
  | tryBlock body catches cleanup =>
    obtain ⟨hbody, hrest⟩ := List.forall_mem_cons.mp h
    obtain ⟨hcatches, hcleanup⟩ := List.forall_mem_cons.mp hrest
    have hs : mapIdsOfNodes ρ catches = catches := mapIdsOfNodes_eq_self hcatches
    rw [Op.mapIds, hbody body List.mem_cons_self, hs, hopt hcleanup]
  | define v doc metadata init =>
    obtain ⟨hmetadata, hinit⟩ := List.forall_mem_append.mp h
    rw [Op.mapIds, hopt hmetadata, hopt hinit]
  | fn self methods =>
    obtain ⟨hself, hmethods⟩ := List.forall_mem_append.mp h
    have hs : mapIdsOfNodes ρ methods = methods :=
      mapIdsOfNodes_eq_self (List.forall_mem_singleton.mp hmethods)
    rw [Op.mapIds, hopt hself, hs]
  | _ =>
    -- no slot is optional here, and `simp_all` would rewrite under `hopt`'s quantifiers
    clear hopt
    simp_all only [Op.mapIds, Op.Keeps, Op.children, Child.nodes, List.forall_mem_cons,
      List.mem_singleton, forall_eq, mapIdsOfNodes_eq_self, implies_true]

end Fixed

end LispFront
