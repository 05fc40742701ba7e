import Mathlib.Data.Fintype.Sigma
import Mathlib.Data.Fintype.Sum
import LispFront.Proofs.Analysis.BindingPairs
import LispFront.Proofs.Analysis.DefFree
import LispFront.Proofs.Analysis.Numbering

/-!
# The order of the bindings of `letfn*`

All names that a `letfn*` binds are in scope in each of its values, and no name is bound twice, so
the environments of the values and of the body do not depend on the order of the bindings. Where the
values define nothing, the order decides about nothing but which names the supply gives to which
loops.
-/

namespace LispFront

open AnalyzerM BindingPair
open List (Forall₂)

def BindingPair.letfn (p : BindingPair) (init : Option Node) : Binding :=
  { name := p.name, kind := .letfn, init }

theorem firstRepeated?_eq_none_iff {seen : List Symbol} {pairs : List BindingPair} :
    firstRepeated? seen pairs = none ↔
      (pairs.map (·.name)).Nodup ∧ ∀ p ∈ pairs, p.name ∉ seen := by
  induction pairs generalizing seen with
  | nil => simp [firstRepeated?]
  | cons p pairs ih =>
    by_cases hp : p.name ∈ seen
    · simp [firstRepeated?, hp]
    · simp only [firstRepeated?, hp, if_false, ih, List.map_cons, List.nodup_cons, List.mem_map,
        List.mem_cons, forall_eq_or_imp, not_false_eq_true, true_and]
      constructor
      · rintro ⟨hnodup, hseen⟩
        refine ⟨⟨?_, hnodup⟩, fun q hq => fun hmem => hseen q hq (.inr hmem)⟩
        rintro ⟨q, hq, hname⟩
        exact hseen q hq (.inl hname)
      · rintro ⟨⟨hp, hnodup⟩, hseen⟩
        refine ⟨hnodup, fun q hq => ?_⟩
        rintro (hname | hmem)
        · exact hp ⟨q, hq, hname⟩
        · exact hseen q hq hmem

section Runs

variable {recurse : Recurse} {env : Env} {s t : Analysis}

theorem run_analyzeLetfn_eq_ok {form : Form} {ps : List (Form × Form)} {m : FormMap}
    {exprs : List Form} {n : Node} :
    (analyzeLetfn recurse form (.vector (flatten ps) m :: exprs) env).run.run s = (.ok n, t) ↔
      ∃ pairs bound u body, Forall₂ Of ps pairs ∧ (pairs.map (·.name)).Nodup ∧
        (letfnBindings recurse (env.bindMany (pairs.map (·.letfn none))) pairs).run.run s =
          (.ok bound, u) ∧
        (analyzeBody recurse exprs (env.bindMany (bound.map (·.2)))).run.run u = (.ok body, t) ∧
        n = .of (.letfnBlock (bound.map fun (p, b) =>
          p.bindingNode b (env.bindMany (pairs.map (·.letfn none)))) body) form env := by
  unfold analyzeLetfn
  rw [run_bind_eq_ok]
  constructor
  · rintro ⟨⟨pairs, exprs⟩, v, hargs, hrest⟩
    obtain ⟨hpairs, rfl, rfl⟩ := run_ofArgs_eq_ok.mp hargs
    dsimp only at hrest
    split at hrest
    · cases hrest
    · rename_i hrepeated
      obtain ⟨bound, u, hbound, hrest⟩ := run_bind_eq_ok.mp hrest
      obtain ⟨body, w, hbody, ⟨⟩⟩ := run_bind_eq_ok.mp hrest
      exact ⟨pairs, bound, u, body, hpairs, (firstRepeated?_eq_none_iff.mp hrepeated).1, hbound,
        hbody, rfl⟩
  · rintro ⟨pairs, bound, u, body, hpairs, hnames, hbound, hbody, rfl⟩
    refine ⟨(pairs, exprs), s, run_ofArgs_eq_ok.mpr ⟨hpairs, rfl, rfl⟩, ?_⟩
    have hrepeated : firstRepeated? [] pairs = none :=
      firstRepeated?_eq_none_iff.mpr ⟨hnames, by simp⟩
    dsimp only
    rw [hrepeated]
    exact run_bind_eq_ok.mpr ⟨bound, u, hbound, run_bind_eq_ok.mpr ⟨body, t, hbody, rfl⟩⟩

theorem inits_of_letfnBindings {pairs : List BindingPair} {bound : List (BindingPair × Binding)}
    (hdraws : ∀ p ∈ pairs, ∀ e, (recurse p.init e).OnlyDraws)
    (h : (letfnBindings recurse env pairs).run.run s = (.ok bound, t)) :
    ∀ p ∈ pairs, ∃ names n u,
      (recurse p.init (env.withContext .expr)).run.run (s.withNames names) = (.ok n, u) := by
  induction pairs generalizing s bound with
  | nil => exact nofun
  | cons p pairs ih =>
    obtain ⟨hp, hpairs⟩ := List.forall_mem_cons.mp hdraws
    obtain ⟨n, u, hn, hrest⟩ := run_bind_eq_ok.mp h
    obtain ⟨rest, v, hrest, ⟨⟩⟩ := run_bind_eq_ok.mp hrest
    obtain ⟨names, hu⟩ := hp (env.withContext .expr) s
    rw [hn] at hu
    obtain rfl : u = s.withNames names := hu
    have hall := ih hpairs hrest
    exact List.forall_mem_cons.mpr ⟨⟨s.names, n, _, hn⟩, hall⟩

end Runs

section Order

variable {k : Nat} {ps : Fin k → Form × Form} {qs : Fin k → BindingPair}

theorem pairs_eq_map (hof : ∀ j, Of (ps j) (qs j)) {js : List (Fin k)} {pairs : List BindingPair} :
    Forall₂ Of (js.map ps) pairs ↔ pairs = js.map qs := by
  rw [List.forall₂_map_left_iff]
  constructor
  · intro h
    induction h with
    | nil => rfl
    | cons hp _ ih => rw [hp.unique (hof _), ih, List.map_cons]
  · rintro rfl
    rw [List.forall₂_map_right_iff]
    exact List.forall₂_same.mpr fun j _ => hof j

def letfnEnv (qs : Fin k → BindingPair) (env : Env) (init : Fin k → Option Node) : Env :=
  env.bindMany ((List.finRange k).map fun j => (qs j).letfn (init j))

theorem bindMany_eq_letfnEnv (hnames : Function.Injective fun j => (qs j).name)
    {js : List (Fin k)} (hjs : js.Perm (List.finRange k)) (env : Env) (init : Fin k → Option Node) :
    env.bindMany (js.map fun j => (qs j).letfn (init j)) = letfnEnv qs env init := by
  refine env.bindMany_perm (hjs.map _) fun b hb c hc hname => ?_
  obtain ⟨i, -, rfl⟩ := List.mem_map.mp hb
  obtain ⟨j, -, rfl⟩ := List.mem_map.mp hc
  rw [hnames (show (qs i).name = (qs j).name from hname)]

theorem mapIds_letfnEnv (f : Symbol → Symbol) (env : Env) (init : Fin k → Option Node) :
    (letfnEnv qs env init).mapIds f =
      letfnEnv qs (env.mapIds f) fun j => (init j).map (Node.mapIds f) := by
  have hbinding (j : Fin k) : ((qs j).letfn (init j)).mapIds f =
      (qs j).letfn ((init j).map (Node.mapIds f)) := by
    simp only [letfn, Binding.mapIds]
    cases init j <;> rfl
  rw [letfnEnv, Env.mapIds_bindMany, List.map_map]
  exact congrArg (Env.bindMany _) (List.map_congr_left fun j _ => hbinding j)

theorem bindings_of_run {recurse : Recurse} {env : Env} {s t : Analysis} {form : Form} {m : FormMap}
    {exprs : List Form} {n : Node} {js : List (Fin k)} (hjs : js.Perm (List.finRange k))
    (h : (analyzeLetfn recurse form (.vector (flatten (js.map ps)) m :: exprs) env).run.run s =
      (.ok n, t)) :
    ∃ (qs : Fin k → BindingPair) (bound : List (BindingPair × Binding)) (body : Node) (u : Analysis),
      (∀ j, Of (ps j) (qs j)) ∧ (Function.Injective fun j => (qs j).name) ∧
      (letfnBindings recurse (letfnEnv qs env fun _ => none) (js.map qs)).run.run s =
        (.ok bound, u) ∧
      (analyzeBody recurse exprs (env.bindMany (bound.map (·.2)))).run.run u = (.ok body, t) := by
  have hmem (j : Fin k) : j ∈ js := hjs.mem_iff.mpr (List.mem_finRange j)
  obtain ⟨pairs, bound, u, body, hpairs, hnodup, hbound, hbody, -⟩ := run_analyzeLetfn_eq_ok.mp h
  have hexists (j : Fin k) : ∃ q, Of (ps j) q := by
    obtain ⟨q, -, hq⟩ := exists_related hpairs (ps j) (List.mem_map_of_mem (hmem j))
    exact ⟨q, hq⟩
  choose qs hof using hexists
  obtain rfl := (pairs_eq_map hof).mp hpairs
  rw [List.map_map] at hnodup hbound
  have hnames : Function.Injective fun j => (qs j).name :=
    fun i j hij => List.inj_on_of_nodup_map hnodup (hmem i) (hmem j) hij
  have henv : env.bindMany (js.map ((·.letfn none) ∘ qs)) = letfnEnv qs env fun _ => none :=
    bindMany_eq_letfnEnv hnames hjs env fun _ => none
  rw [henv] at hbound
  exact ⟨qs, bound, body, u, hof, hnames, hbound, hbody⟩

variable {draws : Fin k → Nat}

def drawnInOrder (draws : Fin k → Nat) (js : List (Fin k)) : List ((j : Fin k) × Fin (draws j)) :=
  js.sigma fun j => List.finRange (draws j)

/-- The ids in the values are those that the supply gives out in the order of the bindings. -/
theorem run_letfnBindings {recurse : Recurse} {env : Env} {s : Analysis} (names : NameSupply)
    {inits : ∀ j, (Fin (draws j) → Symbol) → Node}
    (hinits : ∀ j names, (recurse (qs j).init (env.withContext .expr)).run.run (s.withNames names) =
      (.ok (inits j fun i => names.loopId i), s.withNames (names.after (draws j))))
    {number : (j : Fin k) × Fin (draws j) → Nat} {start : Nat} {js : List (Fin k)}
    (hnumber : (drawnInOrder draws js).map number =
      List.range' start (drawnInOrder draws js).length) :
    (letfnBindings recurse env (js.map qs)).run.run (s.withNames (names.after start)) =
      (.ok (js.map fun j =>
          (qs j, (qs j).letfn (some (inits j fun i => names.loopId (number ⟨j, i⟩))))),
        s.withNames (names.after (start + (drawnInOrder draws js).length))) := by
  -- on the bindings that are left, `start` being the number of the next id to be drawn
  induction js generalizing start with
  | nil => rfl
  | cons j js ih =>
    have hdrawn : drawnInOrder draws (j :: js) =
        (List.finRange (draws j)).map (Sigma.mk j) ++ drawnInOrder draws js := rfl
    have hlength : (drawnInOrder draws (j :: js)).length =
        draws j + (drawnInOrder draws js).length := by
      rw [hdrawn, List.length_append, List.length_map, List.length_finRange]
    rw [hlength, hdrawn, List.map_append, ← List.range'_append_1] at hnumber
    obtain ⟨hj, hjs⟩ := List.append_inj hnumber (by simp)
    have hfirst : (fun i : Fin (draws j) => (names.after start).loopId i) =
        fun i => names.loopId (number ⟨j, i⟩) := by
      funext i
      have hplace : number ⟨j, i⟩ = start + i := by simpa using congrArg (·[i.val]?) hj
      rw [hplace, NameSupply.loopId_after]
    have hinit := hinits j (names.after start)
    rw [hfirst, ← NameSupply.after_add] at hinit
    refine run_bind_eq_ok.mpr ⟨_, _, hinit, run_bind_eq_ok.mpr ⟨_, _, ih hjs, ?_⟩⟩
    rw [hlength, ← Nat.add_assoc]
    rfl

abbrev Drawn (draws : Fin k → Nat) (r : Nat) : Type := ((j : Fin k) × Fin (draws j)) ⊕ Fin r

theorem exists_numbering_drawn (draws : Fin k → Nat) (r : Nat) {js : List (Fin k)}
    (hjs : js.Perm (List.finRange k)) :
    ∃ e : Drawn draws r ≃ Fin (Fintype.card (Drawn draws r)),
      (drawnInOrder draws js).map (fun x => (e (.inl x) : Nat)) =
        List.range' 0 (drawnInOrder draws js).length ∧
      (∀ i : Fin r, (e (.inr i) : Nat) = (drawnInOrder draws js).length + i) ∧
      Fintype.card (Drawn draws r) = (drawnInOrder draws js).length + r := by
  have hnodup : (drawnInOrder draws js).Nodup :=
    (hjs.nodup_iff.mpr (List.nodup_finRange k)).sigma fun j => List.nodup_finRange _
  have hall (x : (j : Fin k) × Fin (draws j)) : x ∈ drawnInOrder draws js :=
    List.mem_sigma.mpr ⟨hjs.mem_iff.mpr (List.mem_finRange _), List.mem_finRange _⟩
  have hdisjoint : ((drawnInOrder draws js).map Sum.inl).Disjoint
      ((List.finRange r).map Sum.inr : List (Drawn draws r)) := by
    rintro _ hx hy
    obtain ⟨_, -, rfl⟩ := List.mem_map.mp hx
    obtain ⟨_, -, hy⟩ := List.mem_map.mp hy
    cases hy
  have horder := (hnodup.map Sum.inl_injective).append
    ((List.nodup_finRange r).map Sum.inr_injective) hdisjoint
  obtain ⟨e, he⟩ := exists_numbering horder fun x => by cases x <;> simp [hall]
  have hcard : Fintype.card (Drawn draws r) = (drawnInOrder draws js).length + r := by
    simpa using (congrArg List.length he).symm
  have hplaces := he.trans (congrArg List.range hcard)
  rw [List.range_eq_range', ← List.range'_append_1, List.map_append] at hplaces
  obtain ⟨hvalues, hbody⟩ := List.append_inj hplaces (by simp)
  rw [List.map_map] at hvalues
  exact ⟨e, hvalues, fun i => by simpa using congrArg (·[i.val]?) hbody, hcard⟩

section Families

variable {recurse : Recurse} {env : Env} {s t : Analysis} {r : Nat} {exprs : List Form}
  {inits : ∀ j, (Symbol → Symbol) → (Fin (draws j) → Symbol) → Node}
  {body : (Symbol → Symbol) → (Drawn draws r → Symbol) → Node}

def initEnv (qs : Fin k → BindingPair) (env : Env) (ρ : Symbol → Symbol) : Env :=
  letfnEnv qs (env.mapIds ρ) fun _ => none

def bodyEnv (qs : Fin k → BindingPair) (env : Env)
    (inits : ∀ j, (Symbol → Symbol) → (Fin (draws j) → Symbol) → Node) (ρ : Symbol → Symbol)
    (ids : (j : Fin k) × Fin (draws j) → Symbol) : Env :=
  letfnEnv qs (env.mapIds ρ) fun j => some (inits j ρ fun i => ids ⟨j, i⟩)

def letfnNode (qs : Fin k → BindingPair) (env : Env)
    (inits : ∀ j, (Symbol → Symbol) → (Fin (draws j) → Symbol) → Node) (j : Fin k)
    (ρ : Symbol → Symbol) (ids : (j : Fin k) × Fin (draws j) → Symbol) : Node :=
  (qs j).bindingNode ((qs j).letfn (some (inits j ρ fun i => ids ⟨j, i⟩))) (initEnv qs env ρ)

theorem mapIds_initEnv (f ρ : Symbol → Symbol) :
    (initEnv qs env ρ).mapIds f = initEnv qs env (f ∘ ρ) := by
  rw [initEnv, mapIds_letfnEnv, Env.mapIds_comp]
  rfl

theorem equivariant_bodyEnv (hinits : ∀ j, Equivariant Node.mapIds (inits j)) :
    Equivariant Env.mapIds (bodyEnv qs env inits) := by
  intro f ρ ids
  rw [bodyEnv, mapIds_letfnEnv, Env.mapIds_comp]
  exact congrArg (letfnEnv qs (env.mapIds (f ∘ ρ)))
    (funext fun j => congrArg some (hinits j f ρ _))

theorem equivariant_letfnNode (hinits : ∀ j, Equivariant Node.mapIds (inits j)) (j : Fin k) :
    Equivariant Node.mapIds (letfnNode qs env inits j) := by
  intro f ρ ids
  have hinit := hinits j f ρ fun i => ids ⟨j, i⟩
  rw [letfnNode, bindingNode, letfn, Node.of, Node.mapIds, Op.mapIds, Binding.mapIds,
    mapIdsOfNode?, hinit, mapIds_initEnv]
  rfl

variable (hnames : Function.Injective fun j => (qs j).name)
  (hinits : ∀ j ρ names,
    (recurse (qs j).init ((initEnv qs env ρ).withContext .expr)).run.run (s.withNames names) =
      (.ok (inits j ρ fun i => names.loopId i), s.withNames (names.after (draws j))))
  {js : List (Fin k)} (hjs : js.Perm (List.finRange k))
include hnames hinits hjs

theorem run_bindings (ρ : Symbol → Symbol) (names : NameSupply)
    {number : (j : Fin k) × Fin (draws j) → Nat}
    (hnumber : (drawnInOrder draws js).map number = List.range' 0 (drawnInOrder draws js).length) :
    ∃ bound, (letfnBindings recurse (initEnv qs env ρ) (js.map qs)).run.run (s.withNames names) =
        (.ok bound, s.withNames (names.after (drawnInOrder draws js).length)) ∧
      (env.mapIds ρ).bindMany (bound.map (·.2)) =
        bodyEnv qs env inits ρ (fun x => names.loopId (number x)) ∧
      (bound.map fun (p, b) => p.bindingNode b (initEnv qs env ρ)) =
        js.map fun j => letfnNode qs env inits j ρ fun x => names.loopId (number x) := by
  have hbound := run_letfnBindings names (fun j names => hinits j ρ names) hnumber
  rw [NameSupply.after_zero, Nat.zero_add] at hbound
  refine ⟨_, hbound, ?_, ?_⟩
  · rw [List.map_map]
    exact bindMany_eq_letfnEnv hnames hjs (env.mapIds ρ) _
  · rw [List.map_map]
    rfl

/-- In every order of the bindings the runs are the same but for the numbers of the drawn ids. -/
theorem run_analyzeLetfn (hof : ∀ j, Of (ps j) (qs j))
    (hbody : ∀ ρ ids names,
      (analyzeBody recurse exprs (bodyEnv qs env inits ρ ids)).run.run (s.withNames names) =
        (.ok (body ρ (Sum.elim ids fun i => names.loopId i)), t.withNames (names.after r))) :
    ∃ e : Drawn draws r ≃ Fin (Fintype.card (Drawn draws r)), ∀ form m ρ names,
      (analyzeLetfn recurse form (.vector (flatten (js.map ps)) m :: exprs)
          (env.mapIds ρ)).run.run (s.withNames names) =
        (.ok (.of (.letfnBlock (js.map fun j =>
            letfnNode qs env inits j ρ fun x => names.loopId (e (.inl x)))
          (body ρ fun x => names.loopId (e x))) form (env.mapIds ρ)),
          t.withNames (names.after (Fintype.card (Drawn draws r)))) := by
  obtain ⟨e, hvalues, hrest, hcard⟩ := exists_numbering_drawn draws r hjs
  refine ⟨e, fun form m ρ names => ?_⟩
  obtain ⟨bound, hbound, hbodyEnv, hnodes⟩ := run_bindings hnames hinits hjs ρ names hvalues
  have hrun := hbody ρ (fun x => names.loopId (e (.inl x)))
    (names.after (drawnInOrder draws js).length)
  have hids : (Sum.elim (fun x => names.loopId (e (.inl x))) fun i : Fin r =>
      (names.after (drawnInOrder draws js).length).loopId i) = fun x => names.loopId (e x) := by
    funext x
    cases x with
    | inl x => rfl
    | inr i => rw [Sum.elim_inr, hrest, NameSupply.loopId_after]
  rw [hids, ← NameSupply.after_add, ← hcard, ← hbodyEnv] at hrun
  have hinitEnv : (env.mapIds ρ).bindMany ((js.map qs).map (·.letfn none)) = initEnv qs env ρ := by
    rw [List.map_map]
    exact bindMany_eq_letfnEnv hnames hjs (env.mapIds ρ) fun _ => none
  rw [← hinitEnv] at hbound
  have hnodup : ((js.map qs).map (·.name)).Nodup := by
    rw [List.map_map]
    exact (hjs.nodup_iff.mpr (List.nodup_finRange k)).map hnames
  refine run_analyzeLetfn_eq_ok.mpr
    ⟨js.map qs, bound, _, _, (pairs_eq_map hof).mpr rfl, hnodup, hbound, hrun, ?_⟩
  rw [hinitEnv, hnodes]

end Families

theorem ignoresLoopIds_of_expand {a : Analyzer} (hexpand : ∀ f e, a.expand f e = .ok f) :
    a.IgnoresLoopIds :=
  fun form env ρ => (hexpand form (env.mapIds ρ)).trans (hexpand form env).symm

section Success

variable {a : Analyzer} (hexpand : ∀ f e, a.expand f e = .ok f) {levels : Nat} {env : Env}
  {s t : Analysis} {ρ : Symbol → Symbol} {names : NameSupply}
include hexpand

theorem family_of_init {form : Form} (hform : form.holdsDef = false) {n : Node}
    (h : (a.analyzeUpTo levels form ((initEnv qs env ρ).withContext .expr)).run.run
      (s.withNames names) = (.ok n, t)) :
    ∃ (m : Nat) (init : (Symbol → Symbol) → (Fin m → Symbol) → Node),
      Equivariant Node.mapIds init ∧ ∀ ρ names,
        (a.analyzeUpTo levels form ((initEnv qs env ρ).withContext .expr)).run.run
          (s.withNames names) =
            (.ok (init ρ fun i => names.loopId i), s.withNames (names.after m)) := by
  have henvs : Equivariant Env.mapIds fun ρ (_ : Empty → Symbol) =>
      (initEnv qs env ρ).withContext .expr := by
    intro f ρ ids
    rw [Env.mapIds_withContext, mapIds_initEnv]
  have hx := namesIds_analyzeUpTo (ignoresLoopIds_of_expand hexpand) levels form
  obtain ⟨m, nodes, u, hnodes, hrun⟩ := family_of_run hx henvs Empty.elim h
  obtain ⟨names', hdraws⟩ := onlyDraws_analyzeUpTo hexpand levels hform
    ((initEnv qs env ρ).withContext .expr) (s.withNames names)
  rw [hrun ρ Empty.elim names] at hdraws
  have hu (names : NameSupply) : u.withNames names = s.withNames names :=
    congrArg (·.withNames names) hdraws
  have hids (names : NameSupply) : (Sum.elim Empty.elim fun i : Fin m => names.loopId i) =
      (fun i : Fin m => names.loopId i) ∘ Sum.elim Empty.elim id := by
    rw [Sum.comp_elim]
    exact congrArg (Sum.elim · _) (funext nofun)
  refine ⟨m, fun ρ ids => nodes ρ (ids ∘ Sum.elim Empty.elim id), hnodes.reindex _,
    fun ρ names => ?_⟩
  rw [hrun ρ Empty.elim names, hids, hu]

theorem families_of_run (hdefs : ∀ j, (ps j).2.holdsDef = false) {js : List (Fin k)}
    (hjs : js.Perm (List.finRange k)) {form : Form} {m : FormMap} {exprs : List Form} {n : Node}
    (h : (analyzeLetfn (a.analyzeUpTo levels) form (.vector (flatten (js.map ps)) m :: exprs)
      (env.mapIds ρ)).run.run (s.withNames names) = (.ok n, t)) :
    ∃ (ι : Type) (_ : Fintype ι) (bs : Fin k → (Symbol → Symbol) → (ι → Symbol) → Node)
      (body : (Symbol → Symbol) → (ι → Symbol) → Node) (u : Analysis),
      (∀ j, Equivariant Node.mapIds (bs j)) ∧ Equivariant Node.mapIds body ∧
      ∀ js : List (Fin k), js.Perm (List.finRange k) → ∃ e : ι ≃ Fin (Fintype.card ι),
        ∀ form m ρ names, (analyzeLetfn (a.analyzeUpTo levels) form
            (.vector (flatten (js.map ps)) m :: exprs) (env.mapIds ρ)).run.run (s.withNames names) =
          (.ok (.of (.letfnBlock (js.map fun j => bs j ρ fun x => names.loopId (e x))
            (body ρ fun x => names.loopId (e x))) form (env.mapIds ρ)),
            u.withNames (names.after (Fintype.card ι))) := by
  have hmem (j : Fin k) : j ∈ js := hjs.mem_iff.mpr (List.mem_finRange j)
  obtain ⟨qs, bound, b, u, hof, hnames, hbound, hbody⟩ := bindings_of_run hjs h
  have hdef (j : Fin k) : (qs j).init.holdsDef = false := by
    obtain ⟨name, m', -, -, hq⟩ := hof j
    rw [hq]
    exact hdefs j
  have hdraws (p : BindingPair) (hp : p ∈ js.map qs) (e : Env) :
      (a.analyzeUpTo levels p.init e).OnlyDraws := by
    obtain ⟨j, -, rfl⟩ := List.mem_map.mp hp
    exact onlyDraws_analyzeUpTo hexpand levels (hdef j) e
  have hall := inits_of_letfnBindings hdraws hbound
  choose names' n' t' hinit using fun j => hall (qs j) (List.mem_map_of_mem (hmem j))
  choose draws inits hequivariant hinits using fun j => family_of_init hexpand (hdef j) (hinit j)
  -- now that the values are known, so is the environment in which the body was analyzed
  obtain ⟨e, hvalues, -⟩ := exists_numbering_drawn draws 0 hjs
  obtain ⟨bound', hbound', hbodyEnv, -⟩ := run_bindings hnames hinits hjs ρ names hvalues
  obtain ⟨hbounds, rfl⟩ := Prod.mk.inj (hbound.symm.trans hbound')
  cases hbounds
  rw [hbodyEnv] at hbody
  obtain ⟨r, body, v, hequivariant', hbodies⟩ :=
    family_of_run (namesIds_analyzeBody (ignoresLoopIds_of_expand hexpand) levels exprs)
      (equivariant_bodyEnv hequivariant) _ hbody
  exact ⟨Drawn draws r, inferInstance, fun j ρ ids => letfnNode qs env inits j ρ (ids ∘ .inl),
    body, v, fun j => (equivariant_letfnNode hequivariant j).reindex Sum.inl, hequivariant',
    fun js hjs => run_analyzeLetfn hnames hinits hjs hof hbodies⟩

end Success

end Order

theorem run_analyzeUpTo_letfn_eq_ok {a : Analyzer} (hexpand : ∀ f e, a.expand f e = .ok f)
    {levels : Nat} {form : Form} {args : List Form} (hform : form.Calls "letfn*" args) {env : Env}
    {s t : Analysis} {n : Node} : (a.analyzeUpTo (levels + 1) form env).run.run s = (.ok n, t) ↔
      (analyzeLetfn (a.analyzeUpTo levels) form args env).run.run s = (.ok n, t) := by
  obtain ⟨m, hrun⟩ :=
    run_analyzeUpTo_of_calls (k := .letfn) hform (hexpand form env) form.beq_refl s
  rw [hrun, run_within_eq_ok]
  rfl

section Runs

variable {a : Analyzer} (hexpand : ∀ f e, a.expand f e = .ok f) {form : Form} {env : Env} {n : Node}
include hexpand

theorem exists_levels_of_letfn {args : List Form} (hform : form.Calls "letfn*" args) {s t : Store}
    (h : (a.analyzeIn form env).run.run s = (.ok n, t)) : ∃ levels, a.maxDepth = levels + 1 ∧
      (analyzeLetfn (a.analyzeUpTo levels) form args env).run.run (.start s) =
        (.ok n, .start t) := by
  rw [Analyzer.run_analyzeIn_iff] at h
  cases hlevels : a.maxDepth with
  | zero =>
    rw [hlevels] at h
    cases h
  | succ levels =>
    rw [hlevels] at h
    exact ⟨levels, rfl, (run_analyzeUpTo_letfn_eq_ok hexpand hform).mp h⟩

theorem run_analyzeIn_letfn {levels : Nat} (hlevels : a.maxDepth = levels + 1) {args : List Form}
    (hform : form.Calls "letfn*" args) {s : Store} {t : Analysis}
    (h : (analyzeLetfn (a.analyzeUpTo levels) form args env).run.run (.start s) = (.ok n, t)) :
    (a.analyzeIn form env).run.run s = (.ok n, t.toStore) := by
  refine Analyzer.run_analyzeIn_of_levels ?_
  rw [hlevels]
  exact (run_analyzeUpTo_letfn_eq_ok hexpand hform).mpr h

theorem succeeds_of_perm {k : Nat} {ps : Fin k → Form × Form}
    (hdefs : ∀ j, (ps j).2.holdsDef = false) {js js' : List (Fin k)}
    (hjs : js.Perm (List.finRange k)) (hjs' : js'.Perm (List.finRange k)) {form' : Form}
    {m m' : FormMap} {exprs : List Form}
    (hform : form.Calls "letfn*" (.vector (flatten (js.map ps)) m :: exprs))
    (hform' : form'.Calls "letfn*" (.vector (flatten (js'.map ps)) m' :: exprs)) {s t : Store}
    (h : (a.analyzeIn form env).run.run s = (.ok n, t)) :
    ∃ n t, (a.analyzeIn form' env).run.run s = (.ok n, t) := by
  obtain ⟨levels, hlevels, hrun⟩ := exists_levels_of_letfn hexpand hform h
  rw [← env.mapIds_id] at hrun
  obtain ⟨ι, _, bs, body, u, -, -, hall⟩ := families_of_run (s := .start s) hexpand hdefs hjs hrun
  obtain ⟨e, he⟩ := hall js' hjs'
  have hrun' := he form' m' id s.names
  rw [env.mapIds_id] at hrun'
  exact ⟨_, _, run_analyzeIn_letfn hexpand hlevels hform' hrun'⟩

end Runs

def putIds (origin : Symbol → Symbol ⊕ ι) (ρ : Symbol → Symbol) (ids : ι → Symbol) (id : Symbol) :
    Symbol :=
  (origin id).elim ρ ids

/-- The bindings of a `letfn*` can be in any order if nothing is defined in their values. Whatever
the ids in the environment are and wherever the supply starts, their nodes are then in that order
and otherwise, like the body, the same trees, in which the drawn ids are numbered in another way. -/
theorem letfn_order {a : Analyzer} (hexpand : ∀ f e, a.expand f e = .ok f) {k : Nat}
    {ps : Fin k → Form × Form} (hdefs : ∀ j, (ps j).2.holdsDef = false) (σ : Equiv.Perm (Fin k))
    {form form' : Form} {m m' : FormMap} {exprs : List Form}
    (hform : form.Calls "letfn*" (.vector (flatten (List.ofFn ps)) m :: exprs))
    (hform' : form'.Calls "letfn*" (.vector (flatten (List.ofFn (ps ∘ σ))) m' :: exprs))
    (env : Env) (d : Directory) :
    (∀ names, (∃ n t, (a.analyzeIn form env).run.run ⟨d, names⟩ = (.ok n, t)) ↔
      ∃ n t, (a.analyzeIn form' env).run.run ⟨d, names⟩ = (.ok n, t)) ∧
    ∀ names n t, (a.analyzeIn form env).run.run ⟨d, names⟩ = (.ok n, t) →
      ∃ (r : Nat) (π : Equiv.Perm (Fin r)) (origin : Symbol → Symbol ⊕ Fin r) (bs : Fin k → Node)
        (body : Node) (d' : Directory), ∀ ρ names,
        (a.analyzeIn form (env.mapIds ρ)).run.run ⟨d, names⟩ =
          (.ok (.of (.letfnBlock
            (List.ofFn fun j => (bs j).mapIds (putIds origin ρ fun i => names.loopId i))
            (body.mapIds (putIds origin ρ fun i => names.loopId i))) form (env.mapIds ρ)),
            ⟨d', names.after r⟩) ∧
        (a.analyzeIn form' (env.mapIds ρ)).run.run ⟨d, names⟩ =
          (.ok (.of (.letfnBlock
            (List.ofFn fun j => (bs (σ j)).mapIds (putIds origin ρ fun i => names.loopId (π i)))
            (body.mapIds (putIds origin ρ fun i => names.loopId (π i)))) form' (env.mapIds ρ)),
            ⟨d', names.after r⟩) := by
  have hjs : (List.finRange k).Perm (List.finRange k) := .refl _
  have hjs' : ((List.finRange k).map σ).Perm (List.finRange k) := σ.map_finRange_perm
  have hof : List.ofFn ps = (List.finRange k).map ps := List.ofFn_eq_map
  have hof' : List.ofFn (ps ∘ σ) = ((List.finRange k).map σ).map ps := by
    rw [List.ofFn_eq_map, List.map_map]
  rw [hof] at hform
  rw [hof'] at hform'
  refine ⟨fun names => ⟨?_, ?_⟩, fun names n t h => ?_⟩
  · rintro ⟨n, t, h⟩
    exact succeeds_of_perm hexpand hdefs hjs hjs' hform hform' h
  · rintro ⟨n, t, h⟩
    exact succeeds_of_perm hexpand hdefs hjs' hjs hform' hform h
  · obtain ⟨levels, hlevels, hrun⟩ := exists_levels_of_letfn hexpand hform h
    rw [← env.mapIds_id] at hrun
    obtain ⟨ι, _, bs, body, u, hbs, hbody, hall⟩ :=
      families_of_run (s := .start ⟨d, names⟩) hexpand hdefs hjs hrun
    obtain ⟨e, he⟩ := hall _ hjs
    obtain ⟨e', he'⟩ := hall _ hjs'
    obtain ⟨code, origin, horigin⟩ := exists_origin (Fin (Fintype.card ι))
    have hnode {x : (Symbol → Symbol) → (ι → Symbol) → Node} (hx : Equivariant Node.mapIds x)
        (ρ : Symbol → Symbol) (ids : Fin (Fintype.card ι) → Symbol) :
        (x (code ∘ .inl) ((code ∘ .inr) ∘ e)).mapIds (putIds origin ρ ids) = x ρ (ids ∘ e) :=
      ((hx.reindex e).eq_template horigin ρ ids).symm
    refine ⟨Fintype.card ι, e.symm.trans e', origin,
      fun j => bs j (code ∘ .inl) ((code ∘ .inr) ∘ e), body (code ∘ .inl) ((code ∘ .inr) ∘ e),
      u.directory, fun ρ names => ⟨?_, ?_⟩⟩
    · simp only [hnode (hbs _), hnode hbody, List.ofFn_eq_map]
      exact run_analyzeIn_letfn hexpand hlevels hform (he form m ρ names)
    · have hids : (fun i => names.loopId (e.symm.trans e' i)) ∘ e =
          fun x => names.loopId (e' x) := by
        funext x
        simp
      have hrun' := run_analyzeIn_letfn (s := ⟨d, names⟩) hexpand hlevels hform'
        (he' form' m' ρ names)
      rw [List.map_map] at hrun'
      simp only [hnode (hbs _), hnode hbody, hids, List.ofFn_eq_map]
      exact hrun'

def mutualLoops : Fin 2 → Form × Form
  | 0 => (.sym "f", .call "loop*" [.vector [] [], .sym "g"])
  | 1 => (.sym "g", .call "loop*" [.vector [.sym "x", .nil] [], .call "recur" [.sym "f"]])

theorem letfn_order_of_mutual :
    (∀ j, (mutualLoops j).2.holdsDef = false) ∧
    ∃ (r : Nat) (π : Equiv.Perm (Fin r)) (origin : Symbol → Symbol ⊕ Fin r) (bs : Fin 2 → Node)
      (body : Node) (d' : Directory), ∀ ρ names,
      (Analyzer.plain.analyzeIn (callOf "letfn*" (List.ofFn mutualLoops) [.sym "f"])
          ((Env.empty (.plain "user")).mapIds ρ)).run.run ⟨.empty, names⟩ =
        (.ok (.of (.letfnBlock
          (List.ofFn fun j => (bs j).mapIds (putIds origin ρ fun i => names.loopId i))
          (body.mapIds (putIds origin ρ fun i => names.loopId i)))
          (callOf "letfn*" (List.ofFn mutualLoops) [.sym "f"])
          ((Env.empty (.plain "user")).mapIds ρ)), ⟨d', names.after r⟩) ∧
      (Analyzer.plain.analyzeIn
          (callOf "letfn*" (List.ofFn (mutualLoops ∘ Equiv.swap 0 1)) [.sym "f"])
          ((Env.empty (.plain "user")).mapIds ρ)).run.run ⟨.empty, names⟩ =
        (.ok (.of (.letfnBlock
          (List.ofFn fun j => (bs (Equiv.swap 0 1 j)).mapIds
            (putIds origin ρ fun i => names.loopId (π i)))
          (body.mapIds (putIds origin ρ fun i => names.loopId (π i))))
          (callOf "letfn*" (List.ofFn (mutualLoops ∘ Equiv.swap 0 1)) [.sym "f"])
          ((Env.empty (.plain "user")).mapIds ρ)), ⟨d', names.after r⟩) := by
  have hdefs : ∀ j, (mutualLoops j).2.holdsDef = false := Fin.forall_fin_two.mpr ⟨rfl, rfl⟩
  obtain ⟨-, hsame⟩ := letfn_order (a := .plain) (fun _ _ => rfl) hdefs (Equiv.swap 0 1)
    (calls_callOf "letfn*" (List.ofFn mutualLoops) [.sym "f"])
    (calls_callOf "letfn*" (List.ofFn (mutualLoops ∘ Equiv.swap 0 1)) [.sym "f"])
    (.empty (.plain "user")) .empty
  exact ⟨hdefs, hsame .start _ _ rfl⟩

end LispFront
