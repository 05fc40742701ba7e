import LispFront.Analysis.Binder
import LispFront.Analysis.Function
import LispFront.Proofs.Analysis.Binders
import LispFront.Proofs.Analysis.Effect.Constructs

/-!
# What binding constructs write

A binding stands in the tree with the initial value that it binds a name to, so that what the value
wrote is below the binding. Names and parameters themselves write nothing; loops and methods draw an
id before anything below them is analyzed.
-/

namespace LispFront

open AnalyzerM

theorem Tallies.bindingPair {ns : Symbol} {es : List Effect} {e : Env} {b : Binding} {init : Node}
    (hb : b.init = some init) (hi : Tallies ns ρ H es [init]) (p : BindingPair) (he : e.Kept ns ρ H) :
    Tallies ns ρ H es [p.bindingNode b e] := by
  refine node ?_ rfl he
  have hbelow : (p.bindingNode b e).childNodes = [init] := by
    change (Slot.init.opt b.init).flatMap _ = _
    rw [hb]
    rfl
  rwa [hbelow]

variable {ns : Symbol} {ρ : Symbol → Symbol} {H : Prop}

theorem Tallies.fixed_binding {es : List Effect} {b : Binding} {init : Node}
    (hb : b.init = some init) (hi : Tallies ns ρ H es [init]) (h : H ∧ Fixes ρ es) :
    b.mapIds ρ = b := by
  refine Binding.mapIds_eq_self ?_
  rw [hb, mapIdsOfNode?, hi.fixed h.1 h.2 init List.mem_cons_self]

theorem BindingPair.fixed_of_node {p : BindingPair} {b : Binding} {e : Env}
    (h : (p.bindingNode b e).mapIds ρ = p.bindingNode b e) : b.mapIds ρ = b := by
  have hop : (Op.binding b).mapIds ρ = .binding b := (Node.mapIds_eq_self_iff.mp h).1
  rw [Op.mapIds] at hop
  exact Op.binding.inj hop

theorem writes_ofForms (forms : List Form) :
    Writes ns (BindingPair.ofForms forms) fun es _ => es = [] := by
  unfold BindingPair.ofForms
  split
  · rename_i written init rest
    split
    · split
      · refine writes_bind (writes_ofForms rest) ?_
        rintro _ pairs rfl
        exact writes_pure rfl
      · exact writes_fail _ _
    · exact writes_fail _ _
  · exact writes_pure rfl

theorem writes_ofArgs (op : String) (form : Form) (args : List Form) :
    Writes ns (BindingPair.ofArgs op form args) fun es _ => es = [] := by
  unfold BindingPair.ofArgs
  split
  · exact writes_fail _ _
  · split
    · refine writes_bind (writes_ofForms _) ?_
      rintro _ pairs rfl
      exact writes_pure rfl
    · exact writes_fail _ _
  · exact writes_fail _ _

theorem writes_functionName (form : Form) (args : List Form) :
    Writes ns (functionName form args) fun es r => es = [] ∧ ∀ self ∈ r.1, self.2.init = none := by
  unfold functionName
  split
  · split
    · exact writes_pure ⟨rfl, by simp⟩
    · exact writes_fail _ _
  · exact writes_pure ⟨rfl, by simp⟩

theorem tallies_params {e : Env} (he : e.Kept ns ρ H) {bs : List Binding}
    (hinit : ∀ b ∈ bs, b.init = none) (ps : List Form) :
    Tallies ns ρ H [] ((ps.zip bs).map fun r => .of (.binding r.2) r.1 e) := by
  induction ps generalizing bs with
  | nil => exact .nil
  | cons p ps ih =>
    cases bs with
    | nil => exact .nil
    | cons b bs =>
      obtain ⟨hb, hbs⟩ := List.forall_mem_cons.mp hinit
      exact (Tallies.binding he hb p).cons (ih hbs)

section Binders

variable {recurse : Recurse} (hr : recurse.Tallied ns ρ)
include hr

theorem writes_bindInTurn (kind : LocalKind) (pairs : List BindingPair) {e : Env}
    (he : e.Kept ns ρ H) :
    Writes ns (bindInTurn recurse kind pairs e) fun es r =>
      Tallies ns ρ H es r.1 ∧ r.2.Kept ns ρ (H ∧ Fixes ρ es) := by
  induction pairs generalizing e H with
  | nil => exact writes_pure ⟨.nil, he.mono And.left⟩
  | cons p ps ih =>
    unfold bindInTurn
    refine writes_bind (hr _ _ he) fun es init hi => ?_
    have hbound := (he.mono And.left).bind (b := { name := p.name, kind, init })
      (hi.fixed_binding rfl)
    refine writes_bind (ih hbound) fun fs r hs => ?_
    obtain ⟨nodes, inner⟩ := r
    refine writes_pure ?_
    rw [List.append_nil]
    refine ⟨(Tallies.bindingPair rfl hi p he).append_after hs.1, hs.2.mono ?_⟩
    rw [fixes_append]
    exact and_assoc.mpr

theorem writes_analyzeLet (form : Form) (args : List Form) {e : Env} (he : e.Kept ns ρ H) :
    Writes ns (analyzeLet recurse form args e) fun es n => Tallies ns ρ H es [n] := by
  unfold analyzeLet
  refine writes_bind (writes_ofArgs _ _ _) ?_
  rintro _ ⟨pairs, exprs⟩ rfl
  refine writes_bind (writes_bindInTurn hr _ _ he) fun es r hs => ?_
  obtain ⟨bindings, inner⟩ := r
  refine writes_bind (writes_analyzeBody hr _ hs.2) fun fs body hb => ?_
  exact writes_pure (.node (hs.1.append_after (hb.cons .nil)) rfl he)

theorem writes_analyzeLoop (form : Form) (args : List Form) {e : Env} (he : e.Kept ns ρ H) :
    Writes ns (analyzeLoop recurse form args e) fun es n => Tallies ns ρ H es [n] := by
  unfold analyzeLoop
  refine writes_bind writes_drawLoopId ?_
  rintro _ id rfl
  refine writes_bind (writes_ofArgs _ _ _) ?_
  rintro _ ⟨pairs, exprs⟩ rfl
  have hloop : (e.withLoopId id).Kept ns ρ (H ∧ Fixes ρ [.draw id]) :=
    (he.mono And.left).withLoopId fun h => h.2.drawn
  refine writes_bind (writes_bindInTurn hr _ _ hloop) fun es r hs => ?_
  obtain ⟨bindings, inner⟩ := r
  have hinner : (inner.withLoopId id).Kept ns ρ ((H ∧ Fixes ρ [.draw id]) ∧ Fixes ρ es) :=
    hs.2.withLoopId fun h => h.1.2.drawn
  refine writes_bind (writes_analyzeBody hr _ hinner) fun fs body hb => ?_
  have hbelow := hs.1.append_after (hb.cons .nil)
  exact writes_pure (.effect hbelow rfl hloop fun _ h => h.drawn)

theorem writes_letfnBindings (pairs : List BindingPair) {e : Env} (he : e.Kept ns ρ H) :
    Writes ns (letfnBindings recurse e pairs) fun es bound =>
      Tallies ns ρ H es (bound.map fun r => r.1.bindingNode r.2 e) := by
  induction pairs with
  | nil => exact writes_pure .nil
  | cons p ps ih =>
    unfold letfnBindings
    refine writes_bind (hr _ _ he) fun es init hi => ?_
    refine writes_bind ih fun fs bound hs => ?_
    refine writes_pure ?_
    rw [List.append_nil]
    exact (Tallies.bindingPair rfl hi p he).cons hs

theorem writes_analyzeLetfn (form : Form) (args : List Form) {e : Env} (he : e.Kept ns ρ H) :
    Writes ns (analyzeLetfn recurse form args e) fun es n => Tallies ns ρ H es [n] := by
  unfold analyzeLetfn
  refine writes_bind (writes_ofArgs _ _ _) ?_
  rintro _ ⟨pairs, exprs⟩ rfl
  dsimp only
  split
  · exact writes_fail _ _
  · have hinit : (e.bindMany (pairs.map fun p => { name := p.name, kind := .letfn })).Kept ns ρ H :=
      he.bindMany fun _ => List.forall_mem_map.mpr fun _ _ => rfl
    refine writes_bind (writes_letfnBindings hr _ hinit) fun es bound hs => ?_
    have hbody : (e.bindMany (bound.map (·.2))).Kept ns ρ (H ∧ Fixes ρ es) := by
      refine (he.mono And.left).bindMany fun h => List.forall_mem_map.mpr fun r hmem => ?_
      exact BindingPair.fixed_of_node (hs.fixed h.1 h.2 _ (List.mem_map_of_mem hmem))
    refine writes_bind (writes_analyzeBody hr _ hbody) fun fs body hb => ?_
    exact writes_pure (.node (hs.append_after (hb.cons .nil)) rfl he)

theorem writes_analyzeRecur (form : Form) (args : List Form) {e : Env} (he : e.Kept ns ρ H) :
    Writes ns (analyzeRecur recurse form args e) fun es n => Tallies ns ρ H es [n] := by
  unfold analyzeRecur
  split
  · rename_i id arity _ hid _
    split
    · exact writes_fail _ _
    · split
      · refine writes_bind (writes_analyzeAll hr _ he) fun es exprs hs => writes_pure ?_
        refine .of_below [] rfl ((hs.append .nil).mono And.left) (he.mono And.left) fun hH _ => ?_
        have hmap := (he.2 hH).2.1
        rw [hid] at hmap
        exact Option.some.inj hmap
      · exact writes_fail _ _
  · exact writes_fail _ _

theorem writes_analyzeMethod (form : Form) {e : Env} (he : e.Kept ns ρ H) :
    Writes ns (analyzeMethod recurse e form) fun es n => Tallies ns ρ H es [n] := by
  unfold analyzeMethod
  split
  · refine writes_bind (writes_check _ _) ?_
    rintro _ params ⟨rfl, -⟩
    refine writes_bind (writes_check _ _) ?_
    rintro _ bindings ⟨rfl, hb⟩
    refine writes_bind writes_drawLoopId ?_
    rintro _ id rfl
    have hnone := Params.bindings_init hb
    have houter : e.withoutSelf.Kept ns ρ (H ∧ Fixes ρ [.draw id]) := he.withoutSelf.mono And.left
    have hinner := houter.bindMany fun _ b hmem => Binding.mapIds_of_init (hnone b hmem)
    have hbody := hinner.withLoopId fun h => h.2.drawn
    refine writes_bind (writes_analyzeBody hr _ hbody) fun es body hbody => ?_
    have hparams := tallies_params houter hnone params.all
    refine writes_pure (.effect (hparams.append (hbody.cons .nil)) rfl houter fun hH h => ?_)
    exact ⟨h.drawn, (he.2 hH).2.2⟩
  · exact writes_fail _ _
  · exact writes_fail _ _
  · exact writes_fail _ _

theorem writes_analyzeFn (form head : Form) (args : List Form) {e : Env} (he : e.Kept ns ρ H) :
    Writes ns (analyzeFn recurse form head args e) fun es n => Tallies ns ρ H es [n] := by
  unfold analyzeFn
  refine writes_bind (writes_functionName _ _) ?_
  rintro _ ⟨self, rest⟩ ⟨rfl, hself⟩
  dsimp only
  refine writes_bind (writes_mapM (H := H) _ fun f => writes_analyzeMethod hr f ?_)
    fun es methods hs => ?_
  · cases self with
    | none => exact he
    | some self =>
      have hb : H → self.2.mapIds ρ = self.2 := fun _ => Binding.mapIds_of_init (hself _ rfl)
      exact (he.bind hb).withSelf hb
  refine writes_bind (writes_check _ _) ?_
  rintro _ ⟨variadic, maxFixed⟩ ⟨rfl, -⟩
  refine writes_wrapMetadata hr (.node ?_ rfl he) he
  have hmethods : Tallies ns ρ H es (methods ++ []) := by rwa [List.append_nil]
  cases self with
  | none => exact hmethods
  | some self => exact (Tallies.binding he (hself _ rfl) _).cons hmethods

end Binders

end LispFront
