import LispFront.Analysis.Binder
import LispFront.Analysis.Function
import LispFront.Proofs.Analysis.Constructs

/-!
# The provenance of binding constructs

Initial values are analyzed one after the other, each with the bindings before it in scope, or in
`letfn*` with all of them. A `recur` stands beside the loops and methods that it goes back to.
-/

namespace LispFront

open AnalyzerM

theorem binders_bindingNodes (bound : List (BindingPair × Binding)) (e : Env) :
    binders (bound.map fun r => r.1.bindingNode r.2 e) = bound.map (·.2) := by
  simp [binders, List.filterMap_map, Function.comp_def, BindingPair.bindingNode, Node.binder?,
    Node.of]

namespace Params

variable {variadic : Bool} {i : Nat} {p : Form} {ps : List Form} {bs : List Binding}

theorem bindings_cons (h : bindings variadic i (p :: ps) = .ok bs) :
    ∃ b rest, bindings variadic (i + 1) ps = .ok rest ∧ bs = b :: rest ∧ b.init = none := by
  unfold bindings at h
  split at h
  · split at h
    · cases hrest : bindings variadic (i + 1) ps with
      | error fault =>
        rw [hrest] at h
        cases h
      | ok rest =>
        rw [hrest] at h
        cases h
        exact ⟨_, _, rfl, rfl, rfl⟩
    · cases h
  · cases h

theorem bindings_length (h : bindings variadic i ps = .ok bs) : bs.length = ps.length := by
  induction ps generalizing i bs with
  | nil =>
    cases h
    rfl
  | cons p ps ih =>
    obtain ⟨b, rest, hrest, rfl, -⟩ := bindings_cons h
    exact congrArg (· + 1) (ih hrest)

theorem bindings_init (h : bindings variadic i ps = .ok bs) : ∀ b ∈ bs, b.init = none := by
  induction ps generalizing i bs with
  | nil =>
    cases h
    simp
  | cons p ps ih =>
    obtain ⟨b, rest, hrest, rfl, hb⟩ := bindings_cons h
    exact List.forall_mem_cons.mpr ⟨hb, ih hrest⟩

end Params

theorem binders_zip {ps : List Form} {bs : List Binding} (h : bs.length = ps.length) (e : Env) :
    binders ((ps.zip bs).map fun r => .of (.binding r.2) r.1 e) = bs := by
  have hsnd : (ps.zip bs).map Prod.snd = bs := List.map_snd_zip (Nat.le_of_eq h)
  simpa [binders, List.filterMap_map, Function.comp_def, Node.binder?, Node.of] using hsnd

theorem yields_functionName (form : Form) (args : List Form) :
    Yields (functionName form args) fun r => ∀ self ∈ r.1, self.2.init = none := by
  unfold functionName
  split
  · split
    · exact yields_pure (by simp)
    · exact yields_fail _ _
  · exact yields_pure (by simp)

section Binders

variable {recurse : Recurse} (hr : recurse.Sound)
include hr

theorem yields_bindInTurn (kind : LocalKind) (pairs : List BindingPair) (e : Env) :
    Yields (bindInTurn recurse kind pairs e) fun r =>
      r.2 = e.bindMany (binders r.1) ∧
        Analyzed.InSlot (fun i => (e.bindMany (binders (r.1.take i))).withContext .expr)
          (.many r.1) := by
  induction pairs generalizing e with
  | nil => exact yields_pure ⟨rfl, by simp [Analyzed.InSlot]⟩
  | cons p ps ih =>
    unfold bindInTurn
    refine yields_bind (hr _ _) fun init hi => ?_
    refine yields_bind (ih _) fun r hs => ?_
    obtain ⟨nodes, inner⟩ := r
    refine yields_pure ⟨hs.1, fun i m hm => ?_⟩
    cases i with
    | zero =>
      cases hm
      exact Analyzed.binding (e := e) (by simpa using hi)
    | succ i => exact hs.2 i m hm

theorem yields_analyzeLet (form : Form) (args : List Form) (e : Env) :
    Yields (analyzeLet recurse form args e) (Analyzed e) := by
  unfold analyzeLet
  refine yields_bind yields_true fun r _ => ?_
  obtain ⟨pairs, exprs⟩ := r
  refine yields_bind (yields_bindInTurn hr _ _ _) fun r hs => ?_
  obtain ⟨bindings, inner⟩ := r
  obtain rfl : inner = e.bindMany (binders bindings) := hs.1
  refine yields_bind (yields_analyzeBody hr _ _) fun body hb => ?_
  exact yields_pure (.of_slots trivial ⟨hs.2, hb, trivial⟩)

theorem yields_analyzeLoop (form : Form) (args : List Form) (e : Env) :
    Yields (analyzeLoop recurse form args e) (Analyzed e) := by
  unfold analyzeLoop
  refine yields_bind yields_true fun id _ => ?_
  refine yields_bind yields_true fun r _ => ?_
  obtain ⟨pairs, exprs⟩ := r
  refine yields_bind (yields_bindInTurn hr _ _ _) fun r hs => ?_
  obtain ⟨bindings, inner⟩ := r
  obtain rfl : inner = (e.withLoopId id).bindMany (binders bindings) := hs.1
  refine yields_bind (yields_analyzeBody hr _ _) fun body hb => ?_
  exact yields_pure (.of_slots trivial ⟨hs.2, hb, trivial⟩)

theorem yields_letfnBindings (e : Env) (pairs : List BindingPair) :
    Yields (letfnBindings recurse e pairs) fun bound =>
      (bound.map fun r => r.2.withoutInit) = pairs.map (fun p => { name := p.name, kind := .letfn }) ∧
        ∀ r ∈ bound, Analyzed (e.withContext .expr) (r.1.bindingNode r.2 e) := by
  induction pairs with
  | nil => exact yields_pure ⟨rfl, by simp⟩
  | cons p ps ih =>
    unfold letfnBindings
    refine yields_bind (hr _ _) fun init hi => ?_
    refine yields_bind ih fun bound hs => ?_
    refine yields_pure ⟨congrArg _ hs.1, List.forall_mem_cons.mpr ⟨?_, hs.2⟩⟩
    exact .binding (by simpa using hi)

theorem yields_analyzeLetfn (form : Form) (args : List Form) (e : Env) :
    Yields (analyzeLetfn recurse form args e) (Analyzed e) := by
  unfold analyzeLetfn
  refine yields_bind yields_true fun r _ => ?_
  obtain ⟨pairs, exprs⟩ := r
  dsimp only
  split
  · exact yields_fail _ _
  · refine yields_bind (yields_letfnBindings hr _ _) fun bound hs => ?_
    refine yields_bind (yields_analyzeBody hr _ _) fun body hb => ?_
    have hbinders := binders_bindingNodes bound
      (e.bindMany (pairs.map fun p => { name := p.name, kind := .letfn }))
    refine yields_pure (.of_slots trivial ⟨.many fun n hn => ?_, ?_, trivial⟩)
    · obtain ⟨r, hr, rfl⟩ := List.mem_map.mp hn
      change Analyzed ((e.bindMany ((binders _).map .withoutInit)).withContext .expr) _
      rw [hbinders, List.map_map, Function.comp_def, hs.1]
      exact hs.2 r hr
    · change Analyzed (e.bindMany (binders _)) body
      rw [hbinders]
      exact hb

theorem yields_analyzeRecur (form : Form) (args : List Form) (e : Env) :
    Yields (analyzeRecur recurse form args e) (Analyzed e) := by
  unfold analyzeRecur
  split
  · rename_i id arity hctx hid harity
    split
    · exact yields_fail _ _
    · rename_i htry
      split
      · rename_i hargs
        have hall := yields_analyzeAll hr args (e.withContext .expr)
        refine yields_bind (yields_and hall (yields_mapM_length _)) fun exprs he => ?_
        have hf : (Op.recur id exprs).Fits e form :=
          ⟨hctx, eq_false_of_ne_true htry, hid, by rw [harity, he.2, hargs]⟩
        exact yields_pure (.of_slots hf ⟨.many he.1, trivial⟩)
      · exact yields_fail _ _
  · exact yields_fail _ _

theorem yields_analyzeMethod (e : Env) (form : Form) :
    Yields (analyzeMethod recurse e form) fun n =>
      (∀ c, Analyzed (e.withContext c) n) ∧ n.op.isMethod := by
  unfold analyzeMethod
  split
  · refine yields_bind yields_true fun params _ => ?_
    refine yields_bind (yields_check _ _) fun bindings hb => ?_
    refine yields_bind yields_true fun id _ => ?_
    refine yields_bind (yields_analyzeBody hr _ _) fun body hbody => ?_
    have hbinders := binders_zip (Params.bindings_length hb) e.withoutSelf
    refine yields_pure ⟨fun c => .of_slots trivial ⟨.many fun n hn => ?_, ?_, trivial⟩, rfl⟩
    · obtain ⟨⟨p, b⟩, hr, rfl⟩ := List.mem_map.mp hn
      have hinit := Params.bindings_init hb b (List.of_mem_zip hr).2
      exact Analyzed.binding (e := e) (by simp [hinit])
    -- the body is in return context, whatever context the method itself was analyzed in
    · have hc : ((e.withContext c).withoutSelf.bindMany bindings) =
          (e.withoutSelf.bindMany bindings).withContext c :=
        Env.bindMany_withContext e.withoutSelf _ _
      change Analyzed ((((e.withContext c).withoutSelf.bindMany (binders _)).withContext
        .ret).withLoop id _) body
      rw [hbinders, hc]
      exact hbody
  · exact yields_fail _ _
  · exact yields_fail _ _
  · exact yields_fail _ _

theorem yields_analyzeFn (form head : Form) (args : List Form) (e : Env) :
    Yields (analyzeFn recurse form head args e) (Analyzed e) := by
  unfold analyzeFn
  refine yields_bind (yields_functionName _ _) fun r hself => ?_
  obtain ⟨self, rest⟩ := r
  refine yields_bind (yields_mapM fun f _ => yields_analyzeMethod hr _ f) fun methods hs => ?_
  refine yields_bind yields_true fun r _ => ?_
  obtain ⟨variadic, maxFixed⟩ := r
  have hmany := fun c => Analyzed.InSlot.many fun m hm => (hs m hm).1 c
  have hmethods : ∀ m ∈ methods, m.op.isMethod := fun m hm => (hs m hm).2
  cases self with
  | none => exact yields_wrapMetadata hr fun c => .of_slots hmethods ⟨hmany c, trivial⟩
  | some self =>
    obtain ⟨written, b⟩ := self
    have hinit : b.init = none := hself _ rfl
    have hself : Analyzed (e.withContext .expr) (.of (.binding b) written e) :=
      .binding (by simp [hinit])
    exact yields_wrapMetadata hr fun c => .of_slots hmethods ⟨hself, hmany c, trivial⟩

end Binders

end LispFront
