import LispFront.Analysis.Binder
import LispFront.Analysis.Function
import LispFront.Proofs.Analysis.Parts.Constructs

/-!
# What binding constructs are made of

Names and initial values stand in a binding vector, which is no list. A method is a list between the
function and the body, unless it is the only one and written without a list around it.
-/

namespace LispFront

open AnalyzerM Recurse.Composes

variable {recurse : Recurse} {form : Form}

theorem composes_ofForms {elems : List Form} (h : ∀ f ∈ elems, form.HasPart f) :
    recurse.Composes form (BindingPair.ofForms elems) := by
  unfold BindingPair.ofForms
  split
  · rename_i written init rest
    have hwritten : form.HasPart written := h written (by simp)
    split
    · split
      · refine andThen (composes_ofForms fun f hf => ?_) fun _ => .pure _
        exact h f (by simp [hf])
      · exact .blamed hwritten trivial
    · exact .blamed hwritten trivial
  · exact .pure _

theorem yields_ofForms (elems : List Form) :
    Yields (BindingPair.ofForms elems) fun pairs =>
      ∀ p ∈ pairs, p.written ∈ elems ∧ p.init ∈ elems := by
  unfold BindingPair.ofForms
  split
  · rename_i written init rest
    split
    · split
      · refine yields_bind (yields_ofForms rest) fun pairs hpairs => ?_
        refine yields_pure (List.forall_mem_cons.mpr ⟨by simp, fun p hp => ?_⟩)
        obtain ⟨hwritten, hinit⟩ := hpairs p hp
        exact ⟨by simp [hwritten], by simp [hinit]⟩
      · exact yields_fail _ _
    · exact yields_fail _ _
  · exact yields_pure (by simp)

section Arguments

variable {args : List Form} (h : ∀ f ∈ args, f ∈ form.elems)
include h

theorem composes_ofArgs (op : String) :
    recurse.Composes form (BindingPair.ofArgs op form args) := by
  unfold BindingPair.ofArgs
  split
  · exact .self trivial
  · rename_i elems m body
    have hvector : Form.vector elems m ∈ form.elems := h _ List.mem_cons_self
    split
    · refine andThen (composes_ofForms fun f hf => ?_) fun _ => .pure _
      exact .inner (.collection hvector rfl) (Form.hasPart_of_mem hf)
    · exact .blamed (Form.hasPart_of_mem hvector) trivial
  · exact .self trivial

theorem yields_ofArgs (op : String) :
    Yields (BindingPair.ofArgs op form args) fun r =>
      (∀ p ∈ r.1, form.HasPart p.written ∧ form.HasPart p.init) ∧ ∀ f ∈ r.2, form.HasPart f := by
  unfold BindingPair.ofArgs
  split
  · exact yields_fail _ _
  · rename_i elems m body
    have hvector : Form.vector elems m ∈ form.elems := h _ List.mem_cons_self
    have hpart (f : Form) (hf : f ∈ elems) : form.HasPart f :=
      .inner (.collection hvector rfl) (Form.hasPart_of_mem hf)
    split
    · refine yields_bind (yields_ofForms elems) fun pairs hpairs => ?_
      refine yields_pure ⟨fun p hp => ?_, fun f hf => ?_⟩
      · exact ⟨hpart _ (hpairs p hp).1, hpart _ (hpairs p hp).2⟩
      · exact Form.hasPart_of_mem (h f (List.mem_cons_of_mem _ hf))
    · exact yields_fail _ _
  · exact yields_fail _ _

end Arguments

theorem composes_bindInTurn (kind : LocalKind) {pairs : List BindingPair}
    (h : ∀ p ∈ pairs, form.HasPart p.init) (e : Env) :
    recurse.Composes form (bindInTurn recurse kind pairs e) := by
  induction pairs generalizing e with
  | nil => exact .pure _
  | cons p ps ih =>
    obtain ⟨hp, hps⟩ := List.forall_mem_cons.mp h
    unfold bindInTurn
    refine andThen (.hasPart hp _) fun init => ?_
    exact andThen (ih hps _) fun r => .pure _

theorem composes_letfnBindings {pairs : List BindingPair} (h : ∀ p ∈ pairs, form.HasPart p.init)
    (e : Env) : recurse.Composes form (letfnBindings recurse e pairs) := by
  induction pairs with
  | nil => exact .pure _
  | cons p ps ih =>
    obtain ⟨hp, hps⟩ := List.forall_mem_cons.mp h
    unfold letfnBindings
    refine andThen (.hasPart hp _) fun init => ?_
    exact andThen (ih hps) fun r => .pure _

theorem mem_of_firstRepeated? {seen : List Symbol} {pairs : List BindingPair} {p : BindingPair}
    (h : firstRepeated? seen pairs = some p) : p ∈ pairs := by
  induction pairs generalizing seen with
  | nil => cases h
  | cons q qs ih =>
    unfold firstRepeated? at h
    split at h
    · cases h
      exact List.mem_cons_self
    · exact List.mem_cons_of_mem _ (ih h)

section Arguments

variable {args : List Form}

theorem composes_analyzeLet (h : form.Calls "let*" args) (e : Env) :
    recurse.Composes form (analyzeLet recurse form args e) := by
  unfold analyzeLet
  refine .bind (composes_ofArgs h.mem _) (yields_ofArgs h.mem _) fun r hr => ?_
  refine andThen (composes_bindInTurn .let (fun p hp => (hr.1 p hp).2) _) fun bound => ?_
  exact andThen (composes_analyzeBody hr.2 _) fun _ => .pure _

theorem composes_analyzeLoop (h : form.Calls "loop*" args) (e : Env) :
    recurse.Composes form (analyzeLoop recurse form args e) := by
  unfold analyzeLoop
  refine andThen .drawLoopId fun id => ?_
  refine .bind (composes_ofArgs h.mem _) (yields_ofArgs h.mem _) fun r hr => ?_
  refine andThen (composes_bindInTurn .loop (fun p hp => (hr.1 p hp).2) _) fun bound => ?_
  exact andThen (composes_analyzeBody hr.2 _) fun _ => .pure _

theorem composes_analyzeLetfn (h : form.Calls "letfn*" args) (e : Env) :
    recurse.Composes form (analyzeLetfn recurse form args e) := by
  unfold analyzeLetfn
  refine .bind (composes_ofArgs h.mem _) (yields_ofArgs h.mem _) fun r hr => ?_
  obtain ⟨pairs, exprs⟩ := r
  dsimp only
  split
  · rename_i p hp
    exact .blamed (hr.1 p (mem_of_firstRepeated? hp)).1 trivial
  · refine andThen (composes_letfnBindings (fun p hp => (hr.1 p hp).2) _) fun bound => ?_
    exact andThen (composes_analyzeBody hr.2 _) fun _ => .pure _

theorem composes_analyzeRecur (h : form.Calls "recur" args) (e : Env) :
    recurse.Composes form (analyzeRecur recurse form args e) := by
  unfold analyzeRecur
  split
  · split
    · exact .self trivial
    · split
      · exact andThen (composes_analyzeAll h.hasPart _) fun _ => .pure _
      · rename_i hne
        exact .self ⟨args, h, rfl, hne⟩
  · exact .self trivial

end Arguments

theorem composes_functionName (args : List Form) :
    recurse.Composes form (functionName form args) := by
  unfold functionName
  split
  · split
    · exact .pure _
    · exact .self trivial
  · exact .pure _

theorem yields_functionRest (args : List Form) :
    Yields (functionName form args) fun r => r.2 <:+ args := by
  unfold functionName
  split
  · split
    · exact yields_pure (List.suffix_cons _ _)
    · exact yields_fail _ _
  · exact yields_pure (List.suffix_refl _)

theorem mem_methodForms {forms : List Form} {f : Form} (h : f ∈ methodForms forms) :
    f ∈ forms ∨ ∃ params m body, forms = .vector params m :: body ∧ f = .list forms [] := by
  unfold methodForms at h
  split at h
  · exact .inr ⟨_, _, _, rfl, List.mem_singleton.mp h⟩
  · exact .inl h

section Faults

variable {fault : AnalysisFault}

theorem Params.comparesArity_split {elems : List Form} (h : Params.split elems = .error fault) :
    fault.comparesArity = false := by
  unfold Params.split at h
  dsimp only at h
  split at h
  · cases h
  · split at h
    · cases h
      rfl
    · split at h <;> cases h
      rfl

theorem Params.comparesArity_bindings {variadic : Bool} {i : Nat} {ps : List Form}
    (h : Params.bindings variadic i ps = .error fault) : fault.comparesArity = false := by
  induction ps generalizing i with
  | nil => cases h
  | cons p ps ih =>
    unfold Params.bindings at h
    split at h
    · split at h
      · rcases hrest : Params.bindings variadic (i + 1) ps with e | rest
        · rw [hrest] at h
          cases h
          exact ih hrest
        · rw [hrest] at h
          cases h
      · cases h
        rfl
    · cases h
      rfl

theorem Overloads.comparesArity_check {arities : List (Nat × Bool)}
    (h : Overloads.check arities = .error fault) : fault.comparesArity = false := by
  unfold Overloads.check at h
  dsimp only at h
  split at h
  · cases h
    rfl
  · split at h
    · cases h
      rfl
    · split at h
      · split at h <;> cases h
        rfl
      · cases h

end Faults

theorem composes_analyzeMethod {method : Form} (hblames : ∃ between, form.Blames between method)
    (hparts : ∀ f ∈ method.elems, form.HasPart f) (e : Env) :
    recurse.Composes form (analyzeMethod recurse e method) := by
  obtain ⟨between, hblames⟩ := hblames
  unfold analyzeMethod
  split
  · refine andThen (.check hblames fun _ => Params.comparesArity_split) fun params => ?_
    refine andThen (.check hblames fun _ => Params.comparesArity_bindings) fun bindings => ?_
    refine andThen .drawLoopId fun id => ?_
    refine andThen (composes_analyzeBody (fun f hf => hparts f ?_) _) fun _ => .pure _
    exact List.mem_cons_of_mem _ hf
  · exact .fail hblames trivial
  · exact .fail hblames trivial
  · exact .fail hblames trivial

theorem composes_analyzeFn {args : List Form} (h : form.Calls "fn*" args) (head : Form) (e : Env) :
    recurse.Composes form (analyzeFn recurse form head args e) := by
  unfold analyzeFn
  refine .bind (composes_functionName args) (yields_functionRest args) fun r hr => ?_
  have hrest : r.2 <:+ form.elems := hr.trans h.suffix
  refine andThen (.mapM fun method hmethod => ?_) fun methods => ?_
  · rcases mem_methodForms hmethod with hmem | ⟨params, m, body, hforms, rfl⟩
    · have hmem : method ∈ form.elems := hrest.subset hmem
      refine composes_analyzeMethod ⟨[], .part (.elem hmem)⟩ (fun f hf => ?_) _
      exact .inner (.method h.isCallTo hmem) (Form.hasPart_of_mem hf)
    · rw [hforms] at hrest ⊢
      refine composes_analyzeMethod ⟨[], .method hrest⟩ (fun f hf => ?_) _
      exact Form.hasPart_of_mem (hrest.subset hf)
  · refine andThen (.check (.self form) fun _ => Overloads.comparesArity_check) fun _ => ?_
    exact composes_wrapMetadata rfl

end LispFront
